import Roll.Durability
import Roll.Publishing

/-!
A loss of power at any moment of any interleaving of transactions.

A transaction flushes its file before the rename and synchronises the directory
after it. So whatever a power loss leaves at a destination is what was there at
first, or a whole text that was placed there; and once the directory is
synchronised it is the text that was placed last.
-/
namespace Roll.PowerLoss
open Roll.Calm Roll.Staging Roll.Stepping Roll.Tracking Roll.Publishing
open Roll.Refinement (Machine Refines)
open Roll.Documents (Shelf)
open Roll.Durability

section
variable {ι : Type}

/-- The transactions with the disk below them. -/
structure Powered (ι : Type) where
  registry : Registry ι
  disk : Disk Name (Option Node) Nat FileData

/-- The file that a step flushes: that of `sync_file`, where all its calls succeed. -/
def flushes (env : Environment) (r : Registry ι) : Action ι → Option Nat
  | .advance i => match r.objects i with
    | some ⟨t, .syncing temporary⟩ =>
      match OutputTransaction.sync_staged env temporary (t, r.system), r.system.fs.lookup (env.locate temporary) with
      | .ok true _, .at (.file inode) => some inode
      | _, _ => none
    | _ => none
  | _ => none

/-- The directory that a step synchronises: that of `sync_directory`. -/
def syncs (env : Environment) (r : Registry ι) : Action ι → Option Nat
  | .advance i => match r.objects i with
    | some ⟨t, .clearing⟩ =>
      if (r.system.call env).1.isNone then some (env.directory t.destination_.parent) else none
    | _ => none
  | _ => none

variable [DecidableEq ι]

def Powered.step (env : Environment) (p : Powered ι) (action : Action ι) : Powered ι :=
  let r := p.registry.step env action
  let disk := p.disk.update r.system.fs.names r.system.fs.data
  let disk := ((flushes env p.registry action).map disk.flush).getD disk
  let disk := ((syncs env p.registry action).map fun directory => disk.sync (·.1 = directory)).getD disk
  { registry := r, disk }

def powering (env : Environment) : Machine (Powered ι) (Action ι) (Documents.Event ι Name UInt8) where
  step := Powered.step env
  events p := events env p.registry

/-- A process that starts on a disk that is up to date. -/
def started (system : System) : Powered ι :=
  { registry := { system }, disk := .settled system.fs.names system.fs.data }

/-! ### Files that stay -/

variable {env : Environment} {system : System} {p p' : Powered ι} {r r' : Registry ι} {i j : ι} {action : Action ι}
  {shelf shelf' : Shelf ι Name UInt8} {o o' : TransactionObject} {n : Name} {k : Nat}

/-- A file that is there and that no transaction has open. -/
def Settled (r : Registry ι) (k : Nat) : Prop :=
  k < r.system.fs.next ∧ ∀ j o, r.objects j = some o → o.transaction.file_.is_open = true → o.transaction.inode_ ≠ k

/-- Such a file keeps its data. -/
theorem effect_settled (effect : Effect env r r' shelf shelf') (settled : Settled r k) :
    Settled r' k ∧ r'.system.fs.data k = r.system.fs.data k := by
  obtain ⟨there, shut⟩ := settled
  cases effect with
  | objects same objects =>
    rw [Settled, same]
    refine ⟨⟨there, ?_⟩, rfl⟩
    intro j oj held opened
    rcases objects j oj held with old | ⟨_, closed, _⟩
    · exact shut j oj old opened
    · cases closed.symm.trans opened
  | @worked i o o' _ here works objects _ _ _ =>
    refine ⟨⟨Nat.lt_of_lt_of_le there works.next, ?_⟩, ?_⟩
    · intro j oj held opened
      rw [objects] at held
      rcases put_cases held with ⟨rfl, now⟩ | ⟨_, old⟩
      · obtain rfl := Option.some.inj now
        rcases works.opens opened with ⟨old, before⟩ | new
        · rw [old]
          exact shut j o here before
        · omega
      · exact shut j oj old opened
    · rcases works.data k with same | ⟨mine, opened⟩ | new
      · exact same
      · exact absurd mine.symm (shut i o here opened)
      · omega
  | @replaced i t q node clock here source system' objects =>
    obtain ⟨data, next⟩ : r'.system.fs.data = r.system.fs.data ∧ r'.system.fs.next = r.system.fs.next := by
      rw [system']
      exact rename_rest _ _ _
    refine ⟨⟨next ▸ there, ?_⟩, congrFun data k⟩
    intro j oj held opened
    rw [objects] at held
    rcases put_cases held with ⟨rfl, now⟩ | ⟨_, old⟩
    · obtain rfl := Option.some.inj now
      exact shut j ⟨t, .replacing q⟩ here opened
    · exact shut j oj old opened
  | discarded same =>
    subst same
    obtain ⟨next, _⟩ := unlink_slots env r r.staged_paths r.system
    exact ⟨⟨Nat.lt_of_lt_of_eq there next.symm, shut⟩, congrFun (discarded_data env r) k⟩

omit [DecidableEq ι] in
/-- A transaction that has closed its staged file keeps its text there. -/
theorem closed_settled (kept : Kept env system r shelf) {t : OutputTransaction} {phase : Phase} {q : Path}
    (here : r.objects i = some ⟨t, phase⟩) (staged : t.temporary_ = some q) (closed : Closed phase) :
    Settled r t.inode_ ∧ r.system.fs.data t.inode_ = .bytes (shelf.texts i) := by
  have held := kept.held i _ here
  obtain ⟨shut, fine⟩ := held.closed closed
  have drafted := held.drafted q staged
  refine ⟨⟨drafted.used, ?_⟩, drafted.stored shut fine⟩
  intro j oj there opened same
  have temporary : oj.transaction.temporary_ ≠ none := by
    intro nothing
    cases ((kept.held j oj there).unstaged nothing).symm.trans opened
  obtain rfl := kept.distinct j i oj _ there here temporary (fun nothing => by cases staged.symm.trans nothing) same
  obtain rfl := Option.some.inj (there.symm.trans here)
  cases shut.symm.trans opened

/-! ### Flushed files -/

/-- A commit has flushed the file. -/
def Synced : Phase → Prop
  | .inspecting (.replacing _) => True
  | .comparing (.replacing _) _ => True
  | .replacing _ => True
  | _ => False

theorem synced_closed {phase : Phase} (synced : Synced phase) : Closed phase := by
  cases phase with
  | inspecting goal => cases goal <;> exact synced
  | comparing goal inputs => cases goal <;> exact synced
  | replacing q => trivial
  | _ => exact synced.elim

omit [DecidableEq ι] in
/-- Its file stays as it is. -/
theorem synced_settled (kept : Kept env system r shelf) {t : OutputTransaction} {phase : Phase}
    (here : r.objects i = some ⟨t, phase⟩) (synced : Synced phase) :
    Settled r t.inode_ ∧ r.system.fs.data t.inode_ = .bytes (shelf.texts i) := by
  have due := (kept.sound.owned.fits i _ here).due
  have staged : ∃ q, t.temporary_ = some q := by
    cases phase with
    | inspecting goal =>
      cases goal with
      | staging => exact synced.elim
      | replacing q => exact ⟨q, due⟩
    | comparing goal inputs =>
      cases goal with
      | staging => exact synced.elim
      | replacing q => exact ⟨q, due⟩
    | replacing q => exact ⟨q, due⟩
    | _ => exact synced.elim
  obtain ⟨q, staged⟩ := staged
  exact closed_settled kept here staged (synced_closed synced)

/-- A transaction comes to such a phase from another one, or by flushing its file. -/
theorem part_synced {α : Type} {m : OutputM α} {f : α → Phase} {t : OutputTransaction} {s : System}
    (synced : Synced (TransactionObject.part m f t s).1.phase) : ∃ a q, m (t, s) = .ok a q ∧ Synced (f a) := by
  unfold TransactionObject.part at synced
  cases run : m (t, s) with
  | ok a q =>
    rw [run] at synced
    exact ⟨a, q, rfl, synced⟩
  | error e q =>
    rw [run] at synced
    exact synced.elim

theorem proceed_synced {t : OutputTransaction} {s : System} {phase : Phase}
    (synced : Synced (TransactionObject.proceed env t s phase).1.phase) :
    Synced phase ∨ ∃ q, phase = .syncing q ∧ ∃ a, OutputTransaction.sync_staged env q (t, s) = .ok true a := by
  cases phase with
  | inspecting goal =>
    cases goal with
    | staging =>
      obtain ⟨_, _, _, impossible⟩ := part_synced (f := .comparing .staging) synced
      exact impossible.elim
    | replacing q => exact .inl trivial
  | comparing goal inputs =>
    cases goal with
    | staging =>
      cases inputs with
      | nil => exact (show False from synced).elim
      | cons input rest =>
        obtain ⟨_, _, _, impossible⟩ := part_synced (f := fun _ => .comparing .staging rest) synced
        exact impossible.elim
    | replacing q => exact .inl trivial
  | naming attempts =>
    cases attempts with
    | zero =>
      obtain ⟨_, _, _, impossible⟩ := part_synced (f := fun _ => .idle (.ok ())) synced
      exact impossible.elim
    | succ attempts =>
      obtain ⟨_, _, _, impossible⟩ := part_synced (f := .creating attempts) synced
      exact impossible.elim
  | creating attempts q =>
    obtain ⟨opened, _, _, impossible⟩ :=
      part_synced (f := fun opened : Bool => if opened then Phase.tracking 0 else .looking attempts q) synced
    cases opened with
    | true => exact impossible.elim
    | false => exact impossible.elim
  | looking attempts q =>
    obtain ⟨_, _, _, impossible⟩ :=
      part_synced (f := fun taken : Bool => Phase.naming (if taken then attempts else 0)) synced
    exact impossible.elim
  | copying =>
    obtain ⟨_, _, _, impossible⟩ := part_synced (f := fun _ => .idle (.ok ())) synced
    exact impossible.elim
  | closing q =>
    obtain ⟨_, _, _, impossible⟩ := part_synced (f := fun _ => .syncing q) synced
    exact impossible.elim
  | syncing q =>
    obtain ⟨flushed, a, run, arrives⟩ := part_synced (f := fun flushed : Bool =>
      if flushed then Phase.inspecting (.replacing q) else .idle (.error ⟨.io_error, "Failed to flush output file"⟩)) synced
    cases flushed with
    | true => exact .inr ⟨q, rfl, a, run⟩
    | false => exact arrives.elim
  | clearing =>
    obtain ⟨_, _, _, impossible⟩ := part_synced (f := fun _ => .idle (.ok ())) synced
    exact impossible.elim
  | removing =>
    cases staged : t.temporary_ with
    | none =>
      simp only [TransactionObject.proceed, staged] at synced
      exact synced.elim
    | some q =>
      simp only [TransactionObject.proceed, staged] at synced
      exact synced.elim
  | idle result => exact (show False from synced).elim
  | tracking slot => exact (show False from synced).elim
  | replacing q => exact .inl trivial
  | releasing => exact (show False from synced).elim
  | forgetting => exact (show False from synced).elim

theorem part_inode {α : Type} {m : OutputM α} {f : α → Phase} (idle : Idle m) (t : OutputTransaction) (s : System) :
    (TransactionObject.part m f t s).1.transaction.inode_ = t.inode_ := by
  have same := idle_filing idle (t, s)
  unfold TransactionObject.part
  cases run : m (t, s) with
  | ok a q =>
    rw [run] at same
    exact congrArg (·.2.2.1) same
  | error e q =>
    rw [run] at same
    exact congrArg (·.2.2.1) same

/-- The steps from the flush to the rename are about one file. -/
theorem proceed_inode {t : OutputTransaction} {s : System} {phase : Phase} (flushing : Synced phase ∨ ∃ q, phase = .syncing q) :
    (TransactionObject.proceed env t s phase).1.transaction.inode_ = t.inode_ := by
  rcases flushing with synced | ⟨q, rfl⟩
  · cases phase with
    | inspecting goal => exact part_inode (inspect_idle env) t s
    | comparing goal inputs =>
      cases goal with
      | staging => exact synced.elim
      | replacing q =>
        cases inputs with
        | nil => rfl
        | cons input rest => exact part_inode (compareInputs_idle env [input]) t s
    | replacing q => rfl
    | _ => exact synced.elim
  · exact part_inode (sync_staged_idle env q) t s

/-- A transaction that has flushed its file had flushed it before, or flushes it in
    this step. -/
def Flushed (env : Environment) (r : Registry ι) (action : Action ι) (i : ι) (o : TransactionObject) : Prop :=
  ∃ t phase, r.objects i = some ⟨t, phase⟩ ∧ t.inode_ = o.transaction.inode_ ∧
    (Synced phase ∨ ∃ q a, phase = .syncing q ∧ action = .advance i ∧
      OutputTransaction.sync_staged env q (t, r.system) = .ok true a)

/-- A transaction that is replaced by one in no such phase. -/
theorem put_synced {left : Option TransactionObject} (objects : r'.objects = (r.put j left).objects)
    (unsynced : ∀ o, left = some o → ¬ Synced o.phase) (there : r'.objects i = some o) (synced : Synced o.phase) :
    Flushed env r action i o := by
  rw [objects] at there
  rcases put_cases there with ⟨_, now⟩ | ⟨_, old⟩
  · exact absurd synced (unsynced o now)
  · exact ⟨o.transaction, o.phase, old, rfl, .inl synced⟩

theorem call_synced {method : OutputTransaction → System → TransactionObject × System}
    (unsynced : ∀ t s, ¬ Synced (method t s).1.phase) (there : (r.call j method).objects i = some o)
    (synced : Synced o.phase) : Flushed env r action i o := by
  unfold Registry.call at there
  split at there
  · refine put_synced rfl ?_ there synced
    intro o' same
    obtain rfl := Option.some.inj same
    exact unsynced _ _
  · exact ⟨o.transaction, o.phase, there, rfl, .inl synced⟩

theorem step_synced (there : (r.step env action).objects i = some o) (synced : Synced o.phase) :
    Flushed env r action i o := by
  cases action with
  | construct k =>
    unfold Registry.step at there
    dsimp only at there
    split at there
    · exact ⟨o.transaction, o.phase, there, rfl, .inl synced⟩
    · refine put_synced rfl ?_ there synced
      rintro _ ⟨⟩
      exact id
  | open_ k destination inputs =>
    refine call_synced ?_ there synced
    intro t s arrives
    obtain ⟨_, _, _, impossible⟩ := part_synced (f := fun _ => .inspecting .staging) arrives
    exact impossible
  | write k chunk => exact call_synced (fun _ _ => id) there synced
  | commit k =>
    refine call_synced ?_ there synced
    intro t s arrives
    cases staged : t.temporary_ with
    | none =>
      simp only [staged] at arrives
      exact arrives
    | some q =>
      simp only [staged] at arrives
      exact arrives
  | destroy k =>
    refine call_synced ?_ there synced
    intro t s arrives
    obtain ⟨_, _, _, impossible⟩ := part_synced (f := fun _ => .removing) arrives
    exact impossible
  | discard_all_staged => exact ⟨o.transaction, o.phase, there, rfl, .inl synced⟩
  | advance k =>
    unfold Registry.step Registry.advance at there
    dsimp only at there
    cases here : r.objects k with
    | none =>
      simp only [here] at there
      exact ⟨o.transaction, o.phase, there, rfl, .inl synced⟩
    | some ok =>
      obtain ⟨t, phase⟩ := ok
      have plain : ∀ {q : TransactionObject × System}, (Synced q.1.phase → Synced phase ∨ ∃ p a, phase = .syncing p ∧
          OutputTransaction.sync_staged env p (t, r.system) = .ok true a) →
          (Synced q.1.phase → q.1.transaction.inode_ = t.inode_) →
          (r.resume k q).objects i = some o → Flushed env r (.advance k) i o := by
        intro q before inode there
        have there : (r.put k (some q.1)).objects i = some o := there
        rcases put_cases there with ⟨rfl, now⟩ | ⟨_, old⟩
        · obtain rfl := Option.some.inj now
          refine ⟨t, phase, here, (inode synced).symm, (before synced).imp id ?_⟩
          rintro ⟨p, a, rfl, run⟩
          exact ⟨p, a, rfl, rfl, run⟩
        · exact ⟨o.transaction, o.phase, old, rfl, .inl synced⟩
      have gone : ∀ {r' : Registry ι} {left : Option TransactionObject}, (∀ o, left = some o → ¬ Synced o.phase) →
          r'.objects = (r.put k left).objects → r'.objects i = some o → Flushed env r (.advance k) i o :=
        fun unsynced objects there => put_synced objects unsynced there synced
      simp only [here] at there
      cases phase with
      | tracking slot =>
        simp only [Registry.claim] at there
        split at there
        · exact gone (by rintro _ ⟨⟩; exact id) rfl there
        · exact gone (by rintro _ ⟨⟩; exact id) rfl there
        · exact gone (by rintro _ ⟨⟩; exact id) rfl there
      | replacing q =>
        simp only [Registry.replace] at there
        split at there
        · exact gone (by rintro _ ⟨⟩; exact id) rfl there
        · exact gone (by rintro _ ⟨⟩; exact id) rfl there
      | releasing => exact gone (by rintro _ ⟨⟩; exact id) rfl there
      | forgetting => exact gone (by rintro _ ⟨⟩) rfl there
      | _ =>
        refine plain ?_ ?_ there
        · intro arrives
          refine (proceed_synced arrives).imp id ?_
          rintro ⟨q, same, a, run⟩
          exact ⟨q, a, same, run⟩
        · intro arrives
          apply proceed_inode
          refine (proceed_synced arrives).imp id ?_
          rintro ⟨q, same, _⟩
          exact ⟨q, same⟩

/-! ### The disk -/

/-- The file has this data for good. -/
structure Stable (p : Powered ι) (k : Nat) (data : FileData) : Prop where
  flushed : p.disk.flushed k = true
  data : p.registry.system.fs.data k = data
  settled : Settled p.registry k

/-- What a power loss may leave at a name: what was there at first, or a text that
    was placed there. -/
def Lasting (system : System) (p : Powered ι) (shelf : Shelf ι Name UInt8) (n : Name) (e : Option Node) : Prop :=
  e = system.fs.names n ∧ (∀ k, e = some (.file k) → Stable p k (system.fs.data k)) ∨
    ∃ k text, e = some (.file k) ∧ (n, text) ∈ shelf.placed ∧ Stable p k (.bytes text)

structure Durable (env : Environment) (system : System) (p : Powered ι) (shelf : Shelf ι Name UInt8) : Prop where
  kept : Kept env system p.registry shelf
  names : p.disk.names = p.registry.system.fs.names
  data : p.disk.data = p.registry.system.fs.data
  recent : ∀ n, p.disk.names n ∈ p.disk.pending n
  lasting : ∀ n, staged_name n = false → ∀ e ∈ p.disk.pending n, Lasting system p shelf n e
  flushed : ∀ i o, p.registry.objects i = some o → Synced o.phase → p.disk.flushed o.transaction.inode_ = true

/-- The disk of a step: what is seen changes, and then more may be there to stay. -/
theorem step_settles (env : Environment) (p : Powered ι) (action : Action ι) :
    Disk.Settles (p.disk.update (p.registry.step env action).system.fs.names (p.registry.step env action).system.fs.data)
      (p.step env action).disk := by
  unfold Powered.step
  dsimp only
  cases flushes env p.registry action with
  | none =>
    cases syncs env p.registry action with
    | none => exact Disk.settles_refl _
    | some directory => exact Disk.settles_sync _ _
  | some file =>
    cases syncs env p.registry action with
    | none => exact Disk.settles_flush _ _
    | some directory => exact (Disk.settles_flush _ _).trans (Disk.settles_sync _ _)

/-- A step that flushes a file. -/
theorem flushes_flushed {k : Nat} (flushing : flushes env p.registry action = some k) :
    (p.step env action).disk.flushed k = true := by
  unfold Powered.step
  dsimp only
  rw [flushing]
  have now : ∀ d : Disk Name (Option Node) Nat FileData, (d.flush k).flushed k = true := by
    intro d
    simp [Disk.flush]
  cases syncs env p.registry action with
  | none => exact now _
  | some directory => exact now _

/-- What is there to stay stays so. -/
theorem stable_step {data : FileData} (effect : Effect env p.registry (p.step env action).registry shelf shelf')
    (live : p.disk.data = p.registry.system.fs.data) (stable : Stable p k data) : Stable (p.step env action) k data := by
  obtain ⟨flushed, holds, settled⟩ := stable
  obtain ⟨settled', same⟩ := effect_settled effect settled
  refine ⟨?_, same.trans holds, settled'⟩
  apply (step_settles env p action).flushed
  apply Disk.update_flushed flushed
  rw [live]
  exact same

theorem lasting_step {e : Option Node} (effect : Effect env p.registry (p.step env action).registry shelf shelf')
    (live : p.disk.data = p.registry.system.fs.data) (more : ∀ entry ∈ shelf.placed, entry ∈ shelf'.placed)
    (lasting : Lasting system p shelf n e) : Lasting system (p.step env action) shelf' n e := by
  rcases lasting with ⟨same, stable⟩ | ⟨k, text, same, placed, stable⟩
  · exact .inl ⟨same, fun k there => stable_step effect live (stable k there)⟩
  · exact .inr ⟨k, text, same, more _ placed, stable_step effect live stable⟩

theorem effect_placed (effect : Effect env r r' shelf shelf') :
    ∀ entry ∈ shelf.placed, entry ∈ shelf'.placed := by
  cases effect with
  | objects => exact fun _ member => member
  | worked here works objects held others placed => exact fun _ member => placed ▸ member
  | replaced => exact fun _ member => List.mem_append_left _ member
  | discarded => exact fun _ member => member

omit [DecidableEq ι] in
/-- The flush is that of the staged file. -/
theorem synced_flushes (kept : Kept env system r shelf) {t : OutputTransaction} {q : Path}
    {a : OutputTransaction × System} (here : r.objects i = some ⟨t, .syncing q⟩)
    (run : OutputTransaction.sync_staged env q (t, r.system) = .ok true a) :
    flushes env r (.advance i) = some t.inode_ := by
  have staged : t.temporary_ = some q := (kept.sound.owned.fits i _ here).due
  have leads := ((kept.held i _ here).drafted q staged).leads
  have found : r.system.fs.lookup (env.locate q) = .at (.file t.inode_) := by
    cases lookup : r.system.fs.lookup (env.locate q) with
    | missing =>
      simp only [OutputTransaction.sync_staged, lookup] at run
      cases run
    | looping =>
      simp only [OutputTransaction.sync_staged, lookup] at run
      cases run
    | «at» node =>
      rw [← lookup]
      cases named : r.system.fs.names (env.locate q) with
      | none => simp [FileSystem.lookup, FileSystem.LINK_MAX, FileSystem.follow, named] at lookup
      | some node' =>
        obtain rfl := leads node' named
        simp [FileSystem.lookup, FileSystem.LINK_MAX, FileSystem.follow, named]
  simp [flushes, here, run, found]

theorem durable_step (ours : ∀ p, staged_name (env.locate p) = true → Ours env p)
    (durable : Durable env system p shelf) (allowed : Allowed env action) :
    Durable env system (p.step env action) ((events env p.registry action).foldl Shelf.apply shelf) := by
  obtain ⟨kept, names, data, recent, lasting, flushed⟩ := durable
  have effect := step_effect ours kept allowed
  have settles := step_settles env p action
  have kept' := kept_effect kept (step_sound kept.sound action) effect
  have recent' : ∀ n, (p.step env action).disk.names n ∈ (p.step env action).disk.pending n :=
    fun n => settles.recent n (Disk.update_recent (recent n))
  refine ⟨kept', settles.names, settles.data, recent', ?_, ?_⟩
  · intro n seen e member
    rcases Disk.update_pending (settles.pending n (Disk.update_recent (recent n)) e member) with old | ⟨changed, rfl⟩
    · exact lasting_step effect data (effect_placed effect) (lasting n seen e old)
    · -- The name is new there: a text has just been placed.
      rcases effect_names kept effect seen with same | ⟨i, t, q, here, rfl, arrives, _, placed⟩
      · exact absurd (same.trans (congrFun names n).symm) changed
      · obtain ⟨settled, text⟩ := synced_settled kept here trivial
        have stable : Stable p t.inode_ (.bytes (shelf.texts i)) := ⟨flushed i _ here trivial, text, settled⟩
        refine .inr ⟨t.inode_, shelf.texts i, arrives, ?_, stable_step effect data stable⟩
        rw [placed]
        exact List.mem_append_right _ List.mem_cons_self
  · intro i o there synced
    obtain ⟨t, phase, here, inode, before | ⟨q, a, rfl, rfl, run⟩⟩ := step_synced there synced
    · rw [← inode]
      have still := (synced_settled kept here before).1
      exact (stable_step effect data ⟨flushed i _ here before, rfl, still⟩).flushed
    · rw [← inode]
      exact flushes_flushed (synced_flushes kept here run)

theorem start_durable (env : Environment) (system : System) : Durable env system (started system : Powered ι) {} := by
  refine ⟨start_kept env system, rfl, rfl, fun n => List.mem_singleton_self _, ?_, ?_⟩
  · intro n seen e member
    obtain rfl := List.mem_singleton.mp member
    refine .inl ⟨rfl, ?_⟩
    intro k there
    refine ⟨rfl, rfl, system.fs.used n k there, ?_⟩
    intro j o here
    cases here
  · intro i o here
    cases here

theorem powering_refines {env : Environment} (ours : ∀ p, staged_name (env.locate p) = true → Ours env p)
    (system : System) : Refines (powering (ι := ι) env) Shelf.apply (Allowed env) (Durable env system) :=
  fun _ _ _ durable allowed => durable_step ours durable allowed

omit [DecidableEq ι] in
/-- What a name leads to holds what was seen of it. -/
theorem survives_entry [DecidableEq ι] {names : Name → Option Node} {data : Nat → FileData}
    (durable : Durable env system p shelf) (survives : p.disk.Survives names data) (seen : staged_name n = false) :
    (names n).map (Entry.of data) = (names n).map (Entry.of p.registry.system.fs.data) := by
  cases there : names n with
  | none => rfl
  | some node =>
    cases node with
    | file k =>
      have stable : p.disk.flushed k = true := by
        rcases durable.lasting n seen _ (survives.names n) with ⟨_, stable⟩ | ⟨k', _, same, _, stable⟩
        · exact (stable k there).flushed
        · obtain rfl : k = k' := Node.file.inj (Option.some.inj (there.symm.trans same))
          exact stable.flushed
      simp [Entry.of, survives.data k stable, durable.data]
    | directory => rfl
    | other => rfl
    | link target => rfl

/-- What is found after a power loss at any moment of any interleaving of
    transactions and signals: at a name that is not that of a staged file, what was
    there at first or, as a whole, a text that was placed there. -/
theorem power_loss_leaves_whole_outputs (env : Environment) (system : System) (actions : List (Action ι))
    (ours : ∀ p, staged_name (env.locate p) = true → Ours env p) (allowed : ∀ action ∈ actions, Allowed env action)
    (names : Name → Option Node) (data : Nat → FileData)
    (survives : ((powering env).run (started system) actions).disk.Survives names data) :
    ∀ n, staged_name n = false → (names n).map (Entry.of data) = entry system.fs n ∨
      ∃ text, (n, text) ∈ (Shelf.after ((powering env).history (started system) actions)).placed ∧
        (names n).map (Entry.of data) = some (Entry.file (.bytes text)) := by
  have durable := (powering_refines ours system).run (start_durable env system) allowed
  intro n seen
  rw [survives_entry durable survives seen]
  rcases durable.lasting n seen _ (survives.names n) with ⟨same, stable⟩ | ⟨k, text, same, placed, stable⟩
  · refine .inl ?_
    unfold entry
    rw [← same]
    cases there : names n with
    | none => rfl
    | some node =>
      cases node with
      | file k => simp [Entry.of, (stable k there).data]
      | directory => rfl
      | other => rfl
      | link target => rfl
  · exact .inr ⟨text, placed, by simp [same, Entry.of, stable.data]⟩

omit [DecidableEq ι] in
/-- What is seen may be found. -/
theorem Durable.survives [DecidableEq ι] (durable : Durable env system p shelf) : p.disk.Survives p.disk.names p.disk.data :=
  ⟨durable.recent, fun _ _ => rfl⟩

/-- One transaction that is committed, up to the synchronisation of the directory. -/
def committing : List (Action Bool) :=
  [[.construct false, .open_ false ⟨"", "out"⟩ []], List.replicate 7 (.advance false),
    [.write false [1], .write false [2], .commit false], List.replicate 6 (.advance false)].flatten

theorem committing_allowed : ∀ action ∈ committing ++ .advance false :: [.discard_all_staged], Allowed {} action := by
  have all : ∀ action ∈ committing ++ .advance false :: [.discard_all_staged],
      action = .open_ false ⟨"", "out"⟩ [] ∨ ∀ i d inputs, action ≠ .open_ i d inputs := by
    simp [committing]
  intro action member
  rcases all action member with rfl | other
  · exact (by decide : staged_name (0, "out") = false)
  · cases action with
    | open_ i d inputs => exact absurd rfl (other i d inputs)
    | _ => trivial

/-- A power loss between the rename and the synchronisation of the directory. -/
theorem committing_is_whole : ∃ names data,
    ((powering {}).run (started { fs := .holding [] }) committing).disk.Survives names data ∧
      ((names (0, "out")).map (Entry.of data) = none ∨ (names (0, "out")).map (Entry.of data) = some (.file (.bytes [1, 2]))) := by
  have allowed : ∀ action ∈ committing, Allowed {} action :=
    fun action member => committing_allowed action (List.mem_append_left _ member)
  have durable := (powering_refines nobody_writes { fs := .holding [] }).run (start_durable {} _) allowed
  refine ⟨_, _, durable.survives, ?_⟩
  rcases power_loss_leaves_whole_outputs {} { fs := .holding [] } committing nobody_writes allowed _ _ durable.survives
    (0, "out") (by decide) with first | ⟨text, placed, whole⟩
  · exact .inl first
  · have texts : (Shelf.after ((powering {}).history (started { fs := .holding [] }) committing)).placed =
        [((0, "out"), [1, 2])] := by decide +kernel
    rw [texts] at placed
    obtain ⟨_, rfl⟩ := Prod.mk.inj (List.mem_singleton.mp placed)
    exact .inr whole

/-! ### After the directory is synchronised -/

/-- The texts at a name, where none is placed there. -/
theorem unplaced_texts {events : List (Documents.Event ι Name UInt8)} (unplaced : ∀ j, .placed j n ∉ events)
    (shelf : Shelf ι Name UInt8) :
    (events.foldl Shelf.apply shelf).placed.filter (·.1 = n) = shelf.placed.filter (·.1 = n) := by
  induction events generalizing shelf with
  | nil => rfl
  | cons event rest ih =>
    rw [List.foldl_cons, ih (fun j member => unplaced j (List.mem_cons_of_mem _ member))]
    cases event with
    | begun j => rfl
    | added j bytes => rfl
    | placed j m =>
      have other : ¬ m = n := by
        rintro rfl
        exact unplaced j List.mem_cons_self
      simp [Shelf.apply, List.filter_append, other]

/-- A name for which the disk is up to date. -/
def UpToDate (p : Powered ι) (n : Name) : Prop := ∀ e ∈ p.disk.pending n, e = p.disk.names n

theorem upToDate_step (ours : ∀ p, staged_name (env.locate p) = true → Ours env p)
    (durable : Durable env system p shelf) (allowed : Allowed env action) (seen : staged_name n = false)
    (unplaced : ∀ j, .placed j n ∉ events env p.registry action) (upToDate : UpToDate p n) :
    UpToDate (p.step env action) n := by
  have effect := step_effect ours durable.kept allowed
  have settles := step_settles env p action
  have same : (p.registry.step env action).system.fs.names n = p.disk.names n := by
    rw [durable.names]
    rcases effect_names durable.kept effect seen with same | ⟨i, _, _, _, _, _, _, placed⟩
    · exact same
    · have texts := unplaced_texts unplaced shelf
      rw [placed] at texts
      have longer := congrArg List.length texts
      simp [Shelf.apply, List.filter_append] at longer
  have names : (p.step env action).disk.names n = p.disk.names n := by
    rw [settles.names]
    exact same
  intro e member
  rw [names]
  rcases Disk.update_pending (settles.pending n (Disk.update_recent (durable.recent n)) e member) with old | ⟨changed, _⟩
  · exact upToDate e old
  · exact absurd same changed

theorem upToDate_run (ours : ∀ p, staged_name (env.locate p) = true → Ours env p) (seen : staged_name n = false) :
    ∀ {actions : List (Action ι)} {p : Powered ι} {shelf : Shelf ι Name UInt8}, Durable env system p shelf →
      (∀ action ∈ actions, Allowed env action) → (∀ j, .placed j n ∉ (powering env).history p actions) →
      UpToDate p n → UpToDate ((powering env).run p actions) n := by
  intro actions
  induction actions with
  | nil => exact fun _ _ _ upToDate => upToDate
  | cons action rest ih =>
    intro p shelf durable allowed unplaced upToDate
    have first := allowed action List.mem_cons_self
    refine ih (durable_step ours durable first) (fun a member => allowed a (List.mem_cons_of_mem _ member)) ?_ ?_
    · exact fun j member => unplaced j (List.mem_append_right _ member)
    · exact upToDate_step ours durable first seen (fun j member => unplaced j (List.mem_append_left _ member)) upToDate

theorem syncs_upToDate {directory : Nat} (syncing : syncs env p.registry action = some directory) (inside : n.1 = directory) :
    UpToDate (p.step env action) n := by
  unfold UpToDate Powered.step
  dsimp only
  rw [syncing]
  intro e member
  have kept : ∀ d : Disk Name (Option Node) Nat FileData, e ∈ (d.sync (·.1 = directory)).pending n →
      e = (d.sync (·.1 = directory)).names n := by
    intro d member
    simpa [Disk.sync, inside] using member
  exact kept _ member

/-- Once a commit has synchronised the directory, a power loss leaves the text that
    was placed last at each name there, until the next one is placed. -/
theorem synchronised_output_survives (env : Environment) (system : System) (before after : List (Action ι))
    (action : Action ι) (directory : Nat) (n : Name) (ours : ∀ p, staged_name (env.locate p) = true → Ours env p)
    (allowed : ∀ a ∈ before ++ action :: after, Allowed env a)
    (syncing : syncs env ((powering env).run (started system) before).registry action = some directory)
    (inside : n.1 = directory) (seen : staged_name n = false)
    (unplaced : ∀ j, .placed j n ∉ (powering env).history ((powering env).run (started system) (before ++ [action])) after)
    (names : Name → Option Node) (data : Nat → FileData)
    (survives : ((powering env).run (started system) (before ++ action :: after)).disk.Survives names data) :
    (names n).map (Entry.of data) =
      shows system (Shelf.after ((powering env).history (started system) (before ++ action :: after))) n := by
  have split : before ++ action :: after = (before ++ [action]) ++ after := by simp
  have refines := powering_refines (ι := ι) ours system
  have durable := refines.run (start_durable env system) allowed
  have first := refines.run (start_durable env system) fun a member =>
    allowed a (by rw [split]; exact List.mem_append_left _ member)
  have synced : UpToDate ((powering env).run (started system) (before ++ [action])) n := by
    rw [Machine.run_append]
    exact syncs_upToDate syncing inside
  have last : UpToDate ((powering env).run (started system) (before ++ action :: after)) n := by
    rw [split, Machine.run_append]
    exact upToDate_run ours seen first (fun a member => allowed a (by rw [split]; exact List.mem_append_right _ member))
      unplaced synced
  rw [survives_entry durable survives seen, last _ (survives.names n), durable.names]
  exact durable.kept.shown n seen

/-- After it, a signal and a power loss leave the output. -/
theorem committed_output_survives : ∃ names data,
    ((powering {}).run (started { fs := .holding [] }) (committing ++ .advance false :: [.discard_all_staged])).disk.Survives
      names data ∧ (names (0, "out")).map (Entry.of data) = some (.file (.bytes [1, 2])) := by
  have durable := (powering_refines nobody_writes { fs := .holding [] }).run (start_durable {} _) committing_allowed
  refine ⟨_, _, durable.survives, ?_⟩
  have syncing : syncs {} ((powering {}).run (started { fs := .holding [] }) committing).registry (.advance false) = some 0 := by
    decide +kernel
  refine (synchronised_output_survives {} { fs := .holding [] } committing [.discard_all_staged] (.advance false) 0 (0, "out")
    nobody_writes committing_allowed syncing rfl (by decide) ?_ _ _ durable.survives).trans ?_
  · intro j member
    cases member
  · have texts : (Shelf.after ((powering {}).history (started { fs := .holding [] })
        (committing ++ .advance false :: [.discard_all_staged]))).shown (0, "out") = some [1, 2] := by decide +kernel
    simp only [shows, texts]

end

end Roll.PowerLoss
