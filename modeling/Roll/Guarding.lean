import Roll.Publishing

/-!
The permissions of the outputs, over any interleaving of the steps of any number
of transactions and of signals.

A destination that is there keeps its permissions, and the file that is to
replace it has them before it is given a byte.
-/
namespace Roll.Guarding
open Roll.Parsing Roll.Outcome Roll.Calm Roll.Staging Roll.Stepping Roll.Tracking Roll.Publishing
open Roll.Documents (Shelf)

/-- The name leads to a file with these permissions, and no name on the way is that
    of a staged file. -/
inductive Leads (fs : FileSystem) : Name → Nat → Prop
  | file {n : Name} {k : Nat} (seen : staged_name n = false) (named : fs.names n = some (.file k)) :
    Leads fs n (fs.permissions k)
  | link {n target : Name} {mode : Nat} (seen : staged_name n = false) (named : fs.names n = some (.link target))
    (leads : Leads fs target mode) : Leads fs n mode

/-- Where the name is looked up, it is that file. -/
theorem Leads.follow {fs : FileSystem} {n : Name} {mode : Nat} (leads : Leads fs n mode) :
    ∀ fuel, fs.follow fuel n = .looping ∨ ∃ k, fs.follow fuel n = .at (.file k) ∧ fs.permissions k = mode := by
  induction leads with
  | file _ named =>
    intro fuel
    cases fuel with
    | zero => exact .inl rfl
    | succ fuel =>
      rw [FileSystem.follow, named]
      exact .inr ⟨_, rfl, rfl⟩
  | link _ named _ ih =>
    intro fuel
    cases fuel with
    | zero => exact .inl rfl
    | succ fuel =>
      rw [FileSystem.follow, named]
      exact ih fuel

/-! ### One transaction -/

/-- The last call of the object, `open` or a later one, has not failed so far. -/
def Opened : Phase → Prop
  | .idle (.ok ()) => True
  | .inspecting (.replacing _) => True
  | .comparing (.replacing _) _ => True
  | .closing _ => True
  | .syncing _ => True
  | .replacing _ => True
  | .releasing => True
  | .clearing => True
  | _ => False

/-- The staged file is new, and its permissions are yet to be set. -/
def Opening : Phase → Prop
  | .tracking _ => True
  | .copying => True
  | _ => False

/-- What a transaction has staged, and for which destination. -/
def aiming (q : OutputTransaction × System) : Path × Option Path × Nat × Bool × (Nat → Nat) :=
  (q.1.destination_, q.1.temporary_, q.1.inode_, q.1.file_.is_open, q.2.fs.permissions)

/-- A staged file that is ready, or that has been given a byte, was so before the step. -/
def Carries (o : TransactionObject) (text : List UInt8) (o' : TransactionObject) (text' : List UInt8) : Prop :=
  Opened o'.phase ∨ text' ≠ [] → o'.transaction.temporary_ ≠ none →
    (Opened o.phase ∨ text ≠ []) ∧ o'.transaction.temporary_ = o.transaction.temporary_ ∧
      o'.transaction.inode_ = o.transaction.inode_ ∧ o'.transaction.destination_ = o.transaction.destination_

/-- A new staged file is open. -/
def Fresh (o : TransactionObject) : Prop := Opening o.phase → o.transaction.file_.is_open = true

/-- What a step of one transaction leaves of the permissions. -/
structure Spares (o : TransactionObject) (text : List UInt8) (s : System) (o' : TransactionObject) (s' : System) : Prop where
  modes : s'.fs.permissions = s.fs.permissions
  carries : Carries o text o' text
  fresh : Fresh o'

variable {env : Environment} {o o' : TransactionObject} {t t' : OutputTransaction} {s s' : System} {phase phase' : Phase}
  {text text' : List UInt8} {α : Type}

theorem idle_aiming {m : OutputM α} (idle : Idle m) : Frames aiming m := idle.frames fun _ _ _ => rfl

theorem carries_nothing (nothing : o'.transaction.temporary_ = none) : Carries o text o' text' :=
  fun _ staged => absurd nothing staged

theorem spares_aiming (same : aiming (t', s') = aiming (t, s)) (opened : Opened phase' → Opened phase)
    (opening : Opening phase' → Opening phase) (fresh : Fresh ⟨t, phase⟩) : Spares ⟨t, phase⟩ text s ⟨t', phase'⟩ s' := by
  simp only [aiming, Prod.mk.injEq] at same
  obtain ⟨destination, temporary, inode, file, modes⟩ := same
  refine ⟨modes, ?_, fun new => file.trans (fresh (opening new))⟩
  intro ready staged
  exact ⟨ready.imp opened id, temporary, inode, destination⟩

/-- A part that stages nothing. -/
theorem part_spares {m : OutputM α} {f : α → Phase} (frames : Frames aiming m)
    (opened : ∀ a, Opened (f a) → Opened phase) (opening : ∀ a, Opening (f a) → Opening phase) (fresh : Fresh ⟨t, phase⟩) :
    Spares ⟨t, phase⟩ text s (TransactionObject.part m f t s).1 (TransactionObject.part m f t s).2 := by
  have same := frames (t, s)
  unfold TransactionObject.part
  cases run : m (t, s) with
  | ok a q =>
    rw [run] at same
    exact spares_aiming same (opened a) (opening a) fresh
  | error e q =>
    rw [run] at same
    exact spares_aiming same (fun impossible => impossible.elim) (fun impossible => impossible.elim) fresh

/-- Closing changes nothing but the handle and the data of the file. -/
theorem close_file_runs (t : OutputTransaction) (s : System) : ∃ closed file s', OutputTransaction.close_file (t, s) =
    .ok closed ({ t with file_ := file }, s') ∧ s'.fs.permissions = s.fs.permissions := by
  unfold OutputTransaction.close_file
  dsimp only
  split
  · exact ⟨_, _, _, rfl, rfl⟩
  · exact ⟨_, _, _, rfl, rfl⟩

theorem handle_spares {file : FileIo} (modes : s'.fs.permissions = s.fs.permissions)
    (opened : Opened phase' → Opened phase) (settled : ¬ Opening phase') :
    Spares ⟨t, phase⟩ text s ⟨{ t with file_ := file }, phase'⟩ s' :=
  ⟨modes, fun ready _ => ⟨ready.imp opened id, rfl, rfl, rfl⟩, fun new => absurd new settled⟩

theorem close_staged_spares (p : Path) :
    let q := TransactionObject.part OutputTransaction.close_staged (fun _ => .syncing p) t s
    Spares ⟨t, .closing p⟩ text s q.1 q.2 := by
  obtain ⟨closed, file, s', run, modes⟩ := close_file_runs t s
  have got : (get : OutputM _) ({ t with file_ := file }, s') =
      .ok ({ t with file_ := file }, s') ({ t with file_ := file }, s') := rfl
  unfold TransactionObject.part OutputTransaction.close_staged
  rw [bind_ok run, bind_ok got]
  by_cases failed : (!closed || file.has_error) = true
  · simp only [if_pos failed]
    exact handle_spares modes (fun impossible => impossible.elim) id
  · simp only [if_neg failed]
    exact handle_spares modes (fun _ => trivial) id

/-- A candidate that is created has been given nothing. -/
theorem open_candidate_spares {attempts : Nat} {p : Path} (fits : Fits ⟨t, .creating attempts p⟩) (blank : text = []) :
    let q := TransactionObject.part (OutputTransaction.open_candidate env p)
      (fun opened => if opened then .tracking 0 else .looking attempts p) t s
    Spares ⟨t, .creating attempts p⟩ text s q.1 q.2 := by
  have nothing : t.temporary_ = none := fits.due.1
  rcases open_candidate_runs env p t s with ⟨clock, run⟩ | ⟨_, _, ⟨clock, run⟩ | ⟨_, _, clock, run⟩⟩
  · simp only [TransactionObject.part, run]
    exact ⟨rfl, carries_nothing nothing, fun impossible => impossible.elim⟩
  · simp only [TransactionObject.part, run]
    exact ⟨rfl, fun ready => absurd blank (ready.resolve_left id), fun _ => rfl⟩
  · simp only [TransactionObject.part, run]
    exact ⟨rfl, carries_nothing nothing, fun impossible => impossible.elim⟩

theorem remove_modes (env : Environment) (p : Path) (s : System) : (s.remove env p).fs.permissions = s.fs.permissions := by
  unfold System.remove System.call
  cases env.faults s.clock with
  | some message => rfl
  | none =>
    dsimp only
    split
    · rfl
    · rfl

/-- Every step but `copyPermissions` leaves the permissions of all files as they are. -/
theorem proceed_spares (other : phase ≠ .copying) (fits : Fits ⟨t, phase⟩) (blank : Beginning phase → text = [])
    (fresh : Fresh ⟨t, phase⟩) : Spares ⟨t, phase⟩ text s (TransactionObject.proceed env t s phase).1
      (TransactionObject.proceed env t s phase).2 := by
  have done : ∀ {P : Prop}, False → P := fun impossible => impossible.elim
  cases phase with
  | inspecting goal =>
    have idle := idle_aiming (inspect_idle env)
    cases goal with
    | staging => exact part_spares (f := .comparing .staging) idle (fun _ => done) (fun _ => done) fresh
    | replacing p => exact part_spares (f := .comparing (.replacing p)) idle (fun _ _ => trivial) (fun _ => done) fresh
  | comparing goal inputs =>
    cases inputs with
    | nil =>
      cases goal with
      | staging => exact spares_aiming rfl done done fresh
      | replacing p => exact spares_aiming rfl (fun _ => trivial) done fresh
    | cons input rest =>
      have idle := idle_aiming (compareInputs_idle env [input])
      cases goal with
      | staging => exact part_spares (f := fun _ => .comparing .staging rest) idle (fun _ => done) (fun _ => done) fresh
      | replacing p =>
        exact part_spares (f := fun _ => .comparing (.replacing p) rest) idle (fun _ _ => trivial) (fun _ => done) fresh
  | naming attempts =>
    cases attempts with
    | zero =>
      simp only [TransactionObject.proceed, TransactionObject.part, stage_none]
      exact spares_aiming rfl done done fresh
    | succ attempts =>
      have frames : Frames aiming (OutputTransaction.next_candidate env) := fun _ => rfl
      exact part_spares (f := .creating attempts) frames (fun _ => done) (fun _ => done) fresh
  | creating attempts p =>
    exact open_candidate_spares fits (blank trivial)
  | looking attempts p =>
    have idle := idle_aiming (is_taken_idle env p)
    exact part_spares (f := fun taken : Bool => Phase.naming (if taken then attempts else 0)) idle (fun _ => done)
      (fun _ => done) fresh
  | copying => exact absurd rfl other
  | closing p =>
    exact close_staged_spares p
  | syncing p =>
    have idle := idle_aiming (sync_staged_idle env p)
    refine part_spares (f := fun synced : Bool => if synced then Phase.inspecting (.replacing p)
      else .idle (.error ⟨.io_error, "Failed to flush output file"⟩)) idle (fun _ _ => trivial) ?_ fresh
    intro synced
    cases synced with
    | true => exact done
    | false => exact done
  | clearing => exact ⟨rfl, carries_nothing rfl, done⟩
  | removing =>
    unfold TransactionObject.proceed
    cases t.temporary_ with
    | none => exact spares_aiming rfl done done fresh
    | some p =>
      refine ⟨remove_modes env p s, ?_, done⟩
      intro ready _
      exact ⟨.inr (ready.resolve_left id), rfl, rfl, rfl⟩
  | idle result => exact spares_aiming rfl id id fresh
  | tracking k => exact spares_aiming rfl id id fresh
  | replacing p => exact spares_aiming rfl id id fresh
  | releasing => exact spares_aiming rfl id id fresh
  | forgetting => exact spares_aiming rfl id id fresh

/-- The staged file has the permissions of its destination, or all permissions are as
    they were: the method has failed, or the file is gone. -/
structure Copied (env : Environment) (t : OutputTransaction) (s : System) (q : TransactionObject × System) : Prop where
  same : q.1.transaction = t
  names : q.2.fs.names = s.fs.names
  settled : ¬ Opening q.1.phase
  others : ∀ k, k ≠ t.inode_ → q.2.fs.permissions k = s.fs.permissions k
  mine : ¬ Opened q.1.phase ∧ q.2.fs.permissions = s.fs.permissions ∨
    (∀ p, t.temporary_ = some p → s.fs.names (env.locate p) = none) ∨
    ∀ mode, Leads s.fs (env.locate t.destination_) mode → q.2.fs.permissions t.inode_ = mode

theorem copied_failed (clock : Nat) (e : DeltaError) : Copied env t s (⟨t, .idle (.error e)⟩, later s clock) :=
  ⟨rfl, rfl, id, fun _ _ => rfl, .inl ⟨id, rfl⟩⟩

/-- Where the destination leads to a file, that is what its status tells. -/
theorem status_leads {p : Path} {node : Option Node} {mode : Nat} (run : s.status env p = (.ok node, s'))
    (leads : Leads s.fs (env.locate p) mode) : ∃ k, node = some (.file k) ∧ s.fs.permissions k = mode := by
  unfold System.status System.call at run
  cases fault : env.faults s.clock with
  | some message => simp [fault] at run
  | none =>
    have found : s.fs.lookup (env.locate p) = .looping ∨
      ∃ k, s.fs.lookup (env.locate p) = .at (.file k) ∧ s.fs.permissions k = mode := leads.follow _
    rcases found with looping | ⟨k, here, permissions⟩
    · simp [fault, looping] at run
    · simp only [fault, here, Prod.mk.injEq, Except.ok.injEq] at run
      exact ⟨k, run.1.symm, permissions⟩

/-- There is no file whose permissions the staged file should have. -/
theorem copied_nothing {node : Option Node} {clock : Nat} (run : s.status env t.destination_ = (.ok node, later s clock))
    (other : ∀ k, node ≠ some (.file k)) : Copied env t s (⟨t, .idle (.ok ())⟩, later s clock) := by
  refine ⟨rfl, rfl, id, fun _ _ => rfl, .inr (.inr ?_)⟩
  intro mode leads
  obtain ⟨k, file, _⟩ := status_leads run leads
  exact absurd file (other k)

theorem copying_copies {p : Path} (staged : t.temporary_ = some p)
    (leads : ∀ node, s.fs.names (env.locate p) = some node → node = .file t.inode_) :
    Copied env t s (TransactionObject.proceed env t s .copying) := by
  have looked := status_untouched env t.destination_ s
  unfold TransactionObject.proceed TransactionObject.part OutputTransaction.copyPermissions
  dsimp only
  cases run : s.status env t.destination_ with
  | mk result s₁ =>
    rw [run] at looked
    obtain ⟨clock, rfl⟩ := looked
    rcases result with message | _ | node
    · exact copied_failed clock _
    · exact copied_nothing run (by simp)
    · cases node with
      | file k =>
        simp only [staged]
        unfold System.permissions System.call
        cases fault : env.faults (later s clock).clock with
        | some message => exact copied_failed _ _
        | none =>
          have same : (later s clock).fs = s.fs := rfl
          cases named : s.fs.names (env.locate p) with
          | none =>
            have missing : s.fs.lookup (env.locate p) = .missing := by
              show s.fs.follow (39 + 1) (env.locate p) = .missing
              simp [FileSystem.follow, named]
            simp only [same, missing]
            refine ⟨rfl, rfl, id, fun _ _ => rfl, .inr (.inl ?_)⟩
            intro q temporary
            obtain rfl := Option.some.inj (staged.symm.trans temporary)
            exact named
          | some node =>
            obtain rfl := leads node named
            have here : s.fs.lookup (env.locate p) = .at (.file t.inode_) := by
              show s.fs.follow (39 + 1) (env.locate p) = .at (.file t.inode_)
              simp [FileSystem.follow, named]
            simp only [same, here]
            refine ⟨rfl, rfl, id, fun j other => if_neg other, .inr (.inr ?_)⟩
            intro mode known
            obtain ⟨j, file, permissions⟩ := status_leads run known
            obtain rfl : k = j := by simpa using file
            exact (if_pos rfl).trans permissions
      | directory => exact copied_nothing run (by simp)
      | other => exact copied_nothing run (by simp)
      | link target => exact copied_nothing run (by simp)

/-! ### The registry -/

section
variable {ι : Type} [DecidableEq ι] {r r' : Registry ι} {i j : ι} {action : Action ι} {system : System}
  {shelf shelf' : Shelf ι Name UInt8}

/-- The name is as it was at first, or a file with the permissions that were there
    has taken its place. -/
def Stands (system : System) (fs : FileSystem) (n : Name) : Prop :=
  fs.names n = system.fs.names n ∧
      (∀ k, system.fs.names n = some (.file k) → fs.permissions k = system.fs.permissions k) ∨
    ∃ k, fs.names n = some (.file k) ∧ ∀ mode, Leads system.fs n mode → fs.permissions k = mode

theorem leads_stands {fs : FileSystem} (stands : ∀ n, staged_name n = false → Stands system fs n) {n : Name} {mode : Nat}
    (leads : Leads system.fs n mode) : Leads fs n mode := by
  induction leads with
  | @file n k seen named =>
    rcases stands n seen with ⟨same, modes⟩ | ⟨k', file, modes⟩
    · rw [← modes k named]
      exact .file seen (same.trans named)
    · rw [← modes _ (.file seen named)]
      exact .file seen file
  | @link n target mode seen named leads ih =>
    rcases stands n seen with ⟨same, _⟩ | ⟨k', file, modes⟩
    · exact .link seen (same.trans named) ih
    · rw [← modes _ (.link seen named leads)]
      exact .file seen file

/-- The permissions of the outputs, in a process that started in `system`. -/
structure Guarded (env : Environment) (system : System) (r : Registry ι) (shelf : Shelf ι Name UInt8) : Prop where
  staged : ∀ i o, r.objects i = some o → Opened o.phase ∨ shelf.texts i ≠ [] → ∀ p, o.transaction.temporary_ = some p →
    r.system.fs.names (env.locate p) ≠ none → ∀ mode, Leads system.fs (env.locate o.transaction.destination_) mode →
      r.system.fs.permissions o.transaction.inode_ = mode
  fresh : ∀ i o, r.objects i = some o → Fresh o
  stands : ∀ n, staged_name n = false → Stands system r.system.fs n

/-- What a step does to the permissions. -/
structure Guards (env : Environment) (r r' : Registry ι) (shelf shelf' : Shelf ι Name UInt8) : Prop where
  modes : ∀ k, r'.system.fs.permissions k = r.system.fs.permissions k ∨
    ∃ i t, r.objects i = some ⟨t, .copying⟩ ∧ k = t.inode_ ∧ t.temporary_ ≠ none
  fresh : ∀ i o, r'.objects i = some o → Fresh o
  staged : ∀ i o', r'.objects i = some o' → Opened o'.phase ∨ shelf'.texts i ≠ [] → o'.transaction.temporary_ ≠ none →
    (∃ o, r.objects i = some o ∧ (Opened o.phase ∨ shelf.texts i ≠ []) ∧
      o'.transaction.temporary_ = o.transaction.temporary_ ∧
      o'.transaction.inode_ = o.transaction.inode_ ∧ o'.transaction.destination_ = o.transaction.destination_ ∧
      r'.system.fs.permissions o.transaction.inode_ = r.system.fs.permissions o.transaction.inode_) ∨
    (∀ p, o'.transaction.temporary_ = some p → r'.system.fs.names (env.locate p) = none) ∨
    ∀ mode, Leads r.system.fs (env.locate o'.transaction.destination_) mode →
      r'.system.fs.permissions o'.transaction.inode_ = mode

/-- A staged file that is gone does not come back. -/
theorem staged_stays {p : Path} (kept : Kept env system r shelf) (effect : Effect env r r' shelf shelf')
    (here : r.objects i = some o) (temporary : o.transaction.temporary_ = some p)
    (there : r'.system.fs.names (env.locate p) ≠ none) : r.system.fs.names (env.locate p) ≠ none := by
  have hidden := ((kept.held i o here).drafted p temporary).hidden
  cases effect with
  | objects same => rwa [same] at there
  | @worked j oj _ _ here' works =>
    rcases works.names (env.locate p) with same | ⟨gone, _⟩ | ⟨q, chooses, equal⟩
    · rwa [same] at there
    · exact absurd gone there
    · have fits := kept.sound.owned.fits j oj here'
      obtain rfl := staged_apart kept.sound.apart here' here (chosen_reserved fits chooses) temporary equal
      obtain rfl := Option.some.inj (here.symm.trans here')
      obtain ⟨t, phase⟩ := o
      cases phase with
      | creating attempts path =>
        have nothing : t.temporary_ = none := fits.due.1
        cases nothing.symm.trans temporary
      | _ => cases chooses
  | @replaced j t q _ _ here' _ system' =>
    have other : env.locate p ≠ env.locate t.destination_ := by
      intro same
      have aimed : staged_name (env.locate t.destination_) = false := (kept.held j _ here').apart
      rw [same, aimed] at hidden
      cases hidden
    rw [system'] at there
    rcases rename_elsewhere r.system.fs (env.locate q) (env.locate t.destination_) other with same | ⟨gone, _⟩
    · rwa [show ((later r.system _).set (r.system.fs.rename (env.locate q) (env.locate t.destination_))).fs.names
        (env.locate p) = _ from same] at there
    · exact absurd gone there
  | discarded same =>
    subst same
    obtain ⟨_, _, names⟩ := unlink_slots env r r.staged_paths r.system
    rcases names (env.locate p) with same | ⟨gone, _⟩
    · rwa [show (r.discard_all_staged env).system.fs.names (env.locate p) = _ from same] at there
    · exact absurd gone there

theorem guarded_guards (kept : Kept env system r shelf) (effect : Effect env r r' shelf shelf')
    (guards : Guards env r r' shelf shelf') (guarded : Guarded env system r shelf) : Guarded env system r' shelf' := by
  obtain ⟨modes, fresh, staged⟩ := guards
  refine ⟨?_, fresh, ?_⟩
  · intro i o' there ready p temporary present mode leads
    rcases staged i o' there ready (by simp [temporary]) with
      ⟨o, here, before, temporary', inode, destination, same⟩ | gone | copied
    · have path : o.transaction.temporary_ = some p := temporary'.symm.trans temporary
      rw [inode, same]
      exact guarded.staged i o here before p path (staged_stays kept effect here path present) mode (destination ▸ leads)
    · exact absurd (gone p temporary) present
    · exact copied mode (leads_stands guarded.stands leads)
  · intro n seen
    rcases effect_names kept effect seen with same | ⟨i, t, p, here, rfl, arrives, source, _⟩
    · -- The file that a name leads to is not one that is being staged.
      have still : ∀ k, r.system.fs.names n = some (.file k) →
          r'.system.fs.permissions k = r.system.fs.permissions k := by
        intro k named
        rcases modes k with same | ⟨i, t, here, rfl, _⟩
        · exact same
        · exact absurd named (kept.covered i _ here (guarded.fresh i _ here trivial) n seen)
      rcases guarded.stands n seen with ⟨first, modes'⟩ | ⟨k, file, modes'⟩
      · exact .inl ⟨same.trans first, fun k named => (still k (first.trans named)).trans (modes' k named)⟩
      · exact .inr ⟨k, same.trans file, fun mode leads => (still k file).trans (modes' mode leads)⟩
    · have temporary : t.temporary_ = some p := (kept.sound.owned.fits i _ here).due
      have ready : t.temporary_ ≠ none := fun nothing => by cases temporary.symm.trans nothing
      refine .inr ⟨t.inode_, arrives, fun mode leads => ?_⟩
      rw [← guarded.staged i _ here (.inl trivial) p temporary source mode leads]
      rcases modes t.inode_ with same | ⟨j, t', here', equal, temporary'⟩
      · exact same
      · obtain rfl := kept.distinct i j _ _ here here' ready temporary' equal
        cases (TransactionObject.mk.inj (Option.some.inj (here.symm.trans here'))).2

omit [DecidableEq ι] in
/-- A step that leaves all permissions as they are. -/
theorem guards_left (modes : r'.system.fs.permissions = r.system.fs.permissions)
    (objects : ∀ i o', r'.objects i = some o' → Fresh o' ∧ (o'.transaction.temporary_ = none ∨
      ∃ o, r.objects i = some o ∧ Carries o (shelf.texts i) o' (shelf'.texts i))) : Guards env r r' shelf shelf' := by
  refine ⟨fun k => .inl (congrFun modes k), fun i o there => (objects i o there).1, ?_⟩
  intro i o' there ready temporary
  rcases (objects i o' there).2 with nothing | ⟨o, here, carries⟩
  · exact absurd nothing temporary
  · obtain ⟨before, temporary', inode, destination⟩ := carries ready temporary
    exact .inl ⟨o, here, before, temporary', inode, destination, congrFun modes _⟩

theorem carries_refl (o : TransactionObject) (text : List UInt8) : Carries o text o text :=
  fun ready _ => ⟨ready, rfl, rfl, rfl⟩

omit [DecidableEq ι] in
/-- Of the shelf only the texts matter. -/
theorem guards_texts (texts : shelf'.texts = shelf.texts) (guards : Guards env r r' shelf shelf) :
    Guards env r r' shelf shelf' := by
  obtain ⟨modes, fresh, staged⟩ := guards
  exact ⟨modes, fresh, texts ▸ staged⟩

omit [DecidableEq ι] in
theorem discarded_modes (env : Environment) (r : Registry ι) :
    (r.discard_all_staged env).system.fs.permissions = r.system.fs.permissions := by
  have each : ∀ (slots : List (Option ι)) (s : System), (slots.foldl (r.unlink_slot env) s).fs.permissions = s.fs.permissions := by
    intro slots
    induction slots with
    | nil => exact fun s => rfl
    | cons slot slots ih =>
      intro s
      rw [List.foldl_cons, ih]
      unfold Registry.unlink_slot
      split
      · next p _ =>
        unfold System.unlink System.call
        cases env.faults s.clock with
        | some message => rfl
        | none =>
          dsimp only
          split <;> rfl
      · rfl
  exact each _ _

omit [DecidableEq ι] in
theorem rename_modes (fs : FileSystem) (source target : Name) : (fs.rename source target).permissions = fs.permissions := by
  unfold FileSystem.rename
  split
  · rfl
  · rfl

/-- A step of one transaction. -/
theorem guards_put (guarded : Guarded env system r shelf) (here : r.objects i = some o)
    (objects : r'.objects = (r.put i (some o')).objects) (modes : r'.system.fs.permissions = r.system.fs.permissions)
    (carries : Carries o (shelf.texts i) o' (shelf'.texts i)) (fresh : Fresh o')
    (others : ∀ j ≠ i, shelf'.texts j = shelf.texts j) : Guards env r r' shelf shelf' := by
  apply guards_left modes
  intro j oj there
  rw [objects] at there
  rcases put_cases there with ⟨rfl, now⟩ | ⟨other, old⟩
  · obtain rfl := Option.some.inj now
    exact ⟨fresh, .inr ⟨o, here, carries⟩⟩
  · refine ⟨guarded.fresh j oj old, .inr ⟨oj, old, ?_⟩⟩
    rw [others j other]
    exact carries_refl oj _

theorem guards_spares (guarded : Guarded env system r shelf) (here : r.objects i = some o)
    (objects : r'.objects = (r.put i (some o')).objects) (spares : Spares o (shelf.texts i) r.system o' r'.system) :
    Guards env r r' shelf shelf :=
  guards_put guarded here objects spares.modes spares.carries spares.fresh fun _ _ => rfl

/-- The staged file of one transaction takes the permissions of its destination. -/
theorem guards_copying (kept : Kept env system r shelf) (guarded : Guarded env system r shelf)
    (here : r.objects i = some ⟨t, .copying⟩) {q : TransactionObject × System} (staged : t.temporary_ ≠ none)
    (copied : Copied env t r.system q) : Guards env r (r.resume i q) shelf shelf := by
  obtain ⟨⟨t', phase'⟩, s'⟩ := q
  obtain ⟨rfl, names, settled, others, mine⟩ := copied
  have apart : ∀ j oj, j ≠ i → r.objects j = some oj → oj.transaction.temporary_ ≠ none →
      s'.fs.permissions oj.transaction.inode_ = r.system.fs.permissions oj.transaction.inode_ := by
    intro j oj other there temporary
    exact others _ fun same => other (kept.distinct j i oj _ there here temporary staged same)
  refine ⟨?_, ?_, ?_⟩
  · intro k
    by_cases own : k = t'.inode_
    · exact .inr ⟨i, t', here, own, staged⟩
    · exact .inl (others k own)
  · intro j oj there
    rcases put_cases there with ⟨rfl, now⟩ | ⟨_, old⟩
    · obtain rfl := Option.some.inj now
      exact fun opening => absurd opening settled
    · exact guarded.fresh j oj old
  · intro j oj there ready temporary
    rcases put_cases there with ⟨rfl, now⟩ | ⟨other, old⟩
    · obtain rfl := Option.some.inj now
      rcases mine with ⟨failed, still⟩ | gone | copies
      · exact .inl ⟨_, here, .inr (ready.resolve_left failed), rfl, rfl, rfl, congrFun still _⟩
      · refine .inr (.inl fun p path => ?_)
        rw [show (r.resume j (⟨t', phase'⟩, s')).system.fs.names = r.system.fs.names from names]
        exact gone p path
      · exact .inr (.inr copies)
    · exact .inl ⟨oj, old, ready, rfl, rfl, rfl, apart j oj other old temporary⟩

/-- The last call of an object has failed. -/
def failed : Option TransactionObject → Bool
  | some ⟨_, .idle (.error _)⟩ => true
  | _ => false

/-- A caller stops where a call has failed. -/
def Obeys (r : Registry ι) : Action ι → Prop
  | .write i _ => failed (r.objects i) = false
  | .commit i => failed (r.objects i) = false
  | _ => True

instance (r : Registry ι) : ∀ action, Decidable (Obeys r action)
  | .write i _ => inferInstanceAs (Decidable (failed (r.objects i) = false))
  | .commit i => inferInstanceAs (Decidable (failed (r.objects i) = false))
  | .construct _ => isTrue trivial
  | .open_ _ _ _ => isTrue trivial
  | .destroy _ => isTrue trivial
  | .advance _ => isTrue trivial
  | .discard_all_staged => isTrue trivial

omit [DecidableEq ι] in
theorem guards_nothing (guarded : Guarded env system r shelf) : Guards env r r shelf shelf :=
  guards_left rfl fun i o there => ⟨guarded.fresh i o there, .inr ⟨o, there, carries_refl o _⟩⟩

/-- A call, which does nothing while a method is under way. -/
theorem guards_call (guarded : Guarded env system r shelf) {method : OutputTransaction → System → TransactionObject × System}
    (idle : ∀ t result, r.objects i = some ⟨t, .idle result⟩ →
      (method t r.system).2.fs.permissions = r.system.fs.permissions ∧
        Carries ⟨t, .idle result⟩ (shelf.texts i) (method t r.system).1 (shelf'.texts i) ∧
        Fresh (method t r.system).1 ∧ ∀ j ≠ i, shelf'.texts j = shelf.texts j)
    (busy : (∀ t result, r.objects i ≠ some ⟨t, .idle result⟩) → shelf' = shelf) :
    Guards env r (r.call i method) shelf shelf' := by
  unfold Registry.call
  split
  · next t result here =>
    obtain ⟨modes, carries, fresh, others⟩ := idle t result here
    exact guards_put guarded here rfl modes carries fresh others
  · next other =>
    rw [busy fun t result here => other t result here]
    exact guards_nothing guarded

omit [DecidableEq ι] in
theorem obeys_opened {result : Except DeltaError Unit} (obeys : failed (r.objects i) = false)
    (here : r.objects i = some ⟨t, .idle result⟩) : Opened (.idle result) := by
  cases result with
  | ok _ => trivial
  | error e =>
    rw [here] at obeys
    cases obeys

theorem construct_guards (guarded : Guarded env system r shelf) : Guards env r (r.put i (some {})) shelf shelf := by
  refine guards_left rfl ?_
  intro j oj there
  rcases put_cases there with ⟨rfl, new⟩ | ⟨_, old⟩
  · obtain rfl := Option.some.inj new
    exact ⟨fun impossible => impossible.elim, .inl rfl⟩
  · exact ⟨guarded.fresh j oj old, .inr ⟨oj, old, carries_refl oj _⟩⟩

/-- `open` begins the text of a new transaction, and is refused by any other. -/
theorem open_guards {destination : Path} {inputs : List Path} (fits : ∀ i o, r.objects i = some o → Fits o)
    (guarded : Guarded env system r shelf) :
    Guards env r (r.step env (.open_ i destination inputs)) shelf
      ((events env r (.open_ i destination inputs)).foldl Shelf.apply shelf) := by
  have done : ∀ {P : Prop}, False → P := fun impossible => impossible.elim
  apply guards_call guarded
  · intro t result here
    unfold TransactionObject.part OutputTransaction.accept
    by_cases unaimed : t.destination_.empty = true
    · have aimed : OutputTransaction.aim destination inputs (t, r.system) =
          .ok () ({ t with destination_ := destination, inputs_ := inputs }, r.system) := if_pos unaimed
      have nothing : t.temporary_ = none := (fits i _ here).blank unaimed
      have begun : events env r (.open_ i destination inputs) = [.begun i] := by simp [events, here, unaimed]
      have others : ∀ j ≠ i, (Shelf.apply shelf (.begun i)).texts j = shelf.texts j := by
        intro j other
        simp [Shelf.apply, other]
      rw [bind_ok aimed, begun]
      by_cases named : destination.filename = ""
      · simp only [if_pos named]
        exact ⟨rfl, carries_nothing nothing, done, others⟩
      · simp only [if_neg named]
        exact ⟨rfl, carries_nothing nothing, done, others⟩
    · have refused : OutputTransaction.aim destination inputs (t, r.system) =
          .error ⟨.invalid_argument, "Output transaction already opened"⟩ (t, r.system) := if_neg unaimed
      have nothing : events env r (.open_ i destination inputs) = [] := by simp [events, here, unaimed]
      rw [bind_error refused, nothing]
      refine ⟨rfl, fun ready _ => ?_, done, fun _ _ => rfl⟩
      exact ⟨.inr (ready.resolve_left id), rfl, rfl, rfl⟩
  · intro busy
    have nothing : events env r (.open_ i destination inputs) = [] := by
      simp only [events]
    rw [nothing]
    rfl

/-- The next part of a method. -/
theorem advance_guards (kept : Kept env system r shelf) (guarded : Guarded env system r shelf)
    (here : r.objects i = some ⟨t, phase⟩) : Guards env r (r.advance env i) shelf shelf := by
  have done : ∀ {P : Prop}, False → P := fun impossible => impossible.elim
  have fits := kept.sound.owned.fits
  have fresh := guarded.fresh i _ here
  unfold Registry.advance
  rw [here]
  cases phase with
  | tracking k =>
    simp only [Registry.claim]
    split
    · exact guards_spares guarded here rfl (spares_aiming rfl done (fun _ => trivial) fresh)
    · exact guards_spares guarded here rfl (spares_aiming rfl done (fun _ => trivial) fresh)
    · exact guards_spares guarded here rfl (spares_aiming rfl done (fun _ => trivial) fresh)
  | replacing p =>
    simp only [Registry.replace, OutputTransaction.replace]
    rcases Discarding.rename_runs env p t.destination_ r.system with ⟨message, clock, run⟩ | ⟨node, clock, present, run⟩
    · simp only [run]
      exact guards_spares guarded here rfl (spares_aiming rfl done done fresh)
    · simp only [run]
      refine guards_spares guarded here rfl ⟨?_, fun _ _ => ⟨.inl trivial, rfl, rfl, rfl⟩, done⟩
      exact rename_modes _ _ _
  | releasing => exact guards_spares guarded here rfl ⟨rfl, fun _ _ => ⟨.inl trivial, rfl, rfl, rfl⟩, done⟩
  | forgetting =>
    refine guards_left rfl ?_
    intro j oj there
    rcases put_cases there with ⟨_, gone⟩ | ⟨_, old⟩
    · cases gone
    · exact ⟨guarded.fresh j oj old, .inr ⟨oj, old, carries_refl oj _⟩⟩
  | copying =>
    have held := kept.held i _ here
    obtain ⟨p, staged⟩ : ∃ p, t.temporary_ = some p := by
      apply Option.ne_none_iff_exists'.mp
      intro nothing
      cases (held.unstaged nothing).symm.trans (fresh trivial)
    exact guards_copying kept guarded here (fun nothing => by cases staged.symm.trans nothing)
      (copying_copies staged (held.drafted p staged).leads)
  | _ =>
    exact guards_spares guarded here rfl (proceed_spares (by simp) (fits i _ here) (kept.held i _ here).fresh fresh)

theorem step_guards (kept : Kept env system r shelf) (obeys : Obeys r action) (guarded : Guarded env system r shelf) :
    Guards env r (r.step env action) shelf ((events env r action).foldl Shelf.apply shelf) := by
  have done : ∀ {P : Prop}, False → P := fun impossible => impossible.elim
  cases action with
  | construct i =>
    simp only [Registry.step]
    split
    · exact guards_nothing guarded
    · exact construct_guards guarded
  | open_ i destination inputs => exact open_guards kept.sound.owned.fits guarded
  | write i chunk =>
    apply guards_call guarded
    · intro t result here
      have added : events env r (.write i chunk) = [.added i chunk] := by simp [events, here]
      rw [added]
      refine ⟨rfl, fun _ _ => ⟨.inl (obeys_opened obeys here), rfl, rfl, rfl⟩, done, ?_⟩
      intro j other
      simp [Shelf.apply, other]
    · intro busy
      have nothing : events env r (.write i chunk) = [] := by
        simp only [events]
      rw [nothing]
      rfl
  | commit i =>
    simp only [Registry.step]
    apply guards_call guarded
    · intro t result here
      cases staged : t.temporary_ with
      | none => exact ⟨rfl, carries_nothing staged, done, fun _ _ => rfl⟩
      | some p =>
        exact ⟨rfl, fun _ _ => ⟨.inl (obeys_opened obeys here), rfl, rfl, rfl⟩, done, fun _ _ => rfl⟩
    · exact fun _ => rfl
  | destroy i =>
    apply guards_call guarded
    · intro t result here
      obtain ⟨closed, file, s', run, modes⟩ := close_file_runs t r.system
      simp only [TransactionObject.part, run]
      refine ⟨modes, fun ready _ => ?_, done, fun _ _ => rfl⟩
      exact ⟨.inr (ready.resolve_left id), rfl, rfl, rfl⟩
    · exact fun _ => rfl
  | discard_all_staged =>
    exact guards_left (discarded_modes env r)
      fun j oj there => ⟨guarded.fresh j oj there, .inr ⟨oj, there, carries_refl oj _⟩⟩
  | advance i =>
    cases here : r.objects i with
    | none =>
      have nothing : events env r (.advance i) = [] := by simp [events, here]
      simp only [Registry.step, Registry.advance, here, nothing]
      exact guards_nothing guarded
    | some o =>
      obtain ⟨t, phase⟩ := o
      have texts : ((events env r (.advance i)).foldl Shelf.apply shelf).texts = shelf.texts := by
        simp only [events, here]
        split
        · split
          · rfl
          · rfl
        · rfl
      exact guards_texts texts (advance_guards kept guarded here)

omit [DecidableEq ι] in
theorem start_guarded (env : Environment) (system : System) : Guarded env system ({ system } : Registry ι) {} := by
  refine ⟨?_, ?_, fun n _ => .inl ⟨rfl, fun _ _ => rfl⟩⟩
  · intro i o here
    cases here
  · intro i o here
    cases here

/-- In every state of a run the callers stop where a call has failed. -/
def Careful (env : Environment) : Registry ι → List (Action ι) → Prop
  | _, [] => True
  | r, action :: rest => Obeys r action ∧ Careful env (r.step env action) rest

instance (env : Environment) : ∀ (r : Registry ι) (actions : List (Action ι)), Decidable (Careful env r actions)
  | _, [] => isTrue trivial
  | r, action :: rest =>
    have : Decidable (Careful env (r.step env action) rest) := instDecidableCareful env _ rest
    inferInstanceAs (Decidable (_ ∧ _))

theorem run_guarded (ours : ∀ p, staged_name (env.locate p) = true → Ours env p) :
    ∀ {actions : List (Action ι)} {r : Registry ι} {shelf : Shelf ι Name UInt8}, Kept env system r shelf →
      Guarded env system r shelf → (∀ action ∈ actions, Allowed env action) → Careful env r actions →
      Guarded env system ((publishing env).run r actions) (((publishing env).history r actions).foldl Shelf.apply shelf) := by
  intro actions
  induction actions with
  | nil => exact fun _ guarded _ _ => guarded
  | cons action rest ih =>
    intro r shelf kept guarded apart careful
    obtain ⟨obeys, careful⟩ := careful
    have allowed := apart action List.mem_cons_self
    rw [Refinement.Machine.history, List.foldl_append]
    refine ih (publishing_refines ours system r shelf action kept allowed) ?_
      (fun a member => apart a (List.mem_cons_of_mem _ member)) careful
    exact guarded_guards kept (step_effect ours kept allowed) (step_guards kept obeys guarded) guarded

/-- Over any interleaving of transactions and signals whose callers stop where a call
    has failed, a name that led to a file always leads to one with the same permissions;
    and so has every name of a file that is to replace it, from before the first byte. -/
theorem outputs_keep_their_permissions (env : Environment) (system : System) (actions : List (Action ι))
    (ours : ∀ p, staged_name (env.locate p) = true → Ours env p) (apart : ∀ action ∈ actions, Allowed env action)
    (careful : Careful env { system } actions) :
    let r := Registry.run env system actions
    (∀ n mode, Leads system.fs n mode → Leads r.system.fs n mode) ∧
    ∀ i o p, r.objects i = some o → o.transaction.temporary_ = some p →
      Shelf.composed i ((publishing env).history { system } actions) ≠ [] →
      r.system.fs.names (env.locate p) = some (.file o.transaction.inode_) →
      ∀ mode, Leads system.fs (env.locate o.transaction.destination_) mode →
        r.system.fs.permissions o.transaction.inode_ = mode := by
  intro r
  have guarded := run_guarded ours (start_kept env system) (start_guarded env system) apart careful
  refine ⟨fun n mode leads => leads_stands guarded.stands leads, ?_⟩
  intro i o p here staged given stands mode leads
  refine guarded.staged i o here (.inr ?_) p staged (fun gone => by cases stands.symm.trans gone) mode leads
  rwa [← Shelf.texts_after] at given

/-- A private file. -/
def secret : System := { fs := { FileSystem.holding [((0, "out"), [9])] with permissions := fun k => if k = 0 then 384 else 420 } }

/-- Two transactions race for a private file: what they have staged when they have been
    given their first bytes is private, and so is what is there in the end. -/
theorem racing_stays_private : Leads (Registry.run {} secret racing).system.fs (0, "out") 384 ∧
    (Registry.run {} secret (racing.take 20)).system.fs.permissions 1 = 384 := by
  have careful : Careful {} { system := secret } racing := by decide +kernel
  have begun : Careful {} { system := secret } (racing.take 20) := by decide +kernel
  have first : Leads secret.fs (0, "out") (secret.fs.permissions 0) := .file (by decide) (by decide)
  refine ⟨(outputs_keep_their_permissions {} secret racing nobody_writes racing_allowed careful).1 (0, "out") 384 first, ?_⟩
  have staged : ((Registry.run {} secret (racing.take 20)).objects false).map (fun o =>
      (o.transaction.temporary_, o.transaction.inode_, o.transaction.destination_)) =
        some (some ⟨"", ".rolling_hash-0-1-0"⟩, 1, ⟨"", "out"⟩) := by decide +kernel
  obtain ⟨o, here, fields⟩ := Option.map_eq_some_iff.mp staged
  obtain ⟨temporary, inode, destination⟩ : _ ∧ _ ∧ _ := by simpa using fields
  have kept := (outputs_keep_their_permissions {} secret (racing.take 20) nobody_writes
    (fun action member => racing_allowed action (List.mem_of_mem_take member)) begun).2 false o _ here temporary
    (by decide +kernel) (by rw [inode]; decide +kernel) 384 (by rw [destination]; exact first)
  rwa [inode] at kept

end

end Roll.Guarding
