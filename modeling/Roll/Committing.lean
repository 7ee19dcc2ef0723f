import Roll.Calm
import Roll.OutputTransaction
import Roll.Parsing

/-!
A transaction where no system call fails: a usable destination is staged, and
after the commit it holds the bytes that were written.
-/
namespace Roll.Committing
open Roll.Calm Roll.Cursor Roll.Parsing

variable {env : Environment}

/-! ### Names -/

/-- The file at the end of the links is used. -/
theorem follow_used (fs : FileSystem) : ∀ (fuel : Nat) (name : Name) {i : Nat},
    fs.follow fuel name = .at (.file i) → i < fs.next := by
  intro fuel
  induction fuel with
  | zero =>
    intro name i found
    cases found
  | succ fuel ih =>
    intro name i found
    unfold FileSystem.follow at found
    split at found
    · cases found
    · exact ih _ found
    · next node _ named =>
      obtain rfl : node = .file i := by simpa using found
      exact fs.used name i named

/-- A new file at a free name changes what leads to that name, and nothing else. -/
theorem follow_create (fs : FileSystem) {name : Name} (free : fs.names name = none) : ∀ (fuel : Nat) (n : Name),
    (fs.create name).follow fuel n = fs.follow fuel n ∨
      fs.follow fuel n = .missing ∧ (fs.create name).follow fuel n = .at (.file fs.next) := by
  intro fuel
  induction fuel with
  | zero =>
    intro n
    exact .inl rfl
  | succ fuel ih =>
    intro n
    unfold FileSystem.follow
    by_cases here : n = name
    · subst here
      have created : (fs.create n).names n = some (.file fs.next) := if_pos rfl
      rw [created, free]
      exact .inr ⟨rfl, rfl⟩
    · have kept : (fs.create name).names n = fs.names n := if_neg here
      rw [kept]
      cases fs.names n with
      | none => exact .inl rfl
      | some node =>
        cases node with
        | link target => exact ih target
        | file i => exact .inl rfl
        | directory => exact .inl rfl
        | other => exact .inl rfl

theorem lookup_create (fs : FileSystem) {name : Name} (free : fs.names name = none) (n : Name) :
    (fs.create name).lookup n = fs.lookup n ∨
      fs.lookup n = .missing ∧ (fs.create name).lookup n = .at (.file fs.next) :=
  follow_create fs free _ n

theorem follow_names {fs fs' : FileSystem} (same : fs'.names = fs.names) : ∀ (fuel : Nat) (n : Name),
    fs'.follow fuel n = fs.follow fuel n := by
  intro fuel
  induction fuel with
  | zero =>
    intro n
    rfl
  | succ fuel ih =>
    intro n
    unfold FileSystem.follow
    rw [same]
    cases fs.names n with
    | none => rfl
    | some node =>
      cases node with
      | link target => exact ih target
      | file i => rfl
      | directory => rfl
      | other => rfl

theorem lookup_names {fs fs' : FileSystem} (same : fs'.names = fs.names) (n : Name) : fs'.lookup n = fs.lookup n :=
  follow_names same _ n

/-! ### The destination -/

/-- The destination is absent, or a file other than those of the inputs. -/
def Replaceable (env : Environment) (fs : FileSystem) (destination : Path) (inputs : List Path) : Prop :=
  fs.lookup (env.locate destination) = .missing ∨
    ∃ i, fs.lookup (env.locate destination) = .at (.file i) ∧
      ∀ input ∈ inputs, ∃ node, fs.lookup (env.locate input) = .at node ∧ node ≠ .file i

theorem replaceable_names {fs fs' : FileSystem} (same : fs'.names = fs.names) {destination : Path} {inputs : List Path}
    (replaceable : Replaceable env fs destination inputs) : Replaceable env fs' destination inputs := by
  simpa only [Replaceable, lookup_names same] using replaceable

/-- An input that is there. -/
def Present (env : Environment) (fs : FileSystem) (input : Path) : Prop := ∃ node, fs.lookup (env.locate input) = .at node

theorem replaceable_create {fs : FileSystem} {name : Name} (free : fs.names name = none) {destination : Path}
    {inputs : List Path} (present : ∀ input ∈ inputs, Present env fs input)
    (replaceable : Replaceable env fs destination inputs) : Replaceable env (fs.create name) destination inputs := by
  have kept : ∀ {n : Name} {node : Node}, fs.lookup n = .at node → (fs.create name).lookup n = .at node := by
    intro n node found
    rcases lookup_create fs free n with same | ⟨missing, _⟩
    · rw [same, found]
    · rw [found] at missing
      cases missing
  rcases replaceable with missing | ⟨i, found, apart⟩
  · rcases lookup_create fs free (env.locate destination) with same | ⟨_, new⟩
    · exact .inl (same.trans missing)
    · refine .inr ⟨fs.next, new, ?_⟩
      intro input member
      obtain ⟨node, there⟩ := present input member
      refine ⟨node, kept there, ?_⟩
      rintro rfl
      exact absurd (follow_used fs _ _ there) (Nat.lt_irrefl _)
  · refine .inr ⟨i, kept found, ?_⟩
    intro input member
    obtain ⟨node, there, other⟩ := apart input member
    exact ⟨node, kept there, other⟩

theorem compareInputs_calm (quiet : env.Quiet) {destination : Path} {i : Nat} {t : OutputTransaction} :
    ∀ (inputs : List Path) (s : System), t.destination_ = destination →
      s.fs.lookup (env.locate destination) = .at (.file i) →
      (∀ input ∈ inputs, ∃ node, s.fs.lookup (env.locate input) = .at node ∧ node ≠ .file i) →
      ∃ clock, OutputTransaction.compareInputs env inputs (t, s) = .ok () (t, later s clock) := by
  intro inputs
  induction inputs with
  | nil =>
    intro s _ _ _
    exact ⟨s.clock, rfl⟩
  | cons input rest ih =>
    intro s aimed found apart
    obtain ⟨node, there, other⟩ := apart input (by simp)
    have compared : s.equivalent env t.destination_ input = (.ok false, later s (s.clock + 1)) := by
      have different : ¬ Node.file i = node := fun same => other same.symm
      rw [System.equivalent, call_quiet quiet, aimed]
      simp [found, there, different, later]
    obtain ⟨clock, run⟩ := ih (later s (s.clock + 1)) aimed found (fun input member => apart input (by simp [member]))
    refine ⟨clock, ?_⟩
    simp only [OutputTransaction.compareInputs, compared]
    exact run

theorem validate_calm (quiet : env.Quiet) {t : OutputTransaction} {s : System}
    (replaceable : Replaceable env s.fs t.destination_ t.inputs_) :
    ∃ clock, OutputTransaction.validateDestination env (t, s) = .ok () (t, later s clock) := by
  simp only [OutputTransaction.validateDestination, status_quiet quiet]
  rcases replaceable with missing | ⟨i, found, apart⟩
  · rw [missing]
    exact ⟨_, rfl⟩
  · rw [found]
    obtain ⟨clock, run⟩ := compareInputs_calm quiet (t := t) t.inputs_ (later s (s.clock + 1)) rfl found apart
    exact ⟨clock, run⟩

/-! ### Staging -/

/-- The `k`-th name that a transaction begun in `s` tries. -/
def attempt (env : Environment) (s : System) (destination : Path) (k : Nat) : Path :=
  OutputTransaction.candidate destination (env.random (s.draws + 2 * k)) (env.random (s.draws + 2 * k + 1)) (s.counter + k)

/-- The destination can be replaced, and one of the names to stage at is free. -/
structure Usable (env : Environment) (s : System) (destination : Path) (inputs : List Path) : Prop where
  named : destination.filename ≠ ""
  replaceable : Replaceable env s.fs destination inputs
  free : ∃ k < OutputTransaction.ATTEMPTS, s.fs.names (env.locate (attempt env s destination k)) = none ∧
    ∀ j < k, Present env s.fs (attempt env s destination j)

/-- The staged file of an open transaction. -/
structure Staged (env : Environment) (destination : Path) (inputs : List Path) (t : OutputTransaction) (s : System) :
    Prop where
  aimed : t.destination_ = destination
  against : t.inputs_ = inputs
  temporary : ∃ path, t.temporary_ = some path ∧ s.fs.names (env.locate path) = some (.file t.inode_)
  replaceable : Replaceable env s.fs destination inputs

/-- Nothing disturbs the files that are written. -/
def Still (env : Environment) : Prop := ∀ p, env.media p = {}

theorem candidate_calm {t : OutputTransaction} {s : System} :
    OutputTransaction.next_candidate env (t, s) = .ok (attempt env s t.destination_ 0)
      (t, { s with draws := s.draws + 2, counter := s.counter + 1 }) := by
  simp [OutputTransaction.next_candidate, System.draw, attempt]

theorem created_appends (still : Still env) (p : Path) : Appends [] (FileIo.created env p) := by
  refine ⟨rfl, rfl, rfl, rfl, ?_, rfl, rfl, rfl⟩
  simp [FileIo.created, still p]

theorem open_candidate_free (quiet : env.Quiet) {t : OutputTransaction} {s : System} {p : Path}
    (free : s.fs.names (env.locate p) = none) :
    ∃ clock, OutputTransaction.open_candidate env p (t, s) =
      .ok true ({ t with file_ := FileIo.created env p, temporary_ := some p, inode_ := s.fs.next },
        later (s.set (s.fs.create (env.locate p))) clock) := by
  have created : FileIo.create env p s = (some s.fs.next, later (s.set (s.fs.create (env.locate p))) (s.clock + 1)) := by
    rw [FileIo.create, call_quiet quiet]
    simp only [free]
    rfl
  simp only [OutputTransaction.open_candidate, FileIo.open_exclusive, created]
  cases env.noreplace with
  | true => exact ⟨_, rfl⟩
  | false =>
    simp only [Bool.false_eq_true, if_false, call_quiet quiet]
    exact ⟨_, rfl⟩

theorem open_candidate_taken (quiet : env.Quiet) {t : OutputTransaction} {s : System} {p : Path}
    (present : Present env s.fs p) :
    ∃ clock file, OutputTransaction.open_candidate env p (t, s) = .ok false ({ t with file_ := file }, later s clock) := by
  have named : (s.fs.names (env.locate p)).isSome = true := by
    obtain ⟨node, found⟩ := present
    unfold FileSystem.lookup FileSystem.LINK_MAX FileSystem.follow at found
    cases here : s.fs.names (env.locate p) with
    | none =>
      rw [here] at found
      cases found
    | some node => rfl
  have refused : FileIo.create env p s = (none, later s (s.clock + 1)) := by
    rw [FileIo.create, call_quiet quiet]
    simp only [named]
    rfl
  simp only [OutputTransaction.open_candidate, FileIo.open_exclusive, refused]
  exact ⟨_, _, rfl⟩

theorem track_calm (t : OutputTransaction) (s : System) :
    ∃ slot slots, OutputTransaction.track (t, s) = .ok () ({ t with slot_ := slot }, { s with staged_paths := slots }) := by
  simp only [OutputTransaction.track]
  split
  · exact ⟨_, _, rfl⟩
  · exact ⟨t.slot_, s.staged_paths, rfl⟩

/-- Copying the permissions changes nothing else. -/
theorem copyPermissions_calm (quiet : env.Quiet) {destination : Path} {inputs : List Path} {t : OutputTransaction}
    {s : System} (staged : Staged env destination inputs t s) :
    ∃ s', OutputTransaction.copyPermissions env (t, s) = .ok () (t, s') ∧ s'.fs.names = s.fs.names := by
  obtain ⟨aimed, _, ⟨path, temporary, named⟩, replaceable⟩ := staged
  simp only [OutputTransaction.copyPermissions, status_quiet quiet, aimed, temporary]
  rcases replaceable with missing | ⟨i, found, _⟩
  · rw [missing]
    exact ⟨_, rfl, rfl⟩
  · have leads : s.fs.lookup (env.locate path) = .at (.file t.inode_) := by
      unfold FileSystem.lookup FileSystem.LINK_MAX FileSystem.follow
      rw [named]
    rw [found]
    simp only [System.permissions, call_quiet quiet, leads]
    exact ⟨_, rfl, rfl⟩

theorem stage_calm (quiet : env.Quiet) (still : Still env) {destination : Path} {inputs : List Path} :
    ∀ (attempts : Nat) (k : Nat) (t : OutputTransaction) (s : System), k < attempts →
      t.destination_ = destination → t.inputs_ = inputs → Replaceable env s.fs destination inputs →
      (∀ input ∈ inputs, Present env s.fs input) → s.fs.names (env.locate (attempt env s destination k)) = none →
      (∀ j < k, Present env s.fs (attempt env s destination j)) →
      ∃ t' s', OutputTransaction.stage env attempts (t, s) = .ok () (t', s') ∧
        Staged env destination inputs t' s' ∧ Appends [] t'.file_ := by
  intro attempts
  induction attempts with
  | zero =>
    intro k t s inside
    omega
  | succ attempts ih =>
    intro k t s inside aimed against replaceable present free taken
    set s₁ : System := { s with draws := s.draws + 2, counter := s.counter + 1 } with s₁Is
    have first : OutputTransaction.next_candidate env (t, s) = .ok (attempt env s destination 0) (t, s₁) := by
      rw [candidate_calm, aimed]
    unfold OutputTransaction.stage
    rw [bind_ok first]
    cases k with
    | zero =>
      obtain ⟨clock, opened⟩ := open_candidate_free quiet (t := t) (s := s₁) free
      rw [bind_ok opened, if_pos rfl]
      set t₂ : OutputTransaction := { t with
        file_ := FileIo.created env (attempt env s destination 0)
        temporary_ := some (attempt env s destination 0)
        inode_ := s₁.fs.next }
      set s₂ := later (s₁.set (s₁.fs.create (env.locate (attempt env s destination 0)))) clock
      obtain ⟨slot, slots, tracked⟩ := track_calm t₂ s₂
      rw [bind_ok tracked]
      have staged : Staged env destination inputs { t₂ with slot_ := slot } { s₂ with staged_paths := slots } :=
        ⟨aimed, against, ⟨_, rfl, if_pos rfl⟩, replaceable_create free present replaceable⟩
      obtain ⟨s₃, copied, names⟩ := copyPermissions_calm quiet staged
      refine ⟨_, s₃, copied, ⟨aimed, against, ⟨_, rfl, ?_⟩, replaceable_names names staged.replaceable⟩,
        created_appends still _⟩
      rw [names]
      exact if_pos rfl
    | succ k =>
      have here : Present env s₁.fs (attempt env s destination 0) := taken 0 (Nat.succ_pos k)
      obtain ⟨clock, file, opened⟩ := open_candidate_taken quiet (t := t) here
      rw [bind_ok opened, if_neg Bool.false_ne_true]
      have exists_ : OutputTransaction.is_taken env (attempt env s destination 0) ({ t with file_ := file }, later s₁ clock) =
          .ok true ({ t with file_ := file }, later s₁ (clock + 1)) := by
        obtain ⟨node, found⟩ := here
        have found' : (later s₁ clock).fs.lookup (env.locate (attempt env s destination 0)) = .at node := found
        simp only [OutputTransaction.is_taken, System.exists_, status_quiet quiet, found']
        rfl
      rw [bind_ok exists_, if_pos rfl]
      have next : ∀ j, attempt env (later s₁ (clock + 1)) destination j = attempt env s destination (j + 1) := by
        intro j
        have draws : s.draws + 2 + 2 * j = s.draws + 2 * (j + 1) := by omega
        have counter : s.counter + 1 + j = s.counter + (j + 1) := by omega
        simp only [attempt, later, s₁Is, draws, counter]
      refine ih k _ _ (by omega) aimed against replaceable present ?_ ?_
      · rw [next]
        exact free
      · intro j below
        rw [next]
        exact taken (j + 1) (by omega)

theorem open_calm (quiet : env.Quiet) (still : Still env) {s : System} {destination : Path} {inputs : List Path}
    (usable : Usable env s destination inputs) (present : ∀ input ∈ inputs, Present env s.fs input) :
    ∃ t' s', OutputTransaction.open_ env destination inputs ({}, s) = .ok () (t', s') ∧
      Staged env destination inputs t' s' ∧ Appends [] t'.file_ := by
  obtain ⟨named, replaceable, k, inside, free, taken⟩ := usable
  have aimed : OutputTransaction.aim destination inputs ({}, s) =
      .ok () ({ destination_ := destination, inputs_ := inputs }, s) := rfl
  obtain ⟨clock, valid⟩ := validate_calm quiet (t := { destination_ := destination, inputs_ := inputs }) replaceable
  unfold OutputTransaction.open_
  rw [bind_ok aimed, if_neg named, bind_ok valid]
  exact stage_calm quiet still _ k _ _ inside rfl rfl replaceable present free taken

/-! ### The commit -/

theorem lookup_file {fs : FileSystem} {n : Name} {i : Nat} (named : fs.names n = some (.file i)) :
    fs.lookup n = .at (.file i) := by
  unfold FileSystem.lookup FileSystem.LINK_MAX FileSystem.follow
  rw [named]

theorem sync_calm (quiet : env.Quiet) (t : OutputTransaction) (s : System) :
    ∃ clock, OutputTransaction.sync_file env (t, s) = .ok true (t, later s clock) := by
  simp only [OutputTransaction.sync_file, call_quiet quiet]
  exact ⟨_, rfl⟩

theorem flush_calm (quiet : env.Quiet) {content : List UInt8} {t : OutputTransaction} (appends : Appends content t.file_)
    (s : System) :
    ∃ file clock, OutputTransaction.flush env (t, s) =
        .ok () ({ t with file_ := file }, later (s.set (s.fs.store t.inode_ (.bytes content))) clock) ∧
      file.f_.opened = false := by
  obtain ⟨closed, data, quietFile⟩ := close_appends appends
  have shut : t.file_.close.2.f_.opened = false := by
    have opened := appends.opened
    simp [FileIo.close, FileIo.discard_read_buffer, opened, FStream.close]
  have close : OutputTransaction.close_file (t, s) = .ok true ({ t with file_ := t.file_.close.2 },
      s.set (s.fs.store t.inode_ (.bytes content))) := by
    have pair : t.file_.close = (true, t.file_.close.2) := by rw [← closed]
    simp only [OutputTransaction.close_file]
    rw [pair]
    simp only [FileIo.is_open, appends.opened, Bool.and_self, if_true, data]
  obtain ⟨clock, synced⟩ := sync_calm quiet { t with file_ := t.file_.close.2 }
    (s.set (s.fs.store t.inode_ (.bytes content)))
  refine ⟨t.file_.close.2, clock, ?_, shut⟩
  unfold OutputTransaction.flush
  rw [bind_ok close]
  have got : (get : OutputM _) ({ t with file_ := t.file_.close.2 }, s.set (s.fs.store t.inode_ (.bytes content))) =
      .ok ({ t with file_ := t.file_.close.2 }, s.set (s.fs.store t.inode_ (.bytes content)))
        ({ t with file_ := t.file_.close.2 }, s.set (s.fs.store t.inode_ (.bytes content))) := rfl
  rw [bind_ok got]
  simp only [Bool.not_true, FileIo.has_error, quietFile, Bool.or_self, Bool.false_eq_true, if_false]
  rw [bind_ok synced]
  rfl

/-- What a commit leaves: nothing is staged, and the destination holds the
    bytes. -/
theorem commit_calm (quiet : env.Quiet) {content : List UInt8} {destination : Path} {inputs : List Path}
    {t : OutputTransaction} {s : System} (staged : Staged env destination inputs t s)
    (appends : Appends content t.file_) :
    ∃ t' s', OutputTransaction.commit env (t, s) = .ok () (t', s') ∧ s'.Holds env destination content ∧
      t'.temporary_ = none ∧ t'.file_.f_.opened = false := by
  obtain ⟨aimed, against, ⟨path, temporary, named⟩, replaceable⟩ := staged
  obtain ⟨file, clock, flushed, shut⟩ := flush_calm quiet appends s
  set t₁ : OutputTransaction := { t with file_ := file } with t₁Is
  set s₁ := later (s.set (s.fs.store t.inode_ (.bytes content))) clock with s₁Is
  obtain ⟨clock₂, valid⟩ := validate_calm quiet (t := t₁) (s := s₁)
    (by rw [t₁Is, aimed, against]; exact replaceable_names rfl replaceable)
  have notDirectory : s₁.fs.names (env.locate destination) ≠ some .directory := by
    intro directory
    have leads : s.fs.lookup (env.locate destination) = .at .directory := by
      have names : s.fs.names (env.locate destination) = some .directory := directory
      unfold FileSystem.lookup FileSystem.LINK_MAX FileSystem.follow
      rw [names]
    rcases replaceable with missing | ⟨i, found, _⟩
    · rw [leads] at missing
      cases missing
    · rw [leads] at found
      cases found
  have named₁ : s₁.fs.names (env.locate path) = some (.file t.inode_) := named
  have data₁ : s₁.fs.data t.inode_ = .bytes content := if_pos rfl
  set fs₂ := s₁.fs.rename (env.locate path) (env.locate destination) with fs₂Is
  have renamed : (later s₁ clock₂).rename env path destination = (none, (later (s₁.set fs₂) (clock₂ + 1))) := by
    have names : (later s₁ clock₂).fs.names (env.locate path) = some (.file t.inode_) := named
    have other : (later s₁ clock₂).fs.names (env.locate destination) ≠ some .directory := notDirectory
    rw [System.rename, call_quiet quiet]
    simp only [names]
    rfl
  have replaced : OutputTransaction.replace env path (t₁, later s₁ clock₂) =
      .ok () (t₁, later (s₁.set fs₂) (clock₂ + 1)) := by
    have aimed₁ : t₁.destination_ = destination := aimed
    simp only [OutputTransaction.replace, aimed₁, renamed]
  have holds : fs₂.lookup (env.locate destination) = .at (.file t.inode_) ∧ fs₂.data t.inode_ = .bytes content := by
    by_cases same : s₁.fs.names (env.locate path) = s₁.fs.names (env.locate destination)
    · rw [fs₂Is, FileSystem.rename, if_pos same]
      exact ⟨lookup_file (same ▸ named₁), data₁⟩
    · rw [fs₂Is, FileSystem.rename, if_neg same]
      exact ⟨lookup_file ((if_pos rfl).trans named₁), data₁⟩
  obtain ⟨slot, slots, untracked⟩ : ∃ slot slots, OutputTransaction.untrack (t₁, later (s₁.set fs₂) (clock₂ + 1)) =
      .ok () ({ t₁ with slot_ := slot }, { later (s₁.set fs₂) (clock₂ + 1) with staged_paths := slots }) := by
    simp only [OutputTransaction.untrack]
    cases t₁.slot_ with
    | none => exact ⟨t₁.slot_, _, rfl⟩
    | some i => exact ⟨_, _, rfl⟩
  refine ⟨{ t₁ with slot_ := slot, temporary_ := none },
    ({ later (s₁.set fs₂) (clock₂ + 1) with staged_paths := slots }.call env).2, ?_, ?_, rfl, shut⟩
  · unfold OutputTransaction.commit
    have got : (get : OutputM _) (t, s) = .ok (t, s) (t, s) := rfl
    rw [bind_ok got]
    simp only [temporary]
    rw [bind_ok flushed, bind_ok valid, bind_ok replaced, bind_ok untracked]
    rfl
  · exact ⟨t.inode_, holds⟩

/-- The destructor of a committed transaction leaves the files alone. -/
theorem destroy_committed (env : Environment) {t : OutputTransaction} {s : System} (empty : t.temporary_ = none)
    (shut : t.file_.f_.opened = false) : (t.destroy env s).fs = s.fs ∧ (t.destroy env s).moments = s.moments := by
  have closed : OutputTransaction.close_file (t, s) = .ok true ({ t with file_ := t.file_.close.2 }, s) := by
    have already : t.file_.close = (true, t.file_.discard_read_buffer) := by
      simp [FileIo.close, FileIo.discard_read_buffer, shut]
    simp [OutputTransaction.close_file, already, FileIo.is_open, shut]
  unfold OutputTransaction.destroy
  simp only [EStateM.run, closed, empty]
  cases t.slot_ with
  | none => exact ⟨rfl, rfl⟩
  | some i => exact ⟨rfl, rfl⟩

theorem destroy_holds (env : Environment) {t : OutputTransaction} {s : System} (empty : t.temporary_ = none)
    (shut : t.file_.f_.opened = false) {p : Path} {content : List UInt8} (holds : s.Holds env p content) :
    (t.destroy env s).Holds env p content := by
  obtain ⟨inode, leads, data⟩ := holds
  have kept := (destroy_committed env (s := s) empty shut).1
  exact ⟨inode, by rw [kept]; exact leads, by rw [kept]; exact data⟩

end Roll.Committing
