import Roll.Committing
import Roll.Outcome

/-!
A transaction where any system call may fail: until its commit it only adds
files beside those that were there.
-/
namespace Roll

/-- What a path leads to and, when that is a file, what it holds. -/
def FileSystem.held (fs : FileSystem) (n : Name) : FileSystem.Found × Option FileData :=
  (fs.lookup n, match fs.lookup n with
    | .at (.file i) => some (fs.data i)
    | _ => none)

namespace Staging
open Roll.Parsing Roll.Outcome Roll.Cursor Roll.Calm Roll.Committing

variable {env : Environment} {C : Name → Prop} {fs₀ fs : FileSystem}

/-! ### Files beside files -/

/-- Of what was there, every name and every file is as it was, and new names are
    among `C`. -/
structure Beside (C : Name → Prop) (fs₀ fs : FileSystem) : Prop where
  names : ∀ n, fs₀.names n ≠ none → fs.names n = fs₀.names n
  added : ∀ n, fs₀.names n = none → fs.names n ≠ none → C n
  data : ∀ i < fs₀.next, fs.data i = fs₀.data i
  next : fs₀.next ≤ fs.next

theorem beside_refl (C : Name → Prop) (fs : FileSystem) : Beside C fs fs :=
  ⟨fun _ _ => rfl, fun _ none some => absurd none some, fun _ _ => rfl, Nat.le_refl _⟩

theorem beside_create (beside : Beside C fs₀ fs) {n : Name} (free : fs.names n = none) (listed : C n) :
    Beside C fs₀ (fs.create n) := by
  obtain ⟨names, added, data, next⟩ := beside
  refine ⟨?_, ?_, ?_, Nat.le_succ_of_le next⟩
  · intro m some
    have other : m ≠ n := by
      rintro rfl
      exact some ((names m some).symm.trans free)
    exact (if_neg other).trans (names m some)
  · intro m none some
    by_cases here : m = n
    · exact here ▸ listed
    · have kept : (fs.create n).names m = fs.names m := if_neg here
      exact added m none (by rwa [kept] at some)
  · intro i old
    have other : i ≠ fs.next := by omega
    exact (if_neg other).trans (data i old)

theorem beside_store (beside : Beside C fs₀ fs) {i : Nat} (new : fs₀.next ≤ i) (content : FileData) :
    Beside C fs₀ (fs.store i content) := by
  refine ⟨beside.names, beside.added, ?_, beside.next⟩
  intro j old
  have other : j ≠ i := by omega
  exact (if_neg other).trans (beside.data j old)

theorem beside_chmod (beside : Beside C fs₀ fs) (i mode : Nat) : Beside C fs₀ (fs.chmod i mode) :=
  ⟨beside.names, beside.added, beside.data, beside.next⟩

theorem beside_remove (beside : Beside C fs₀ fs) {n : Name} (new : fs₀.names n = none) : Beside C fs₀ (fs.remove n) := by
  refine ⟨?_, ?_, beside.data, beside.next⟩
  · intro m some
    have other : m ≠ n := by
      rintro rfl
      exact some new
    exact (if_neg other).trans (beside.names m some)
  · intro m none some
    refine beside.added m none (fun gone => some ?_)
    by_cases here : m = n
    · exact if_pos here
    · exact (if_neg here).trans gone

/-! ### What is held -/

/-- The name at which a chain of links breaks off. -/
def breaksAt (fs : FileSystem) : Nat → Name → Option Name
  | 0, _ => none
  | fuel + 1, n =>
    match fs.names n with
    | none => some n
    | some (.link target) => breaksAt fs fuel target
    | some _ => none

/-- The name does not lead to one of `C` that is missing. -/
def Avoids (C : Name → Prop) (fs₀ : FileSystem) (n : Name) : Prop :=
  ∀ m, breaksAt fs₀ FileSystem.LINK_MAX n = some m → ¬ C m

theorem follow_beside (beside : Beside C fs₀ fs) : ∀ (fuel : Nat) (n : Name),
    (∀ m, breaksAt fs₀ fuel n = some m → ¬ C m) → fs.follow fuel n = fs₀.follow fuel n := by
  intro fuel
  induction fuel with
  | zero =>
    intro n _
    rfl
  | succ fuel ih =>
    intro n avoids
    unfold breaksAt at avoids
    unfold FileSystem.follow
    cases here : fs₀.names n with
    | none =>
      rw [here] at avoids
      have still : fs.names n = none := by
        by_contra some
        exact avoids n rfl (beside.added n here some)
      rw [still]
    | some node =>
      have kept := beside.names n (by rw [here]; exact Option.some_ne_none _)
      rw [here] at kept avoids
      rw [kept]
      cases node with
      | link target => exact ih target avoids
      | file i => rfl
      | directory => rfl
      | other => rfl

/-- New files beside the others do not show at a name that avoids them. -/
theorem held_beside (beside : Beside C fs₀ fs) {n : Name} (avoids : Avoids C fs₀ n) : fs.held n = fs₀.held n := by
  have same : fs.lookup n = fs₀.lookup n := follow_beside beside _ n avoids
  unfold FileSystem.held
  rw [same]
  cases found : fs₀.lookup n with
  | missing => rfl
  | looping => rfl
  | «at» node =>
    cases node with
    | file i =>
      simp only
      rw [beside.data i (follow_used fs₀ _ _ found)]
    | link target => rfl
    | directory => rfl
    | other => rfl

/-! ### The transaction -/

variable {m₀ : List FileSystem} {destination : Path}

/-- The files of an open transaction: those there were and, beside them, the
    staged one. -/
structure Kept (env : Environment) (C : Name → Prop) (fs₀ : FileSystem) (m₀ : List FileSystem) (destination : Path)
    (q : OutputTransaction × System) : Prop where
  beside : Beside C fs₀ q.2.fs
  moments : ∃ new, q.2.moments = m₀ ++ new ∧ ∀ fs ∈ new, Beside C fs₀ fs
  alone : Alone q.1.file_.f_
  idle : q.1.temporary_ = none → q.1.file_.f_.opened = false
  staged : ∀ p, q.1.temporary_ = some p → q.1.destination_ = destination ∧ C (env.locate p) ∧
    fs₀.names (env.locate p) = none ∧ q.2.fs.names (env.locate p) = some (.file q.1.inode_) ∧ fs₀.next ≤ q.1.inode_

variable {t : OutputTransaction} {s s' : System}

/-- A step that changes no file. -/
theorem kept_untouched (kept : Kept env C fs₀ m₀ destination (t, s)) (untouched : Untouched s s') :
    Kept env C fs₀ m₀ destination (t, s') := by
  obtain ⟨beside, moments, alone, idle, staged⟩ := kept
  obtain ⟨clock, rfl⟩ := untouched
  exact ⟨beside, moments, alone, idle, staged⟩

/-- A step to other files, beside which the staged one stays. -/
theorem kept_set (kept : Kept env C fs₀ m₀ destination (t, s)) {fs : FileSystem} (beside : Beside C fs₀ fs)
    (same : fs.names = s.fs.names) : Kept env C fs₀ m₀ destination (t, s.set fs) := by
  obtain ⟨_, ⟨new, split, all⟩, alone, idle, staged⟩ := kept
  refine ⟨beside, ⟨new ++ [fs], ?_, ?_⟩, alone, idle, ?_⟩
  · show s.moments ++ [fs] = _
    rw [show s.moments = m₀ ++ new from split, List.append_assoc]
  · intro fs' member
    rcases List.mem_append.mp member with before | last
    · exact all fs' before
    · obtain rfl : fs' = fs := by simpa using last
      exact beside
  · intro p temporary
    obtain ⟨aimed, listed, absent, here, fresh⟩ := staged p temporary
    exact ⟨aimed, listed, absent, (congrFun same _).trans here, fresh⟩

/-- A step that leaves the files and the transaction alone, however it ends. -/
def Idle {α : Type} (m : OutputM α) : Prop := ∀ t s, Leaves m (t, s) (fun _ q => q.1 = t ∧ Untouched s q.2)
  (fun q => q.1 = t ∧ Untouched s q.2)

/-- Such a step frames all but the time. -/
theorem Idle.frames {α ρ : Type} {m : OutputM α} (idle : Idle m) {π : OutputTransaction × System → ρ}
    (timeless : ∀ t s clock, π (t, later s clock) = π (t, s)) : Frames π m := by
  rintro ⟨t, s⟩
  have left := idle t s
  cases run : m (t, s) with
  | ok a q =>
    obtain ⟨t', s'⟩ := q
    obtain ⟨rfl, clock, rfl⟩ := left.of_ok run
    exact timeless t' s clock
  | error e q =>
    obtain ⟨t', s'⟩ := q
    obtain ⟨rfl, clock, rfl⟩ := left.of_error run
    exact timeless t' s clock

theorem equivalent_untouched (env : Environment) (p q : Path) (s : System) : Untouched s (s.equivalent env p q).2 := by
  have called := call_untouched env s
  unfold System.equivalent
  generalize s.call env = r at called ⊢
  obtain ⟨failed, s₁⟩ := r
  cases failed with
  | some message => exact called
  | none =>
    dsimp only
    split <;> exact called

theorem compareInputs_idle (env : Environment) : ∀ inputs, Idle (OutputTransaction.compareInputs env inputs) := by
  intro inputs
  induction inputs with
  | nil =>
    intro t s
    exact ⟨rfl, untouched_refl s⟩
  | cons input rest ih =>
    intro t s
    have compared := equivalent_untouched env t.destination_ input s
    unfold OutputTransaction.compareInputs Leaves
    dsimp only
    generalize s.equivalent env t.destination_ input = r at compared ⊢
    obtain ⟨result, s₁⟩ := r
    rcases result with message | _ | _
    · exact ⟨rfl, compared⟩
    · refine (ih t s₁).mono ?_ ?_
      · rintro _ q ⟨same, untouched⟩
        exact ⟨same, Untouched.trans compared untouched⟩
      · rintro q ⟨same, untouched⟩
        exact ⟨same, Untouched.trans compared untouched⟩
    · exact ⟨rfl, compared⟩

theorem validateDestination_idle (env : Environment) : Idle (OutputTransaction.validateDestination env) := by
  intro t s
  have looked := status_untouched env t.destination_ s
  unfold OutputTransaction.validateDestination Leaves
  dsimp only
  generalize s.status env t.destination_ = r at looked ⊢
  obtain ⟨result, s₁⟩ := r
  rcases result with message | _ | node
  · exact ⟨rfl, looked⟩
  · exact ⟨rfl, looked⟩
  · cases regular : System.is_regular node with
    | true =>
      simp only [regular, if_true]
      refine (compareInputs_idle env t.inputs_ t s₁).mono ?_ ?_
      · rintro _ q ⟨same, untouched⟩
        exact ⟨same, Untouched.trans looked untouched⟩
      · rintro q ⟨same, untouched⟩
        exact ⟨same, Untouched.trans looked untouched⟩
    | false =>
      simp only [regular, Bool.false_eq_true, if_false]
      exact ⟨trivial, looked⟩

theorem is_taken_idle (env : Environment) (p : Path) : Idle (OutputTransaction.is_taken env p) := by
  intro t s
  have looked := status_untouched env p s
  unfold OutputTransaction.is_taken System.exists_ Leaves
  dsimp only
  generalize s.status env p = r at looked ⊢
  obtain ⟨result, s₁⟩ := r
  rcases result with message | node
  · exact ⟨rfl, looked⟩
  · exact ⟨rfl, looked⟩

theorem sync_file_idle (env : Environment) : Idle (OutputTransaction.sync_file env) := by
  intro t s
  unfold OutputTransaction.sync_file Leaves System.call
  dsimp only
  split
  · next ran =>
    split at ran <;> split at ran <;> obtain ⟨_, rfl⟩ := EStateM.Result.ok.inj ran <;> exact ⟨rfl, _, rfl⟩
  · next ran => split at ran <;> split at ran <;> cases ran

/-! ### Staging -/

/-- No one else writes to the file of a path. -/
def Ours (env : Environment) (p : Path) : Prop := ∀ e ∈ (env.media p).events, e.replaced = none

/-- The ways an attempt at a candidate ends: the name is not created, or its new
    file is staged, or else the file is created and then not opened. -/
theorem open_candidate_runs (env : Environment) (p : Path) (t : OutputTransaction) (s : System) :
    (∃ clock, OutputTransaction.open_candidate env p (t, s) =
      .ok false ({ t with file_ := { io_error_ := true } }, later s clock)) ∨
    s.fs.names (env.locate p) = none ∧ env.faults s.clock = none ∧
      ((∃ clock, OutputTransaction.open_candidate env p (t, s) = .ok true
          ({ t with file_ := FileIo.created env p, temporary_ := some p, inode_ := s.fs.next },
            later (s.set (s.fs.create (env.locate p))) clock)) ∨
        env.noreplace = false ∧ (env.faults (s.clock + 1) ≠ none ∨ env.faults (s.clock + 2) ≠ none) ∧
          ∃ clock, OutputTransaction.open_candidate env p (t, s) =
            .ok false ({ t with file_ := { io_error_ := true } }, later (s.set (s.fs.create (env.locate p))) clock)) := by
  simp only [OutputTransaction.open_candidate, FileIo.open_exclusive, FileIo.create, System.call]
  cases first : env.faults s.clock with
  | some message => exact .inl ⟨_, rfl⟩
  | none =>
    cases here : s.fs.names (env.locate p) with
    | some node =>
      simp only [here, Option.isSome_some, if_true]
      exact .inl ⟨_, rfl⟩
    | none =>
      refine .inr ⟨rfl, rfl, ?_⟩
      simp only [here, Option.isSome_none, Bool.false_eq_true, if_false]
      cases env.noreplace with
      | true => exact .inl ⟨_, rfl⟩
      | false =>
        simp only [Bool.false_eq_true, if_false, System.set]
        cases second : env.faults (s.clock + 1) with
        | some message => exact .inr ⟨trivial, by simp, _, rfl⟩
        | none =>
          simp only
          cases third : env.faults (s.clock + 1 + 1) with
          | some message => exact .inr ⟨trivial, by simp, _, rfl⟩
          | none => exact .inl ⟨_, rfl⟩

/-- An attempt at a candidate: a new file is staged, or else one may have been
    left there. -/
theorem open_candidate_spec (kept : Kept env C fs₀ m₀ destination (t, s)) (nothing : t.temporary_ = none)
    (aimed : t.destination_ = destination) {p : Path}
    (listed : s.fs.names (env.locate p) = none → env.faults s.clock = none → C (env.locate p))
    (ours : fs₀.names (env.locate p) = none → Ours env p) :
    ∃ opened q, OutputTransaction.open_candidate env p (t, s) = .ok opened q ∧ Kept env C fs₀ m₀ destination q ∧
      q.1.destination_ = destination ∧ q.2.draws = s.draws ∧ q.2.counter = s.counter ∧
      if opened then q.1.temporary_ = some p ∧ q.1.file_ = FileIo.created env p
      else q.1.temporary_ = none := by
  have shut : Kept env C fs₀ m₀ destination ({ t with file_ := { io_error_ := true } }, s) := by
    obtain ⟨beside, moments, _, _, staged⟩ := kept
    exact ⟨beside, moments, by simp [Alone], fun _ => rfl, staged⟩
  rcases open_candidate_runs env p t s with ⟨clock, run⟩ | ⟨free, faultless, runs⟩
  · -- Nothing is created.
    exact ⟨false, _, run, kept_untouched shut (untouched_later _ _), aimed, rfl, rfl, nothing⟩
  · have listed := listed free faultless
    have absent : fs₀.names (env.locate p) = none := by
      by_contra some
      exact some ((kept.beside.names _ some).symm.trans free)
    have beside := beside_create kept.beside free listed
    have moments : ∃ new, (s.set (s.fs.create (env.locate p))).moments = m₀ ++ new ∧ ∀ fs ∈ new, Beside C fs₀ fs := by
      obtain ⟨new, split, all⟩ := kept.moments
      refine ⟨new ++ [s.fs.create (env.locate p)], ?_, ?_⟩
      · show s.moments ++ [_] = _
        rw [show s.moments = m₀ ++ new from split, List.append_assoc]
      · intro fs member
        rcases List.mem_append.mp member with before | last
        · exact all fs before
        · obtain rfl : fs = s.fs.create (env.locate p) := by simpa using last
          exact beside
    rcases runs with ⟨clock, run⟩ | ⟨_, _, clock, run⟩
    · refine ⟨true, _, run, ⟨beside, moments, ours absent, by simp, ?_⟩, aimed, rfl, rfl, rfl, rfl⟩
      intro p' same
      obtain rfl : p = p' := by simpa using same
      exact ⟨aimed, listed, absent, if_pos rfl, kept.beside.next⟩
    · refine ⟨false, _, run, ⟨beside, moments, by simp [Alone], fun _ => rfl, ?_⟩, aimed, rfl, rfl, nothing⟩
      intro p' same
      rw [show t.temporary_ = some p' from same] at nothing
      cases nothing

theorem track_spec (kept : Kept env C fs₀ m₀ destination (t, s)) :
    ∃ q, OutputTransaction.track (t, s) = .ok () q ∧ Kept env C fs₀ m₀ destination q ∧ q.1.file_ = t.file_ ∧
      q.1.temporary_ = t.temporary_ ∧ q.2.fs = s.fs := by
  obtain ⟨slot, slots, run⟩ := track_calm t s
  obtain ⟨beside, moments, alone, idle, staged⟩ := kept
  exact ⟨_, run, ⟨beside, moments, alone, idle, staged⟩, rfl, rfl, rfl⟩

theorem copyPermissions_spec (kept : Kept env C fs₀ m₀ destination (t, s)) :
    Leaves (OutputTransaction.copyPermissions env) (t, s)
      (fun _ q => q.1 = t ∧ Kept env C fs₀ m₀ destination q) (Kept env C fs₀ m₀ destination) := by
  have looked := status_untouched env t.destination_ s
  unfold OutputTransaction.copyPermissions Leaves
  dsimp only
  generalize s.status env t.destination_ = r at looked ⊢
  obtain ⟨result, s₁⟩ := r
  have kept₁ := kept_untouched kept looked
  rcases result with message | _ | node
  · exact kept₁
  · exact ⟨rfl, kept₁⟩
  · cases node with
    | file inode =>
      cases temporary : t.temporary_ with
      | none => exact ⟨rfl, kept₁⟩
      | some p =>
        simp only [System.permissions, System.call]
        cases env.faults s₁.clock with
        | some message => exact kept_untouched kept₁ (untouched_later _ _)
        | none =>
          cases found : s₁.fs.lookup (env.locate p) with
          | missing =>
            simp only [found, true_and]
            exact kept_untouched kept₁ (untouched_later _ _)
          | looping =>
            simp only [found]
            exact kept_untouched kept₁ (untouched_later _ _)
          | «at» node =>
            cases node with
            | file i =>
              simp only [found]
              have changed := kept_set kept₁ (beside_chmod kept₁.beside i (s₁.fs.permissions inode)) rfl
              exact ⟨trivial, kept_untouched changed (untouched_later _ _)⟩
            | directory =>
              simp only [found, true_and]
              exact kept_untouched kept₁ (untouched_later _ _)
            | other =>
              simp only [found, true_and]
              exact kept_untouched kept₁ (untouched_later _ _)
            | link target =>
              simp only [found, true_and]
              exact kept_untouched kept₁ (untouched_later _ _)
    | directory => exact ⟨rfl, kept₁⟩
    | other => exact ⟨rfl, kept₁⟩
    | link target => exact ⟨rfl, kept₁⟩

theorem is_taken_later (env : Environment) (p : Path) (t : OutputTransaction) (s : System) :
    ∃ taken clock, OutputTransaction.is_taken env p (t, s) = .ok taken (t, later s clock) := by
  obtain ⟨clock, untouched⟩ := status_untouched env p s
  simp only [OutputTransaction.is_taken, System.exists_]
  generalize s.status env p = r at untouched ⊢
  obtain ⟨result, s₁⟩ := r
  obtain rfl : s₁ = later s clock := untouched
  cases result with
  | error message => exact ⟨false, clock, rfl⟩
  | ok node => exact ⟨node.isSome, clock, rfl⟩

/-- One of the attempts of `stage` is made at a name, in a state of the system. -/
inductive Attempted (env : Environment) : Nat → OutputTransaction × System → Path → System → Prop
  | here {attempts : Nat} {q : OutputTransaction × System} {p : Path} {t : OutputTransaction} {s : System}
      (named : OutputTransaction.next_candidate env q = .ok p (t, s)) : Attempted env (attempts + 1) q p s
  | again {attempts : Nat} {q q₁ q₂ q₃ : OutputTransaction × System} {p p' : Path} {s' : System}
      (named : OutputTransaction.next_candidate env q = .ok p q₁)
      (refused : OutputTransaction.open_candidate env p q₁ = .ok false q₂)
      (taken : OutputTransaction.is_taken env p q₂ = .ok true q₃)
      (later : Attempted env attempts q₃ p' s') : Attempted env (attempts + 1) q p' s'

/-- `open` gets as far as an attempt at this name. -/
def Tries (env : Environment) (destination : Path) (inputs : List Path) (q : OutputTransaction × System) (p : Path)
    (s' : System) : Prop :=
  ∃ q₁ q₂, OutputTransaction.aim destination inputs q = .ok () q₁ ∧ destination.filename ≠ "" ∧
    OutputTransaction.validateDestination env q₁ = .ok () q₂ ∧ Attempted env OutputTransaction.ATTEMPTS q₂ p s'

/-- A transaction that is opened in `s` creates a file at `n`. -/
def Creates (env : Environment) (destination : Path) (inputs : List Path) (s : System) (n : Name) : Prop :=
  ∃ p s', Tries env destination inputs ({}, s) p s' ∧ env.locate p = n ∧ s'.fs.names n = none ∧ env.faults s'.clock = none

/-- An attempt is made at a candidate's name. -/
theorem attempted_named {attempts : Nat} {q : OutputTransaction × System} {p : Path} {s' : System}
    (attempted : Attempted env attempts q p s') :
    ∃ a b c, p = OutputTransaction.candidate q.1.destination_ a b c := by
  induction attempted with
  | @here attempts q p t s named =>
    obtain ⟨t', s'⟩ := q
    exact ⟨_, _, _, (EStateM.Result.ok.inj named).1.symm⟩
  | @again attempts q q₁ q₂ q₃ p p' s' named refused taken _ ih =>
    have first : q₁.1.destination_ = q.1.destination_ :=
      congrArg (fun q => q.1.destination_) (EStateM.Result.ok.inj named).2.symm
    have second : q₂.1.destination_ = q₁.1.destination_ := by
      obtain ⟨t₁, s₁⟩ := q₁
      rcases open_candidate_runs env p t₁ s₁ with ⟨clock, run⟩ | ⟨_, _, ⟨clock, run⟩ | ⟨_, _, clock, run⟩⟩
      · exact congrArg (fun q => q.1.destination_) (EStateM.Result.ok.inj (refused.symm.trans run)).2
      · cases refused.symm.trans run
      · exact congrArg (fun q => q.1.destination_) (EStateM.Result.ok.inj (refused.symm.trans run)).2
    have third : q₃.1.destination_ = q₂.1.destination_ :=
      congrArg OutputTransaction.destination_ ((is_taken_idle env p q₂.1 q₂.2).of_ok taken).1
    rw [third, second, first] at ih
    exact ih

theorem creates_named {inputs : List Path} {n : Name} (creates : Creates env destination inputs s n) :
    ∃ a b c, n = env.locate (OutputTransaction.candidate destination a b c) := by
  obtain ⟨p, s', ⟨q₁, q₂, aimed, _, valid, attempted⟩, rfl, _, _⟩ := creates
  have same : q₂.1.destination_ = destination := by
    have begun : q₁.1.destination_ = destination :=
      congrArg (fun q => q.1.destination_) (EStateM.Result.ok.inj aimed).2.symm
    exact (congrArg OutputTransaction.destination_ ((validateDestination_idle env q₁.1 q₁.2).of_ok valid).1).trans begun
  obtain ⟨a, b, c, rfl⟩ := attempted_named attempted
  exact ⟨a, b, c, by rw [same]⟩

/-- The file is staged and its handle is open. -/
structure Live (env : Environment) (C : Name → Prop) (fs₀ : FileSystem) (m₀ : List FileSystem) (destination : Path)
    (q : OutputTransaction × System) : Prop where
  kept : Kept env C fs₀ m₀ destination q
  opened : q.1.file_.f_.opened = true
  temporary : q.1.temporary_ ≠ none

theorem stage_none (t : OutputTransaction) (s : System) : OutputTransaction.stage env 0 (t, s) =
    .error ⟨.io_error, "Cannot create temporary output beside: " ++ t.destination_.string⟩ (t, s) := by
  unfold OutputTransaction.stage
  rfl

theorem stage_spec : ∀ (attempts : Nat) (t : OutputTransaction) (s : System), Kept env C fs₀ m₀ destination (t, s) →
    t.temporary_ = none → t.destination_ = destination →
    (∀ k < attempts, fs₀.names (env.locate (attempt env s destination k)) = none → Ours env (attempt env s destination k)) →
    (∀ p s', Attempted env attempts (t, s) p s' → s'.fs.names (env.locate p) = none → env.faults s'.clock = none →
      C (env.locate p)) →
    Leaves (OutputTransaction.stage env attempts) (t, s)
      (fun _ q => Live env C fs₀ m₀ destination q ∧ ∃ p, q.1.temporary_ = some p ∧ q.1.file_ = FileIo.created env p)
      (Kept env C fs₀ m₀ destination) := by
  intro attempts
  induction attempts with
  | zero =>
    intro t s kept _ _ _ _
    exact leaves_error (stage_none t s) kept
  | succ attempts ih =>
    intro t s kept nothing aimed ours listed
    have first : OutputTransaction.next_candidate env (t, s) = .ok (attempt env s destination 0)
        (t, { s with draws := s.draws + 2, counter := s.counter + 1 }) := by
      rw [candidate_calm, aimed]
    have kept₁ : Kept env C fs₀ m₀ destination (t, { s with draws := s.draws + 2, counter := s.counter + 1 }) := by
      obtain ⟨beside, moments, alone, idle, staged⟩ := kept
      exact ⟨beside, moments, alone, idle, staged⟩
    obtain ⟨opened, ⟨t₁, s₁⟩, run, kept₂, aimed₁, draws, counter, outcome⟩ :=
      open_candidate_spec kept₁ nothing aimed (listed _ _ (.here first)) (ours 0 (Nat.succ_pos _))
    unfold OutputTransaction.stage
    unfold Leaves
    rw [bind_ok first, bind_ok run]
    cases opened with
    | true =>
      obtain ⟨temporary, file⟩ := outcome
      obtain ⟨⟨t₂, s₂⟩, tracked, kept₃, file₂, temporary₂, _⟩ := track_spec kept₂
      rw [if_pos rfl, bind_ok tracked]
      refine (copyPermissions_spec kept₃).mono ?_ (fun _ left => left)
      rintro _ ⟨t₃, s₃⟩ ⟨rfl, kept₄⟩
      refine ⟨⟨kept₄, ?_, ?_⟩, _, temporary₂.trans temporary, file₂.trans file⟩
      · show t₃.file_.f_.opened = true
        rw [show t₃.file_ = _ from file₂.trans file]
        rfl
      · show t₃.temporary_ ≠ none
        rw [show t₃.temporary_ = _ from temporary₂.trans temporary]
        exact Option.some_ne_none _
    | false =>
      obtain ⟨taken, clock, looked⟩ := is_taken_later env (attempt env s destination 0) t₁ s₁
      rw [if_neg Bool.false_ne_true, bind_ok looked]
      have kept₃ : Kept env C fs₀ m₀ destination (t₁, later s₁ clock) := kept_untouched kept₂ (untouched_later _ _)
      cases taken with
      | false =>
        rw [if_neg Bool.false_ne_true]
        exact leaves_error (stage_none t₁ _) kept₃
      | true =>
        have next : ∀ j, attempt env (later s₁ clock) destination j = attempt env s destination (j + 1) := by
          intro j
          have draws' : s₁.draws + 2 * j = s.draws + 2 * (j + 1) := by
            have : s₁.draws = s.draws + 2 := draws
            omega
          have counter' : s₁.counter + j = s.counter + (j + 1) := by
            have : s₁.counter = s.counter + 1 := counter
            omega
          simp only [attempt, later, draws', counter']
        rw [if_pos rfl]
        refine ih t₁ (later s₁ clock) kept₃ outcome aimed₁ ?_ ?_
        · intro k inside
          rw [next]
          exact ours (k + 1) (by omega)
        · intro p s' attempted
          exact listed p s' (.again first run looked attempted)

/-- Opening a transaction stages a file, or fails and leaves what was there. -/
def Opens (env : Environment) (C : Name → Prop) (fs₀ : FileSystem) (m₀ : List FileSystem) (destination : Path)
    (inputs : List Path) (s : System) : Prop :=
  Leaves (OutputTransaction.open_ env destination inputs) ({}, s)
    (fun _ q => Live env C fs₀ m₀ destination q ∧ ∃ p, q.1.temporary_ = some p ∧ q.1.file_ = FileIo.created env p)
    (Kept env C fs₀ m₀ destination)

/-- The file is staged at one of the names that the attempts create. -/
theorem open_spec (ours : ∀ k < OutputTransaction.ATTEMPTS, s.fs.names (env.locate (attempt env s destination k)) = none →
    Ours env (attempt env s destination k)) (inputs : List Path) :
    Opens env (Creates env destination inputs s) s.fs s.moments destination inputs s := by
  have aimed : OutputTransaction.aim destination inputs ({}, s) =
      .ok () ({ destination_ := destination, inputs_ := inputs }, s) := rfl
  have kept : Kept env (Creates env destination inputs s) s.fs s.moments destination
      ({ destination_ := destination, inputs_ := inputs }, s) :=
    ⟨beside_refl _ _, ⟨[], by simp, by simp⟩, by simp [Alone], fun _ => rfl, by simp⟩
  unfold Opens OutputTransaction.open_ Leaves
  rw [bind_ok aimed]
  by_cases named : destination.filename = ""
  · rw [if_pos named]
    exact kept
  · rw [if_neg named]
    have checked := validateDestination_idle env { destination_ := destination, inputs_ := inputs } s
    cases valid : OutputTransaction.validateDestination env ({ destination_ := destination, inputs_ := inputs }, s) with
    | error e q =>
      obtain ⟨t₁, s₁⟩ := q
      obtain ⟨rfl, untouched⟩ := checked.of_error valid
      rw [bind_error valid]
      exact kept_untouched kept untouched
    | ok _ q =>
      obtain ⟨t₁, s₁⟩ := q
      obtain ⟨rfl, clock, rfl⟩ := checked.of_ok valid
      rw [bind_ok valid]
      refine stage_spec _ _ _ (kept_untouched kept (untouched_later s clock)) rfl rfl ours ?_
      intro p s' attempted free faultless
      exact ⟨p, s', ⟨_, _, aimed, named, valid, attempted⟩, rfl, free, faultless⟩

/-! ### What an attempt shows -/

/-- No moment is taken back. -/
def Grows {α : Type} (m : OutputM α) : Prop := ∀ q, ∃ new, (after (m q)).2.moments = q.2.moments ++ new

section
variable {α β : Type} {m : OutputM α} {f : α → OutputM β}

theorem grows_bind (first : Grows m) (second : ∀ a, Grows (f a)) : Grows (m >>= f) := by
  intro q
  obtain ⟨new, begun⟩ := first q
  cases run : m q with
  | ok a q' =>
    rw [run] at begun
    obtain ⟨new', ended⟩ := second a q'
    refine ⟨new ++ new', ?_⟩
    rw [bind_ok run, ended, ← List.append_assoc]
    exact congrArg (· ++ new') begun
  | error e q' =>
    rw [run] at begun
    rw [bind_error run]
    exact ⟨new, begun⟩

theorem Frames.grows (frames : Frames (·.2.moments) m) : Grows m := fun q => ⟨[], (frames q).trans (List.append_nil _).symm⟩

theorem Idle.grows (idle : Idle m) : Grows m := Frames.grows (idle.frames fun _ _ _ => rfl)

end

theorem open_candidate_grows (env : Environment) (p : Path) : Grows (OutputTransaction.open_candidate env p) := by
  rintro ⟨t, s⟩
  rcases open_candidate_runs env p t s with ⟨clock, run⟩ | ⟨_, _, ⟨clock, run⟩ | ⟨_, _, clock, run⟩⟩
  · rw [run]
    exact ⟨[], (List.append_nil _).symm⟩
  · rw [run]
    exact ⟨[_], rfl⟩
  · rw [run]
    exact ⟨[_], rfl⟩

theorem track_grows : Grows OutputTransaction.track := by
  rintro ⟨t, s⟩
  obtain ⟨slot, slots, run⟩ := track_calm t s
  rw [run]
  exact ⟨[], (List.append_nil _).symm⟩

theorem permissions_grows (env : Environment) (p : Path) (mode : Nat) (s : System) :
    ∃ new, (s.permissions env p mode).2.moments = s.moments ++ new := by
  have nothing : s.moments = s.moments ++ [] := (List.append_nil _).symm
  unfold System.permissions System.call
  cases env.faults s.clock with
  | some message => exact ⟨[], nothing⟩
  | none =>
    dsimp only
    split
    · exact ⟨[], nothing⟩
    · exact ⟨[], nothing⟩
    · exact ⟨[_], rfl⟩
    · exact ⟨[], nothing⟩

theorem copyPermissions_grows (env : Environment) : Grows (OutputTransaction.copyPermissions env) := by
  rintro ⟨t, s⟩
  have looked := status_untouched env t.destination_ s
  unfold OutputTransaction.copyPermissions
  dsimp only
  generalize s.status env t.destination_ = r at looked ⊢
  obtain ⟨result, s₁⟩ := r
  obtain ⟨clock, rfl⟩ := looked
  have nothing : s.moments = s.moments ++ [] := (List.append_nil _).symm
  rcases result with message | _ | node
  · exact ⟨[], nothing⟩
  · exact ⟨[], nothing⟩
  · cases node with
    | file inode =>
      cases t.temporary_ with
      | none => exact ⟨[], nothing⟩
      | some p =>
        obtain ⟨new, grown⟩ := permissions_grows env p ((later s clock).fs.permissions inode) (later s clock)
        dsimp only
        generalize (later s clock).permissions env p ((later s clock).fs.permissions inode) = r at grown ⊢
        obtain ⟨result, s₂⟩ := r
        cases result with
        | error message => exact ⟨new, grown⟩
        | ok found => exact ⟨new, grown⟩
    | directory => exact ⟨[], nothing⟩
    | other => exact ⟨[], nothing⟩
    | link target => exact ⟨[], nothing⟩

/-- What follows when the handle has been opened on a candidate, or has not. -/
theorem candidate_grows (env : Environment) {attempts : Nat} (stages : Grows (OutputTransaction.stage env attempts))
    (ended : Grows (OutputTransaction.stage env 0)) (p : Path) (opened : Bool) : Grows (do
      if opened then
        OutputTransaction.track
        OutputTransaction.copyPermissions env
      else if ← OutputTransaction.is_taken env p then OutputTransaction.stage env attempts
      else OutputTransaction.stage env 0) := by
  cases opened with
  | true =>
    rw [if_pos rfl]
    exact grows_bind track_grows fun _ => copyPermissions_grows env
  | false =>
    rw [if_neg Bool.false_ne_true]
    refine grows_bind (is_taken_idle env p).grows fun taken => ?_
    cases taken with
    | true => exact stages
    | false => exact ended

theorem stage_grows (env : Environment) : ∀ attempts, Grows (OutputTransaction.stage env attempts) := by
  have ended : Grows (OutputTransaction.stage env 0) := by
    rintro ⟨t, s⟩
    rw [stage_none]
    exact ⟨[], (List.append_nil _).symm⟩
  intro attempts
  induction attempts with
  | zero => exact ended
  | succ attempts ih =>
    unfold OutputTransaction.stage
    exact grows_bind (Frames.grows fun _ => rfl) fun p =>
      grows_bind (open_candidate_grows env p) (candidate_grows env ih ended p)

/-- The file shows, still without bytes, at a moment after these. -/
def Exposed (n : Name) (moments : List FileSystem) (s : System) : Prop :=
  ∃ new, s.moments = moments ++ new ∧ ∃ fs ∈ new, ∃ i, fs.names n = some (.file i) ∧ fs.data i = .writing

theorem exposed_grows {α : Type} {m : OutputM α} (grows : Grows m) {q : OutputTransaction × System} {n : Name}
    {moments : List FileSystem} (exposed : Exposed n moments q.2) : Exposed n moments (after (m q)).2 := by
  obtain ⟨new, split, fs, member, shows⟩ := exposed
  obtain ⟨more, grown⟩ := grows q
  exact ⟨new ++ more, by rw [grown, split, List.append_assoc], fs, List.mem_append_left _ member, shows⟩

/-- Where the name is free and the call does not fail, the file is created. -/
theorem open_candidate_creates {p : Path} (free : s.fs.names (env.locate p) = none) (faultless : env.faults s.clock = none) :
    ∃ opened t' clock, OutputTransaction.open_candidate env p (t, s) =
      .ok opened (t', later (s.set (s.fs.create (env.locate p))) clock) := by
  simp only [OutputTransaction.open_candidate, FileIo.open_exclusive, FileIo.create, System.call, faultless, free,
    Option.isSome_none, Bool.false_eq_true, if_false]
  cases env.noreplace with
  | true => exact ⟨true, _, _, rfl⟩
  | false =>
    simp only [Bool.false_eq_true, if_false, System.set]
    cases env.faults (s.clock + 1) with
    | some message => exact ⟨false, _, _, rfl⟩
    | none =>
      simp only
      cases env.faults (s.clock + 1 + 1) with
      | some message => exact ⟨false, _, _, rfl⟩
      | none => exact ⟨true, _, _, rfl⟩

/-- A file that an attempt creates is exposed. -/
theorem attempted_exposes {attempts : Nat} {q : OutputTransaction × System} {p : Path} {s' : System}
    (attempted : Attempted env attempts q p s') (free : s'.fs.names (env.locate p) = none)
    (faultless : env.faults s'.clock = none) {moments : List FileSystem} (before : ∃ new, q.2.moments = moments ++ new) :
    Exposed (env.locate p) moments (after (OutputTransaction.stage env attempts q)).2 := by
  induction attempted with
  | @here attempts q p t s named =>
    obtain ⟨opened, t', clock, run⟩ := open_candidate_creates (t := t) free faultless
    have exposed : Exposed (env.locate p) moments (later (s.set (s.fs.create (env.locate p))) clock) := by
      obtain ⟨new, split⟩ := before
      have still : s.moments = q.2.moments := congrArg (fun q => q.2.moments) (EStateM.Result.ok.inj named).2.symm
      refine ⟨new ++ [s.fs.create (env.locate p)], ?_, _, List.mem_append_right _ (List.mem_singleton_self _),
        s.fs.next, if_pos rfl, if_pos rfl⟩
      show s.moments ++ [_] = _
      rw [still, split, List.append_assoc]
    unfold OutputTransaction.stage
    rw [bind_ok named, bind_ok run]
    exact exposed_grows (candidate_grows env (stage_grows env attempts) (stage_grows env 0) p opened) exposed
  | @again attempts q q₁ q₂ q₃ p p' s' named refused taken _ ih =>
    have grown : ∃ new, q₃.2.moments = moments ++ new := by
      obtain ⟨new, split⟩ := before
      have first : q₁.2.moments = q.2.moments := congrArg (fun q => q.2.moments) (EStateM.Result.ok.inj named).2.symm
      obtain ⟨new', second⟩ := open_candidate_grows env p q₁
      obtain ⟨new'', third⟩ := (is_taken_idle env p).grows q₂
      rw [refused] at second
      rw [taken] at third
      refine ⟨new ++ new' ++ new'', ?_⟩
      rw [show q₃.2.moments = q₂.2.moments ++ new'' from third, show q₂.2.moments = q₁.2.moments ++ new' from second,
        first, split, List.append_assoc, List.append_assoc, List.append_assoc]
    unfold OutputTransaction.stage
    rw [bind_ok named, bind_ok refused, if_neg Bool.false_ne_true, bind_ok taken, if_pos rfl]
    exact ih free faultless grown

theorem open_exposes {inputs : List Path} {n : Name} (creates : Creates env destination inputs s n) :
    Exposed n s.moments (after (OutputTransaction.open_ env destination inputs ({}, s))).2 := by
  obtain ⟨p, s', ⟨q₁, q₂, aimed, named, valid, attempted⟩, rfl, free, faultless⟩ := creates
  have begun : q₁.2 = s := congrArg Prod.snd (EStateM.Result.ok.inj aimed).2.symm
  obtain ⟨new, grown⟩ := (validateDestination_idle env).grows q₁
  rw [valid] at grown
  unfold OutputTransaction.open_
  rw [bind_ok aimed, if_neg named, bind_ok valid]
  exact attempted_exposes attempted free faultless ⟨new, by rw [← begun]; exact grown⟩

/-- Opening counts as what went before, too. -/
theorem opens_after {inputs : List Path} (opens : Opens env C fs₀ m₀ destination inputs s) :
    Opens env C fs₀ (after (OutputTransaction.open_ env destination inputs ({}, s))).2.moments destination inputs s := by
  have rebased : ∀ {q}, Kept env C fs₀ m₀ destination q → Kept env C fs₀ q.2.moments destination q := by
    rintro q ⟨beside, _, alone, idle, staged⟩
    exact ⟨beside, ⟨[], (List.append_nil _).symm, by simp⟩, alone, idle, staged⟩
  unfold Opens Leaves at opens ⊢
  cases run : OutputTransaction.open_ env destination inputs ({}, s) with
  | ok a q =>
    rw [run] at opens
    obtain ⟨⟨kept, opened, temporary⟩, created⟩ := opens
    exact ⟨⟨rebased kept, opened, temporary⟩, created⟩
  | error e q =>
    rw [run] at opens
    exact rebased opens

/-- What opening shows is beside what was there. -/
theorem opens_beside {inputs : List Path} (opens : Opens env C fs₀ m₀ destination inputs s) :
    ∃ new, (after (OutputTransaction.open_ env destination inputs ({}, s))).2.moments = m₀ ++ new ∧
      ∀ fs ∈ new, Beside C fs₀ fs := by
  unfold Opens Leaves at opens
  cases run : OutputTransaction.open_ env destination inputs ({}, s) with
  | ok a q =>
    rw [run] at opens
    exact opens.1.kept.moments
  | error e q =>
    rw [run] at opens
    exact opens.moments

theorem follow_missing (fs : FileSystem) : ∀ (fuel : Nat) (n : Name) {m : Name}, breaksAt fs fuel n = some m →
    fs.follow fuel n = .missing := by
  intro fuel
  induction fuel with
  | zero =>
    intro n m breaks
    cases breaks
  | succ fuel ih =>
    intro n m breaks
    unfold breaksAt at breaks
    unfold FileSystem.follow
    cases there : fs.names n with
    | none => rfl
    | some node =>
      rw [there] at breaks
      cases node with
      | link target => exact ih target breaks
      | file _ => cases breaks
      | directory => cases breaks
      | other => cases breaks

/-- What a missing name is given shows at all that leads there. -/
theorem follow_broken (beside : Beside C fs₀ fs) {m : Name} {i : Nat} (here : fs.names m = some (.file i)) :
    ∀ (fuel : Nat) (n : Name), breaksAt fs₀ fuel n = some m → fs.follow fuel n = .at (.file i) := by
  intro fuel
  induction fuel with
  | zero =>
    intro n breaks
    cases breaks
  | succ fuel ih =>
    intro n breaks
    unfold breaksAt at breaks
    unfold FileSystem.follow
    cases there : fs₀.names n with
    | none =>
      rw [there] at breaks
      obtain rfl : n = m := Option.some.inj breaks
      rw [here]
    | some node =>
      have kept := beside.names n (by rw [there]; exact Option.some_ne_none _)
      rw [there] at kept breaks
      rw [kept]
      cases node with
      | link target => exact ih target breaks
      | file _ => cases breaks
      | directory => cases breaks
      | other => cases breaks

/-! ### The commit -/

theorem live_file (live : Live env C fs₀ m₀ destination (t, s)) {f : FileIo} (alone : Alone f.f_)
    (opened : f.f_.opened = true) : Live env C fs₀ m₀ destination ({ t with file_ := f }, s) := by
  obtain ⟨⟨beside, moments, _, _, staged⟩, _, temporary⟩ := live
  exact ⟨⟨beside, moments, alone, fun nothing => absurd nothing temporary, staged⟩, opened, temporary⟩

/-- Closing the handle settles what the staged file holds. -/
theorem close_file_spec (kept : Kept env C fs₀ m₀ destination (t, s)) :
    ∃ closed s', OutputTransaction.close_file (t, s) = .ok closed ({ t with file_ := t.file_.close.2 }, s') ∧
      Kept env C fs₀ m₀ destination ({ t with file_ := t.file_.close.2 }, s') ∧ t.file_.close.2.f_.opened = false ∧
      (closed = true → t.file_.f_.opened = true →
        s'.fs.data t.inode_ = .bytes t.file_.f_.data ∧ t.file_.io_error_ = false) := by
  obtain ⟨shut, alone, data, flawless⟩ := close_alone kept.alone
  have kept₁ : ∀ {s' : System}, Kept env C fs₀ m₀ destination (t, s') →
      Kept env C fs₀ m₀ destination ({ t with file_ := t.file_.close.2 }, s') := by
    rintro s' ⟨beside, moments, _, _, staged⟩
    exact ⟨beside, moments, alone, fun _ => shut, staged⟩
  rcases ran : t.file_.close with ⟨closed, f⟩
  rw [ran] at shut data kept₁ flawless
  by_cases stored : (closed && t.file_.is_open) = true
  · have run : OutputTransaction.close_file (t, s) =
        .ok true ({ t with file_ := f }, s.set (s.fs.store t.inode_ (.bytes f.f_.data))) := by
      simp only [OutputTransaction.close_file, ran, stored, if_true]
    have staged : fs₀.next ≤ t.inode_ := by
      cases temporary : t.temporary_ with
      | none =>
        have idle : t.file_.f_.opened = false := kept.idle temporary
        simp [FileIo.is_open, idle] at stored
      | some p => exact (kept.staged p temporary).2.2.2.2
    refine ⟨true, _, run, kept₁ (kept_set kept (beside_store kept.beside staged _) rfl), shut, ?_⟩
    intro _ opened
    have closed' : closed = true := by
      rw [Bool.and_eq_true] at stored
      exact stored.1
    refine ⟨?_, flawless closed' opened⟩
    rw [← data]
    exact if_pos rfl
  · have run : OutputTransaction.close_file (t, s) = .ok closed ({ t with file_ := f }, s) := by
      simp only [OutputTransaction.close_file, ran, stored, Bool.false_eq_true, if_false]
    refine ⟨closed, s, run, kept₁ kept, shut, ?_⟩
    rintro rfl opened
    exact absurd opened (by simpa [FileIo.is_open] using stored)

/-- The staged file, closed, holds these bytes. -/
structure Sealed (env : Environment) (C : Name → Prop) (fs₀ : FileSystem) (m₀ : List FileSystem) (destination : Path)
    (content : List UInt8) (q : OutputTransaction × System) : Prop where
  kept : Kept env C fs₀ m₀ destination q
  shut : q.1.file_.f_.opened = false
  data : q.2.fs.data q.1.inode_ = .bytes content

theorem flush_spec (live : Live env C fs₀ m₀ destination (t, s)) :
    Leaves (OutputTransaction.flush env) (t, s)
      (fun _ q => Sealed env C fs₀ m₀ destination t.file_.f_.data q ∧ q.1.temporary_ = t.temporary_ ∧
        t.file_.io_error_ = false)
      (Kept env C fs₀ m₀ destination) := by
  obtain ⟨closed, s₁, run, kept, shut, data⟩ := close_file_spec live.kept
  set t₁ : OutputTransaction := { t with file_ := t.file_.close.2 } with t₁Is
  have got : (get : OutputM _) (t₁, s₁) = .ok (t₁, s₁) (t₁, s₁) := rfl
  unfold OutputTransaction.flush Leaves
  rw [bind_ok run, bind_ok got]
  by_cases failed : (!closed || t₁.file_.has_error) = true
  · simp only [if_pos failed]
    exact kept
  · simp only [if_neg failed]
    have stored : closed = true := by
      cases closed with
      | true => rfl
      | false => exact absurd rfl failed
    obtain ⟨held, flawless⟩ := data stored live.opened
    have sealed : ∀ clock, Sealed env C fs₀ m₀ destination t.file_.f_.data (t₁, later s₁ clock) :=
      fun clock => ⟨kept_untouched kept (untouched_later _ _), shut, held⟩
    refine leaves_bind (sync_file_idle env t₁ s₁) ?_ ?_
    · rintro ⟨_, _⟩ ⟨rfl, untouched⟩
      exact kept_untouched kept untouched
    · rintro synced ⟨_, _⟩ ⟨rfl, clock, rfl⟩
      cases synced with
      | true => exact ⟨sealed clock, rfl, flawless⟩
      | false => exact (sealed clock).kept

/-- The staged file has replaced the destination; of what was there before, every
    other name and every file is as it was. -/
structure Committed (env : Environment) (C : Name → Prop) (fs₀ : FileSystem) (m₀ : List FileSystem) (destination : Path)
    (content : List UInt8) (q : OutputTransaction × System) : Prop where
  shows : ∃ i, q.2.fs.names (env.locate destination) = some (.file i) ∧ q.2.fs.data i = .bytes content
  names : ∀ n ≠ env.locate destination, fs₀.names n ≠ none → q.2.fs.names n = fs₀.names n
  data : ∀ i < fs₀.next, q.2.fs.data i = fs₀.data i
  moments : ∃ new, q.2.moments = m₀ ++ new ++ [q.2.fs] ∧ ∀ fs ∈ new, Beside C fs₀ fs
  released : q.1.temporary_ = none
  shut : q.1.file_.f_.opened = false

/-- The rename takes the staged name to the destination. -/
theorem renamed_names {fs : FileSystem} {source : Name} (target : Name) {i : Nat} (named : fs.names source = some (.file i)) :
    (fs.rename source target).names target = some (.file i) ∧ (fs.rename source target).data = fs.data ∧
      ∀ n, n ≠ source → n ≠ target → (fs.rename source target).names n = fs.names n := by
  unfold FileSystem.rename
  by_cases same : fs.names source = fs.names target
  · rw [if_pos same]
    exact ⟨same ▸ named, rfl, fun _ _ _ => rfl⟩
  · rw [if_neg same]
    refine ⟨(if_pos rfl).trans named, rfl, ?_⟩
    intro n other other'
    exact (if_neg other').trans (if_neg other)

theorem replace_spec {content : List UInt8} (sealed : Sealed env C fs₀ m₀ destination content (t, s)) {p : Path}
    (temporary : t.temporary_ = some p) :
    Leaves (OutputTransaction.replace env p) (t, s)
      (fun _ q => q.1 = t ∧ Committed env C fs₀ m₀ destination content ({ q.1 with temporary_ := none }, q.2))
      (Kept env C fs₀ m₀ destination) := by
  obtain ⟨kept, shut, data⟩ := sealed
  obtain ⟨aimed, _, absent, here, _⟩ := kept.staged p temporary
  have failed : ∀ clock, Kept env C fs₀ m₀ destination (t, later s clock) :=
    fun clock => kept_untouched kept (untouched_later _ _)
  have aimed' : t.destination_ = destination := aimed
  have named : s.fs.names (env.locate p) = some (.file t.inode_) := here
  unfold OutputTransaction.replace Leaves
  simp only [System.rename, System.call, aimed']
  cases env.faults s.clock with
  | some message => exact failed _
  | none =>
    simp only [named]
    have done : Committed env C fs₀ m₀ destination content ({ t with temporary_ := none },
        (later s (s.clock + 1)).set (s.fs.rename (env.locate p) (env.locate destination))) := by
      obtain ⟨shown, same, others⟩ := renamed_names (env.locate destination) named
      obtain ⟨new, split, all⟩ := kept.moments
      refine ⟨⟨t.inode_, shown, ?_⟩, ?_, ?_, ⟨new, ?_, all⟩, rfl, shut⟩
      · exact (congrFun same _).trans data
      · intro n other some
        have apart : n ≠ env.locate p := by
          rintro rfl
          exact some absent
        exact (others n apart other).trans (kept.beside.names n some)
      · intro i old
        exact (congrFun same i).trans (kept.beside.data i old)
      · show s.moments ++ [_] = _
        rw [show s.moments = m₀ ++ new from split]
        rfl
    cases target : s.fs.names (env.locate destination) with
    | none => exact ⟨rfl, done⟩
    | some node =>
      cases node with
      | directory => exact failed _
      | file i => exact ⟨rfl, done⟩
      | other => exact ⟨rfl, done⟩
      | link n => exact ⟨rfl, done⟩

theorem untrack_runs (t : OutputTransaction) (s : System) :
    ∃ slot slots, OutputTransaction.untrack (t, s) = .ok () ({ t with slot_ := slot }, { s with staged_paths := slots }) := by
  simp only [OutputTransaction.untrack]
  cases t.slot_ with
  | none => exact ⟨t.slot_, _, rfl⟩
  | some i => exact ⟨_, _, rfl⟩

theorem commit_spec (live : Live env C fs₀ m₀ destination (t, s)) :
    Leaves (OutputTransaction.commit env) (t, s)
      (fun _ q => Committed env C fs₀ m₀ destination t.file_.f_.data q ∧ t.file_.io_error_ = false)
      (Kept env C fs₀ m₀ destination) := by
  have got : (get : OutputM _) (t, s) = .ok (t, s) (t, s) := rfl
  unfold OutputTransaction.commit Leaves
  rw [bind_ok got]
  cases temporary : t.temporary_ with
  | none => exact absurd temporary live.temporary
  | some p =>
    simp only [temporary]
    refine leaves_bind (flush_spec live) (fun _ left => left) ?_
    rintro _ ⟨t₁, s₁⟩ ⟨sealed, temporary₁, flawless⟩
    refine leaves_bind (validateDestination_idle env t₁ s₁) ?_ ?_
    · rintro ⟨_, _⟩ ⟨rfl, untouched⟩
      exact kept_untouched sealed.kept untouched
    · rintro _ ⟨t₂, _⟩ ⟨same, clock, rfl⟩
      obtain rfl : t₁ = t₂ := same.symm
      obtain ⟨kept, shut, data⟩ := sealed
      have sealed' : Sealed env C fs₀ m₀ destination t.file_.f_.data (t₁, later s₁ clock) :=
        ⟨kept_untouched kept (untouched_later _ _), shut, data⟩
      refine leaves_bind (replace_spec sealed' (temporary₁.trans temporary)) (fun _ left => left) ?_
      rintro _ ⟨t₂, s₂⟩ ⟨same, shows, names, data, moments, _, shut⟩
      obtain rfl : t₁ = t₂ := same.symm
      obtain ⟨slot, slots, untracked⟩ := untrack_runs t₁ s₂
      unfold Leaves
      rw [bind_ok untracked]
      exact ⟨⟨shows, names, data, moments, rfl, shut⟩, flawless⟩

/-- A longer chain of links may be followed. -/
theorem follow_mono (fs : FileSystem) : ∀ {fuel more : Nat} {n : Name} {node : Node}, fuel ≤ more →
    fs.follow fuel n = .at node → fs.follow more n = .at node := by
  intro fuel
  induction fuel with
  | zero =>
    intro more n node _ found
    cases found
  | succ fuel ih =>
    intro more n node le found
    obtain ⟨more, rfl⟩ : ∃ k, more = k + 1 := ⟨more - 1, by omega⟩
    unfold FileSystem.follow at found ⊢
    split at found
    · cases found
    · exact ih (by omega) found
    · exact found

/-- Where only one name changes, what leads elsewhere leads there still. -/
theorem follow_apart {fs fs' : FileSystem} {d : Name} (names : ∀ n ≠ d, fs.names n ≠ none → fs'.names n = fs.names n)
    {node : Node} (elsewhere : fs.lookup d ≠ .at node) : ∀ {fuel : Nat} {n : Name}, fuel ≤ FileSystem.LINK_MAX →
      fs.follow fuel n = .at node → fs'.follow fuel n = .at node := by
  intro fuel
  induction fuel with
  | zero =>
    intro n _ found
    cases found
  | succ fuel ih =>
    intro n le found
    have other : n ≠ d := by
      rintro rfl
      exact elsewhere (follow_mono fs le found)
    unfold FileSystem.follow at found ⊢
    split at found
    · cases found
    · next target named =>
      simp only [names n other (by simp [named]), named]
      exact ih (by omega) found
    · next node' link named =>
      simp only [names n other (by simp [named]), named]
      exact found

/-- A file that is not the destination is there after the commit. -/
theorem committed_holds {s₀ : System} {content : List UInt8} {q : OutputTransaction × System}
    (committed : Committed env C s₀.fs m₀ destination content q) {p : Path} {bytes : List UInt8}
    (holds : s₀.Holds env p bytes) (apart : ∀ i, s₀.fs.lookup (env.locate p) = .at (.file i) →
      s₀.fs.lookup (env.locate destination) ≠ .at (.file i)) : q.2.Holds env p bytes := by
  obtain ⟨inode, leads, data⟩ := holds
  refine ⟨inode, follow_apart committed.names (apart inode leads) (Nat.le_refl _) leads, ?_⟩
  rw [committed.data inode (follow_used s₀.fs _ _ leads)]
  exact data

/-! ### The destructor -/

/-- What was there stays, and nothing that went before has changed it. -/
structure Spared (C : Name → Prop) (fs₀ : FileSystem) (m₀ : List FileSystem) (s : System) : Prop where
  beside : Beside C fs₀ s.fs
  moments : ∃ new, s.moments = m₀ ++ new ∧ ∀ fs ∈ new, Beside C fs₀ fs

theorem remove_spared (spared : Spared C fs₀ m₀ s) {p : Path} (absent : fs₀.names (env.locate p) = none) :
    Spared C fs₀ m₀ (s.remove env p) := by
  obtain ⟨beside, new, split, all⟩ := spared
  unfold System.remove System.call
  cases env.faults s.clock with
  | some message => exact ⟨beside, new, split, all⟩
  | none =>
    dsimp only
    split
    · have removed := beside_remove beside absent
      refine ⟨removed, new ++ [s.fs.remove (env.locate p)], ?_, ?_⟩
      · show s.moments ++ [_] = _
        rw [split, List.append_assoc]
      · intro fs member
        rcases List.mem_append.mp member with before | last
        · exact all fs before
        · obtain rfl : fs = s.fs.remove (env.locate p) := by simpa using last
          exact removed
    · exact ⟨beside, new, split, all⟩

/-- The destructor of a transaction that did not commit removes nothing that was
    there. -/
theorem destroy_spec (kept : Kept env C fs₀ m₀ destination (t, s)) : Spared C fs₀ m₀ (t.destroy env s) := by
  obtain ⟨closed, s₁, run, kept₁, _⟩ := close_file_spec kept
  have spared : Spared C fs₀ m₀ s₁ := ⟨kept₁.beside, kept₁.moments⟩
  unfold OutputTransaction.destroy
  simp only [EStateM.run, run]
  cases temporary : t.temporary_ with
  | none =>
    cases t.slot_ with
    | none => exact spared
    | some i => exact ⟨spared.beside, spared.moments⟩
  | some p =>
    have removed := remove_spared spared (kept.staged p temporary).2.2.1
    cases t.slot_ with
    | none => exact removed
    | some i => exact ⟨removed.beside, removed.moments⟩

end Staging

end Roll
