import Mathlib.Data.List.Induction
import Roll.Staging

/-!
What a transaction leaves behind, over any sequence of its methods and any
failures of the system: of the files that it created, only the committed
destination, provided that a file that was created under a candidate name is
also opened.
-/
namespace Roll

/-- What a caller does with a transaction. -/
inductive OutputStep
  | open_ (destination : Path) (inputs : List Path)
  | write (chunk : List UInt8)
  | commit
deriving DecidableEq, Repr

namespace OutputTransaction
open Roll.Parsing

/-- The transaction and the system after a step, however it ends. -/
def perform (env : Environment) (q : OutputTransaction × System) : OutputStep → OutputTransaction × System
  | .open_ destination inputs => after (open_ env destination inputs q)
  | .write chunk => ({ q.1 with file_ := (q.1.file_.write_chunk chunk).2 }, q.2)
  | .commit => after (commit env q)

/-- A new transaction after these steps. -/
def run (env : Environment) (s : System) (steps : List OutputStep) : OutputTransaction × System :=
  steps.foldl (perform env) ({}, s)

/-- The whole life of a transaction. -/
def live (env : Environment) (s : System) (steps : List OutputStep) : System :=
  (run env s steps).1.destroy env (run env s steps).2

end OutputTransaction

namespace Discarding
open Roll.Parsing Roll.Outcome Roll.Calm Roll.Committing Roll.Staging

variable {env : Environment} {s : System} {steps : List OutputStep}

/-! ### The directories -/

/-- What a transaction knows of its files, and the names that there are. -/
def listing (q : OutputTransaction × System) : Path × Option Path × (Name → Option Node) × Nat :=
  (q.1.destination_, q.1.temporary_, q.2.fs.names, q.2.fs.next)

theorem idle_frames {α : Type} {m : OutputM α} (idle : Idle m) : Frames listing m := idle.frames fun _ _ _ => rfl

theorem track_frames : Frames listing OutputTransaction.track := by
  rintro ⟨t, s⟩
  obtain ⟨slot, slots, run⟩ := track_calm t s
  rw [run]
  rfl

theorem permissions_names (env : Environment) (p : Path) (mode : Nat) (s : System) :
    (s.permissions env p mode).2.fs.names = s.fs.names ∧ (s.permissions env p mode).2.fs.next = s.fs.next ∧
      (s.permissions env p mode).2.counter = s.counter := by
  unfold System.permissions System.call
  cases env.faults s.clock with
  | some message => exact ⟨rfl, rfl, rfl⟩
  | none =>
    dsimp only
    cases s.fs.lookup (env.locate p) with
    | missing => exact ⟨rfl, rfl, rfl⟩
    | looping => exact ⟨rfl, rfl, rfl⟩
    | «at» node => cases node <;> exact ⟨rfl, rfl, rfl⟩

/-- Copying the permissions changes nothing else. -/
theorem copyPermissions_runs (env : Environment) (t : OutputTransaction) (s : System) :
    ∃ s', after (OutputTransaction.copyPermissions env (t, s)) = (t, s') ∧ s'.fs.names = s.fs.names ∧
      s'.fs.next = s.fs.next ∧ s'.counter = s.counter := by
  have looked := status_untouched env t.destination_ s
  unfold OutputTransaction.copyPermissions
  dsimp only
  generalize s.status env t.destination_ = r at looked ⊢
  obtain ⟨result, s₁⟩ := r
  obtain ⟨clock, rfl⟩ := looked
  rcases result with message | _ | node
  · exact ⟨_, rfl, rfl, rfl, rfl⟩
  · exact ⟨_, rfl, rfl, rfl, rfl⟩
  · cases node with
    | file inode =>
      cases t.temporary_ with
      | none => exact ⟨_, rfl, rfl, rfl, rfl⟩
      | some p =>
        have same := permissions_names env p ((later s clock).fs.permissions inode) (later s clock)
        dsimp only
        generalize (later s clock).permissions env p ((later s clock).fs.permissions inode) = r at same ⊢
        obtain ⟨failed, s₂⟩ := r
        cases failed with
        | ok _ => exact ⟨s₂, rfl, same⟩
        | error message => exact ⟨s₂, rfl, same⟩
    | directory => exact ⟨_, rfl, rfl, rfl, rfl⟩
    | other => exact ⟨_, rfl, rfl, rfl, rfl⟩
    | link target => exact ⟨_, rfl, rfl, rfl, rfl⟩

theorem copyPermissions_frames (env : Environment) : Frames listing (OutputTransaction.copyPermissions env) := by
  rintro ⟨t, s⟩
  obtain ⟨s', run, names, count, _⟩ := copyPermissions_runs env t s
  simp [run, listing, names, count]

/-- Closing the handle only stores into the file. -/
theorem close_file_runs (t : OutputTransaction) (s : System) :
    ∃ closed s', OutputTransaction.close_file (t, s) = .ok closed ({ t with file_ := t.file_.close.2 }, s') ∧
      s'.fs.names = s.fs.names ∧ s'.fs.next = s.fs.next ∧ s'.counter = s.counter ∧ s'.clock = s.clock := by
  unfold OutputTransaction.close_file
  dsimp only
  split
  · exact ⟨_, _, rfl, rfl, rfl, rfl, rfl⟩
  · exact ⟨_, _, rfl, rfl, rfl, rfl, rfl⟩

theorem close_file_frames : Frames listing OutputTransaction.close_file := by
  rintro ⟨t, s⟩
  obtain ⟨closed, s', run, names, count, _⟩ := close_file_runs t s
  rw [run]
  simp [after, listing, names, count]

theorem flush_frames (env : Environment) : Frames listing (OutputTransaction.flush env) := by
  unfold OutputTransaction.flush
  apply frames_bind close_file_frames
  intro closed
  apply frames_bind (fun _ => rfl)
  rintro ⟨t, _⟩
  by_cases failed : (!closed || t.file_.has_error) = true
  · simp only [if_pos failed]
    exact frames_throw _
  · simp only [if_neg failed]
    apply frames_bind (idle_frames (sync_file_idle env))
    intro synced
    cases synced with
    | true => exact frames_pure _
    | false => exact frames_throw _

/-! ### The attempts -/

/-- Where a file is created first and then opened as a stream, a file that is
    created under this name is also closed and opened again. -/
def Reopens (env : Environment) (p : Path) (s : System) : Prop :=
  env.noreplace = false → env.faults s.clock = none → s.fs.names (env.locate p) = none →
    env.faults (s.clock + 1) = none ∧ env.faults (s.clock + 2) = none

/-- Nothing is staged, and no file is new. -/
structure Blank (next : Nat) (q : OutputTransaction × System) : Prop where
  nothing : q.1.temporary_ = none
  grown : next ≤ q.2.fs.next
  old : ∀ n i, q.2.fs.names n = some (.file i) → i < next

/-- The new files: the staged one or, once nothing is staged, committed ones. -/
structure Accounted (env : Environment) (next : Nat) (committed : Name → Prop) (q : OutputTransaction × System) : Prop where
  blank : q.1.destination_.empty = true → Blank next q
  grown : next ≤ q.2.fs.next
  staged : ∀ p, q.1.temporary_ = some p → ∀ n i, q.2.fs.names n = some (.file i) → next ≤ i → n = env.locate p
  done : q.1.temporary_ = none → ∀ n i, q.2.fs.names n = some (.file i) → next ≤ i → committed n

variable {next : Nat} {committed : Name → Prop} {q q' : OutputTransaction × System}

theorem Blank.accounted (blank : Blank next q) : Accounted env next committed q := by
  obtain ⟨nothing, grown, old⟩ := blank
  refine ⟨fun _ => ⟨nothing, grown, old⟩, grown, ?_, ?_⟩
  · intro p staged
    rw [nothing] at staged
    cases staged
  · intro _ n i named new
    have := old n i named
    omega

theorem blank_listing (same : listing q' = listing q) (blank : Blank next q) : Blank next q' := by
  obtain ⟨nothing, grown, old⟩ := blank
  simp only [listing, Prod.mk.injEq] at same
  obtain ⟨_, temporary, names, count⟩ := same
  exact ⟨temporary.trans nothing, count ▸ grown, fun n i named => old n i (names ▸ named)⟩

theorem accounted_listing (same : listing q' = listing q) (accounted : Accounted env next committed q) :
    Accounted env next committed q' := by
  obtain ⟨blank, grown, staged, done⟩ := accounted
  have blank' : q'.1.destination_.empty = true → Blank next q' := by
    intro unaimed
    apply blank_listing same
    apply blank
    rwa [← show q'.1.destination_ = q.1.destination_ from congrArg Prod.fst same]
  simp only [listing, Prod.mk.injEq] at same
  obtain ⟨_, temporary, names, count⟩ := same
  refine ⟨blank', count ▸ grown, ?_, ?_⟩
  · rw [temporary, names]
    exact staged
  · rw [temporary, names]
    exact done

/-- What staging starts from and what it leaves, as far as the listing tells. -/
structure Stages (Before After : OutputTransaction × System → Prop) : Prop where
  before : ∀ {q q'}, listing q' = listing q → Before q → Before q'
  left : ∀ {q q'}, listing q' = listing q → After q → After q'
  idle : ∀ {q}, Before q → After q

/-- An attempt at this name goes on from where it started, or leaves what staging does. -/
def Settles (env : Environment) (Before After : OutputTransaction × System → Prop) (p : Path)
    (q : OutputTransaction × System) : Prop :=
  ∃ opened q', OutputTransaction.open_candidate env p q = .ok opened q' ∧ if opened then After q' else Before q'

section
variable {Before After : OutputTransaction × System → Prop}

/-- The attempts that are left keep what each of them keeps. -/
theorem stage_leaves (stages : Stages Before After) : ∀ (attempts : Nat) (q : OutputTransaction × System), Before q →
    (∀ p q₁, Before q₁ → Attempted env attempts q p q₁.2 → Settles env Before After p q₁) →
    After (after (OutputTransaction.stage env attempts q)) := by
  intro attempts
  induction attempts with
  | zero =>
    rintro ⟨t, s⟩ before _
    rw [stage_none]
    exact stages.idle before
  | succ attempts ih =>
    rintro ⟨t, s⟩ before settles
    have named : OutputTransaction.next_candidate env (t, s) = .ok (attempt env s t.destination_ 0) _ := candidate_calm
    generalize attempt env s t.destination_ 0 = p at named
    obtain ⟨s₁, named, fs₁⟩ : ∃ s₁, OutputTransaction.next_candidate env (t, s) = .ok p (t, s₁) ∧ s₁.fs = s.fs :=
      ⟨_, named, rfl⟩
    have before₁ : Before (t, s₁) := stages.before (by simp only [listing, fs₁]) before
    obtain ⟨opened, q₂, run, outcome⟩ := settles p (t, s₁) before₁ (.here named)
    unfold OutputTransaction.stage
    rw [bind_ok named, bind_ok run]
    cases opened with
    | true =>
      rw [if_pos rfl] at outcome ⊢
      exact stages.left (frames_bind track_frames (fun _ => copyPermissions_frames env) q₂) outcome
    | false =>
      rw [if_neg Bool.false_ne_true] at outcome ⊢
      obtain ⟨t₂, s₂⟩ := q₂
      obtain ⟨taken, clock, looked⟩ := is_taken_later env p t₂ s₂
      rw [bind_ok looked]
      have same : listing (t₂, later s₂ clock) = listing (t₂, s₂) := rfl
      have before₂ : Before (t₂, later s₂ clock) := stages.before same outcome
      cases taken with
      | false =>
        rw [if_neg Bool.false_ne_true, stage_none]
        exact stages.idle before₂
      | true =>
        rw [if_pos rfl]
        apply ih _ before₂
        intro p' q' before' attempted
        exact settles p' q' before' (.again named run looked attempted)

/-- So does `open` of a transaction that is still for no destination. -/
theorem open_leaves (stages : Stages Before After) {destination : Path} {inputs : List Path}
    (aimed : OutputTransaction.aim destination inputs q = .ok () q') (start : Before q')
    (settles : ∀ p q₁, Before q₁ → Tries env destination inputs q p q₁.2 → Settles env Before After p q₁) :
    After (after (OutputTransaction.open_ env destination inputs q)) := by
  unfold OutputTransaction.open_
  rw [bind_ok aimed]
  by_cases named : destination.filename = ""
  · rw [if_pos named]
    exact stages.idle start
  · rw [if_neg named]
    have framed := idle_frames (validateDestination_idle env) q'
    cases valid : OutputTransaction.validateDestination env q' with
    | error e q₁ =>
      rw [valid] at framed
      rw [bind_error valid]
      exact stages.left framed (stages.idle start)
    | ok _ q₁ =>
      rw [valid] at framed
      rw [bind_ok valid]
      apply stage_leaves stages _ _ (stages.before framed start)
      intro p q₂ before attempted
      exact settles p q₂ before ⟨_, _, aimed, named, valid, attempted⟩

end

/-- An attempt stages its file or creates none. -/
theorem open_candidate_accounted {destination p : Path} (aimed : destination.empty = false)
    (blank : Blank next q ∧ q.1.destination_ = destination) (reopens : Reopens env p q.2) :
    Settles env (fun q => Blank next q ∧ q.1.destination_ = destination) (Accounted env next committed) p q := by
  obtain ⟨t, s⟩ := q
  obtain ⟨⟨nothing, grown, old⟩, rfl⟩ := blank
  rcases open_candidate_runs env p t s with ⟨clock, run⟩ | ⟨free, possible, ⟨clock, run⟩ | ⟨path, failed, _⟩⟩
  · exact ⟨false, _, run, ⟨nothing, grown, old⟩, rfl⟩
  · refine ⟨true, _, run, ?_, Nat.le_succ_of_le grown, ?_, ?_⟩
    · intro unaimed
      rw [show _ = true from unaimed] at aimed
      cases aimed
    · intro p' staged n i named new
      obtain rfl : p = p' := by simpa using staged
      by_contra other
      have before : s.fs.names n = some (.file i) := (if_neg other).symm.trans named
      have := old n i before
      omega
    · intro staged
      cases staged
  · obtain ⟨closed, opened⟩ := reopens path possible free
    rcases failed with failed | failed
    · exact absurd closed failed
    · exact absurd opened failed

/-! ### The steps -/

theorem open_accounted (destination : Path) (inputs : List Path) (accounted : Accounted env next committed q)
    (reopens : ∀ p s', Tries env destination inputs q p s' → Reopens env p s') :
    Accounted env next committed (after (OutputTransaction.open_ env destination inputs q)) := by
  obtain ⟨t, s⟩ := q
  have stages : Stages (fun q => Blank next q ∧ q.1.destination_ = destination) (Accounted env next committed) := by
    refine ⟨?_, accounted_listing, fun before => before.1.accounted⟩
    rintro q q' same ⟨blank, aimed⟩
    exact ⟨blank_listing same blank, (congrArg Prod.fst same).trans aimed⟩
  by_cases unaimed : t.destination_.empty = true
  · have aimed : OutputTransaction.aim destination inputs (t, s) =
        .ok () ({ t with destination_ := destination, inputs_ := inputs }, s) := if_pos unaimed
    obtain ⟨nothing, grown, old⟩ := accounted.blank unaimed
    refine open_leaves stages aimed ⟨⟨nothing, grown, old⟩, rfl⟩ ?_
    intro p q₁ before tried
    have named : destination.filename ≠ "" := by
      obtain ⟨_, _, _, named, _⟩ := tried
      exact named
    exact open_candidate_accounted (by simp [Path.empty, named]) before (reopens p _ tried)
  · have refused : OutputTransaction.aim destination inputs (t, s) =
        .error ⟨.invalid_argument, "Output transaction already opened"⟩ (t, s) := if_neg unaimed
    unfold OutputTransaction.open_
    rw [bind_error refused]
    exact accounted

/-- A file that a rename leaves at a name was there, or is at the target. -/
theorem rename_named {fs : FileSystem} {source target n : Name} {node : Node}
    (named : (fs.rename source target).names n = some node) :
    n = target ∨ fs.names n = some node ∧ (n = source → fs.names source = fs.names target) := by
  unfold FileSystem.rename at named
  by_cases same : fs.names source = fs.names target
  · rw [if_pos same] at named
    exact .inr ⟨named, fun _ => same⟩
  · rw [if_neg same] at named
    by_cases last : n = target
    · exact .inl last
    · simp only [if_neg last] at named
      by_cases moved : n = source
      · rw [if_pos moved] at named
        cases named
      · rw [if_neg moved] at named
        exact .inr ⟨named, fun here => absurd here moved⟩

/-- A rename changes nothing when it fails, and takes a file along when it does not. -/
theorem rename_runs (env : Environment) (p q : Path) (s : System) :
    (∃ message clock, s.rename env p q = (some message, later s clock)) ∨
      ∃ node clock, s.fs.names (env.locate p) = some node ∧
        s.rename env p q = (none, (later s clock).set (s.fs.rename (env.locate p) (env.locate q))) := by
  simp only [System.rename, System.call]
  cases env.faults s.clock with
  | some message => exact .inl ⟨_, _, rfl⟩
  | none =>
    dsimp only
    cases s.fs.names (env.locate p) with
    | none => exact .inl ⟨_, _, rfl⟩
    | some node =>
      split
      · exact .inl ⟨_, _, rfl⟩
      · exact .inl ⟨_, _, rfl⟩
      · exact .inr ⟨node, _, rfl, rfl⟩

/-- The rename takes the only new file to the destination. -/
theorem replace_accounted {t : OutputTransaction} {s : System} {p : Path} (staged : t.temporary_ = some p)
    (accounted : Accounted env next committed (t, s)) :
    Leaves (OutputTransaction.replace env p) (t, s)
      (fun _ q => q.1 = t ∧ next ≤ q.2.fs.next ∧
        ∀ n i, q.2.fs.names n = some (.file i) → next ≤ i → n = env.locate t.destination_)
      (Accounted env next committed) := by
  have moved : ∀ n i, (s.fs.rename (env.locate p) (env.locate t.destination_)).names n = some (.file i) → next ≤ i →
      n = env.locate t.destination_ := by
    intro n i named new
    rcases rename_named named with last | ⟨before, shared⟩
    · exact last
    · have here : n = env.locate p := accounted.staged p staged n i before new
      have twin : s.fs.names (env.locate t.destination_) = some (.file i) := by
        rw [← shared here, ← here]
        exact before
      exact here.trans (accounted.staged p staged _ i twin new).symm
  have grown : next ≤ (s.fs.rename (env.locate p) (env.locate t.destination_)).next := by
    unfold FileSystem.rename
    split <;> exact accounted.grown
  rcases rename_runs env p t.destination_ s with ⟨message, clock, run⟩ | ⟨_, clock, _, run⟩
  · apply leaves_error
    · simp only [OutputTransaction.replace, run]
      rfl
    · exact accounted_listing (q := (t, s)) rfl accounted
  · apply leaves_ok
    · simp only [OutputTransaction.replace, run]
      rfl
    · exact ⟨rfl, grown, moved⟩

/-- After a commit the new file is at the destination. -/
theorem commit_accounted (accounted : Accounted env next committed q) :
    Leaves (OutputTransaction.commit env) q
      (fun _ => Accounted env next (fun n => n = env.locate q.1.destination_))
      (Accounted env next committed) := by
  obtain ⟨t, s⟩ := q
  have got : (get : OutputM _) (t, s) = .ok (t, s) (t, s) := rfl
  unfold OutputTransaction.commit Leaves
  rw [bind_ok got]
  cases staged : t.temporary_ with
  | none =>
    simp only [staged]
    exact accounted
  | some p =>
    simp only [staged]
    have aimed : t.destination_.empty = false := by
      by_contra unaimed
      have nothing := (accounted.blank (by simpa using unaimed)).nothing
      rw [show t.temporary_ = none from nothing] at staged
      cases staged
    have listed : ∀ q', listing q' = listing (t, s) → q'.1.destination_ = t.destination_ ∧ q'.1.temporary_ = some p ∧
        Accounted env next committed q' := by
      intro q' same
      have temporary := congrArg (fun l => l.2.1) same
      exact ⟨congrArg Prod.fst same, temporary.trans staged, accounted_listing same accounted⟩
    refine leaves_bind ((flush_frames env).keeps (fun l => l = listing (t, s)) (t, s) rfl)
      (fun q' same => (listed q' same).2.2) ?_
    intro _ q₁ same₁
    refine leaves_bind ((idle_frames (validateDestination_idle env)).keeps (fun l => l = listing (t, s)) q₁ same₁)
      (fun q' same => (listed q' same).2.2) ?_
    intro _ q₂ same₂
    obtain ⟨t₂, s₂⟩ := q₂
    obtain ⟨aimed₂, staged₂, accounted₂⟩ := listed _ same₂
    refine leaves_bind (replace_accounted staged₂ accounted₂) (fun _ left => left) ?_
    rintro _ ⟨t₃, s₃⟩ ⟨same₃, grown, moved⟩
    obtain rfl : t₃ = t₂ := same₃
    obtain ⟨slot, slots, untracked⟩ := untrack_runs t₃ s₃
    unfold Leaves
    rw [bind_ok untracked]
    refine ⟨?_, grown, ?_, ?_⟩
    · intro unaimed
      have unaimed : t₃.destination_.empty = true := unaimed
      rw [show t₃.destination_ = t.destination_ from aimed₂, aimed] at unaimed
      cases unaimed
    · intro p' impossible
      cases impossible
    · intro _ n i named new
      show n = env.locate t.destination_
      rw [← show t₃.destination_ = t.destination_ from aimed₂]
      exact moved n i named new

/-- What the destructor does to the files. -/
theorem destroy_runs (env : Environment) (t : OutputTransaction) (s : System) :
    ∃ s' : System, s'.fs.names = s.fs.names ∧ s'.clock = s.clock ∧ (t.destroy env s).fs = (match t.temporary_ with
      | some temporary => s'.remove env temporary
      | none => s').fs := by
  obtain ⟨closed, s', run, names, _, _, clock⟩ := close_file_runs t s
  refine ⟨s', names, clock, ?_⟩
  unfold OutputTransaction.destroy
  simp only [EStateM.run, run]
  cases t.slot_ with
  | none => rfl
  | some i => rfl

/-- The destructor removes the staged file. -/
theorem destroy_accounted {t : OutputTransaction} {s : System} (accounted : Accounted env next committed (t, s))
    (removes : ∀ p, t.temporary_ = some p → env.faults s.clock = none) {n : Name} {i : Nat}
    (named : (t.destroy env s).fs.names n = some (.file i)) (new : next ≤ i) : committed n := by
  obtain ⟨s', names, clock, removed⟩ := destroy_runs env t s
  rw [removed] at named
  cases staged : t.temporary_ with
  | none =>
    rw [staged] at named
    exact accounted.done staged n i (names ▸ named) new
  | some p =>
    rw [staged] at named
    simp only [System.remove, System.call, clock, removes p staged] at named
    split at named
    · have other : n ≠ env.locate p := by
        rintro rfl
        simp [System.set, FileSystem.remove] at named
      have kept : s.fs.names n = some (.file i) := by
        rw [← names]
        exact (if_neg other).symm.trans named
      exact absurd (accounted.staged p staged n i kept new) other
    · next absent =>
      have here : n = env.locate p := accounted.staged p staged n i (names ▸ named) new
      have present : s'.fs.names (env.locate p) = some (.file i) := here ▸ named
      rw [present] at absent
      exact absurd rfl absent

/-- The name is that of a destination that one of the steps committed. -/
def Commits (env : Environment) (s : System) (steps : List OutputStep) (n : Name) : Prop :=
  ∃ before rest q, steps = before ++ .commit :: rest ∧
    OutputTransaction.commit env (OutputTransaction.run env s before) = .ok () q ∧
    n = env.locate (OutputTransaction.run env s before).1.destination_

/-- Every file that an `open` among these steps created is opened. -/
def Opens (env : Environment) (s : System) (steps : List OutputStep) : Prop :=
  ∀ before destination inputs rest, steps = before ++ .open_ destination inputs :: rest →
    ∀ p s', Tries env destination inputs (OutputTransaction.run env s before) p s' → Reopens env p s'

theorem Commits.more {n : Name} (commits : Commits env s steps n) (step : OutputStep) :
    Commits env s (steps ++ [step]) n := by
  obtain ⟨before, rest, q, split, run, here⟩ := commits
  refine ⟨before, rest ++ [step], q, ?_, run, here⟩
  simp [split]

theorem Accounted.mono {committed' : Name → Prop} (accounted : Accounted env next committed q)
    (more : ∀ n, committed n → committed' n) : Accounted env next committed' q := by
  obtain ⟨blank, grown, staged, done⟩ := accounted
  exact ⟨blank, grown, staged, fun nothing n i named new => more n (done nothing n i named new)⟩

theorem run_concat (env : Environment) (s : System) (steps : List OutputStep) (step : OutputStep) :
    OutputTransaction.run env s (steps ++ [step]) = OutputTransaction.perform env (OutputTransaction.run env s steps) step := by
  simp [OutputTransaction.run]

/-- Over any steps, the new files are accounted for. -/
theorem run_accounted (steps : List OutputStep) (opens : Opens env s steps) :
    Accounted env s.fs.next (Commits env s steps) (OutputTransaction.run env s steps) := by
  induction steps using List.reverseRecOn with
  | nil =>
    apply Blank.accounted
    exact ⟨rfl, Nat.le_refl _, s.fs.used⟩
  | append_singleton steps step ih =>
    have accounted := ih (by
      intro before destination inputs rest split
      exact opens before destination inputs (rest ++ [step]) (by simp [split]))
    have later := accounted.mono (fun n commits => Commits.more commits step)
    rw [run_concat]
    cases step with
    | open_ destination inputs =>
      apply open_accounted destination inputs later
      exact opens steps destination inputs [] rfl
    | write chunk => exact accounted_listing (q := OutputTransaction.run env s steps) rfl later
    | commit =>
      have left := commit_accounted later
      unfold OutputTransaction.perform
      cases ran : OutputTransaction.commit env (OutputTransaction.run env s steps) with
      | ok _ q =>
        apply (left.of_ok ran).mono
        intro n here
        exact ⟨steps, [], q, rfl, ran, here⟩
      | error e q => exact left.of_error ran

/-- The destructor's own call, if it makes one, succeeds. -/
def Removes (env : Environment) (s : System) (steps : List OutputStep) : Prop :=
  (OutputTransaction.run env s steps).1.temporary_ ≠ none →
    env.faults (OutputTransaction.run env s steps).2.clock = none

/-- Once a transaction is destroyed, its only file is the committed destination. -/
theorem nothing_is_left (env : Environment) (s : System) (steps : List OutputStep) (opens : Opens env s steps)
    (removes : Removes env s steps) (n : Name) (i : Nat)
    (named : (OutputTransaction.live env s steps).fs.names n = some (.file i)) (new : s.fs.next ≤ i) :
    Commits env s steps n := by
  apply destroy_accounted (run_accounted steps opens) ?_ named new
  intro p staged
  exact removes (ne_of_eq_of_ne staged (Option.some_ne_none p))

/-- One file is written and committed where it is created first. -/
theorem nothing_is_left_beside :
    Commits { noreplace := false } { fs := .holding [] } [.open_ ⟨"", "out"⟩ [], .write [7], .commit] (0, "out") :=
  nothing_is_left _ _ _ (fun _ _ _ _ _ _ _ _ _ _ _ => ⟨rfl, rfl⟩) (fun _ => rfl) _ 0 (by decide +kernel) (by decide)

/-- Creates a file first, and cannot close the first one that it created. -/
def unclosable : Environment :=
  { faults := fun c => if c = 2 then some "Input/output error" else none, noreplace := false }

/-- The file that was created under the first candidate name is left. -/
theorem left_when_not_closed :
    Removes unclosable { fs := .holding [] } [.open_ ⟨"", "out"⟩ []] ∧
      (OutputTransaction.live unclosable { fs := .holding [] } [.open_ ⟨"", "out"⟩ []]).fs.names (0, ".rolling_hash-0-1-0") =
        some (.file 0) ∧
      (FileSystem.holding []).next ≤ 0 ∧
      ¬ Commits unclosable { fs := .holding [] } [.open_ ⟨"", "out"⟩ []] (0, ".rolling_hash-0-1-0") := by
  refine ⟨?_, by decide +kernel, Nat.le_refl 0, ?_⟩
  · intro _
    decide +kernel
  · rintro ⟨before, rest, q, split, _⟩
    have member : OutputStep.commit ∈ [OutputStep.open_ ⟨"", "out"⟩ []] := by
      rw [split]
      simp
    simp at member

end Discarding

end Roll
