import Roll.Parsing

/-!
Ways to state what a computation with a state and failures does.

`Leaves` has a postcondition for each of the two ways a computation can end, in
the manner of a Hoare triple; `Yields` forgets the state of a failure,
`Reports` keeps its error in place of the state, `Ends` keeps both, and `Keeps`
is an invariant; a property of a part of the state that a computation `Frames`
is one. `Curbs` relates a computation to one with a budget. `Shadows` relates
two computations that act on a common part of their states: as long as the
first goes on, both leave that part alike, and where the first gives up on its
own account, the second is ahead.
-/
namespace Roll.Outcome
open Roll.Parsing

variable {α β γ ε ε' σ ρ : Type}

/-! ### Postconditions -/

section
variable {m : EStateM ε σ α} {f : α → EStateM ε σ γ} {s : σ} {good good' : α → σ → Prop}

/-- From `s`, a success satisfies `good`, and a failure leaves a state that
    satisfies `left`. -/
def Leaves (m : EStateM ε σ α) (s : σ) (good : α → σ → Prop) (left : σ → Prop) : Prop :=
  match m s with
  | .ok a s' => good a s'
  | .error _ s' => left s'

section
variable {left left' : σ → Prop}

theorem leaves_ok {a : α} {s' : σ} (run : m s = .ok a s') (holds : good a s') : Leaves m s good left := by
  rw [Leaves, run]
  exact holds

theorem leaves_error {e : ε} {s' : σ} (run : m s = .error e s') (holds : left s') : Leaves m s good left := by
  rw [Leaves, run]
  exact holds

/-- Every computation leaves something. -/
theorem leaves_any : Leaves m s (fun _ _ => True) (fun _ => True) := by
  unfold Leaves
  cases m s with
  | ok a s' => exact trivial
  | error e s' => exact trivial

theorem Leaves.of_ok (leaves : Leaves m s good left) {a : α} {s' : σ} (run : m s = .ok a s') : good a s' := by
  rw [Leaves, run] at leaves
  exact leaves

theorem Leaves.of_error (leaves : Leaves m s good left) {e : ε} {s' : σ} (run : m s = .error e s') : left s' := by
  rw [Leaves, run] at leaves
  exact leaves

theorem Leaves.mono (leaves : Leaves m s good left) (more : ∀ a s', good a s' → good' a s')
    (worse : ∀ s', left s' → left' s') : Leaves m s good' left' := by
  cases run : m s with
  | ok a s' => exact leaves_ok run (more a s' (leaves.of_ok run))
  | error e s' => exact leaves_error run (worse s' (leaves.of_error run))

/-- In sequence, the second part starts from what the first one leaves. -/
theorem leaves_bind {after : γ → σ → Prop} (first : Leaves m s good left) (worse : ∀ s', left s' → left' s')
    (second : ∀ a s', good a s' → Leaves (f a) s' after left') : Leaves (m >>= f) s after left' := by
  cases run : m s with
  | ok a s' =>
    rw [Leaves, bind_ok run]
    exact second a s' (first.of_ok run)
  | error e s' => exact leaves_error (bind_error run) (worse s' (first.of_error run))

end

/-- From `s`, a success satisfies `good`, and a failure implies `bad`. -/
def Yields (m : EStateM ε σ α) (s : σ) (good : α → σ → Prop) (bad : Prop) : Prop := Leaves m s good (fun _ => bad)

variable {bad bad' : Prop}

theorem yields_ok {a : α} {s' : σ} (run : m s = .ok a s') (holds : good a s') : Yields m s good bad := leaves_ok run holds

theorem yields_error {e : ε} {s' : σ} (run : m s = .error e s') (holds : bad) : Yields m s good bad := leaves_error run holds

theorem Yields.of_ok (yields : Yields m s good bad) {a : α} {s' : σ} (run : m s = .ok a s') : good a s' :=
  Leaves.of_ok yields run

theorem Yields.of_error (yields : Yields m s good bad) {e : ε} {s' : σ} (run : m s = .error e s') : bad :=
  Leaves.of_error yields run

theorem yields_pure {a : α} (holds : good a s) : Yields (pure a : EStateM ε σ α) s good bad := holds

theorem yields_throw {e : ε} (holds : bad) : Yields (throw e : EStateM ε σ α) s good bad := holds

theorem Yields.mono (yields : Yields m s good bad) (more : ∀ a s', good a s' → good' a s') (worse : bad → bad') :
    Yields m s good' bad' := Leaves.mono yields more fun _ => worse

theorem yields_bind {after : γ → σ → Prop} (first : Yields m s good bad) (worse : bad → bad')
    (second : ∀ a s', good a s' → Yields (f a) s' after bad') : Yields (m >>= f) s after bad' :=
  leaves_bind first (fun _ => worse) second

/-- From `s`, a success satisfies `good`, and the error of a failure satisfies `bad`. -/
def Reports (m : EStateM ε σ α) (s : σ) (good : α → σ → Prop) (bad : ε → Prop) : Prop :=
  match m s with
  | .ok a s' => good a s'
  | .error e _ => bad e

section
variable {wrong wrong' : ε → Prop}

theorem reports_ok {a : α} {s' : σ} (run : m s = .ok a s') (holds : good a s') : Reports m s good wrong := by
  rw [Reports, run]
  exact holds

theorem reports_error {e : ε} {s' : σ} (run : m s = .error e s') (holds : wrong e) : Reports m s good wrong := by
  rw [Reports, run]
  exact holds

theorem reports_pure {a : α} (holds : good a s) : Reports (pure a : EStateM ε σ α) s good wrong := holds

theorem reports_throw {e : ε} (holds : wrong e) : Reports (throw e : EStateM ε σ α) s good wrong := holds

theorem Reports.of_ok (reports : Reports m s good wrong) {a : α} {s' : σ} (run : m s = .ok a s') : good a s' := by
  rw [Reports, run] at reports
  exact reports

theorem Reports.of_error (reports : Reports m s good wrong) {e : ε} {s' : σ} (run : m s = .error e s') : wrong e := by
  rw [Reports, run] at reports
  exact reports

theorem Reports.mono (reports : Reports m s good wrong) (more : ∀ a s', good a s' → good' a s')
    (worse : ∀ e, wrong e → wrong' e) : Reports m s good' wrong' := by
  cases run : m s with
  | ok a s' => exact reports_ok run (more a s' (reports.of_ok run))
  | error e s' => exact reports_error run (worse e (reports.of_error run))

theorem reports_bind {after : γ → σ → Prop} (first : Reports m s good wrong) (worse : ∀ e, wrong e → wrong' e)
    (second : ∀ a s', good a s' → Reports (f a) s' after wrong') : Reports (m >>= f) s after wrong' := by
  cases run : m s with
  | ok a s' =>
    rw [Reports, bind_ok run]
    exact second a s' (first.of_ok run)
  | error e s' => exact reports_error (bind_error run) (worse e (first.of_error run))

end

/-- From `s`, a success satisfies `good`; the error of a failure and the state it leaves
    satisfy `left`. -/
def Ends (m : EStateM ε σ α) (s : σ) (good : α → σ → Prop) (left : ε → σ → Prop) : Prop :=
  match m s with
  | .ok a s' => good a s'
  | .error e s' => left e s'

section
variable {left : ε → σ → Prop}

theorem ends_error {e : ε} {s' : σ} (run : m s = .error e s') (holds : left e s') : Ends m s good left := by
  rw [Ends, run]
  exact holds

theorem Ends.of_ok (ends : Ends m s good left) {a : α} {s' : σ} (run : m s = .ok a s') : good a s' := by
  rw [Ends, run] at ends
  exact ends

theorem Ends.of_error (ends : Ends m s good left) {e : ε} {s' : σ} (run : m s = .error e s') : left e s' := by
  rw [Ends, run] at ends
  exact ends

/-- In sequence, the second part starts from what the first one really leaves. -/
theorem ends_bind {after : γ → σ → Prop} (first : Ends m s good left)
    (second : ∀ a s', m s = .ok a s' → good a s' → Ends (f a) s' after left) : Ends (m >>= f) s after left := by
  cases run : m s with
  | ok a s' =>
    rw [Ends, bind_ok run]
    exact second a s' run (first.of_ok run)
  | error e s' => exact ends_error (bind_error run) (first.of_error run)

end

/-- A property of the state stays, however the computation ends. -/
def Keeps (P : σ → Prop) (m : EStateM ε σ α) : Prop := ∀ s, P s → Leaves m s (fun _ => P) P

variable {P : σ → Prop}

theorem keeps_pure (a : α) : Keeps P (pure a : EStateM ε σ α) := fun _ holds => holds

theorem keeps_throw (e : ε) : Keeps P (throw e : EStateM ε σ α) := fun _ holds => holds

theorem keeps_bind (first : Keeps P m) (second : ∀ a, Keeps P (f a)) : Keeps P (m >>= f) :=
  fun s holds => leaves_bind (first s holds) (fun _ kept => kept) fun a s' kept => second a s' kept

/-- What holds once the first part has ended holds in the end. -/
theorem keeps_rest (rest : ∀ a, Keeps P (f a)) (holds : P (after (m s))) : P (after ((m >>= f) s)) := by
  cases run : m s with
  | error e s' =>
    rw [run] at holds
    rwa [bind_error run]
  | ok a s' =>
    rw [run] at holds
    rw [bind_ok run]
    have kept := rest a s' holds
    cases ended : f a s' with
    | ok b s'' => exact kept.of_ok ended
    | error e s'' => exact kept.of_error ended

end

/-- A part `π` of the state stays, however the computation ends. -/
def Frames (π : σ → ρ) (m : EStateM ε σ α) : Prop := ∀ s, π (after (m s)) = π s

section
variable {π : σ → ρ} {m : EStateM ε σ α} {f : α → EStateM ε σ γ}

theorem frames_pure (a : α) : Frames π (pure a : EStateM ε σ α) := fun _ => rfl

theorem frames_throw (e : ε) : Frames π (throw e : EStateM ε σ α) := fun _ => rfl

theorem frames_bind (first : Frames π m) (second : ∀ a, Frames π (f a)) : Frames π (m >>= f) := by
  intro s
  have begun := first s
  cases run : m s with
  | ok a s' =>
    rw [run] at begun
    rw [bind_ok run]
    exact (second a s').trans begun
  | error e s' =>
    rw [run] at begun
    rw [bind_error run]
    exact begun

theorem Frames.of_ok (frames : Frames π m) {s s' : σ} {a : α} (run : m s = .ok a s') : π s' = π s := by
  have framed := frames s
  rwa [run] at framed

/-- A property of that part stays with it. -/
theorem Frames.keeps (frames : Frames π m) (Q : ρ → Prop) : Keeps (fun s => Q (π s)) m := by
  intro s holds
  have framed := frames s
  unfold Leaves
  cases run : m s with
  | ok a s' =>
    rw [run] at framed
    show Q (π s')
    rw [show π s' = π s from framed]
    exact holds
  | error e s' =>
    rw [run] at framed
    show Q (π s')
    rw [show π s' = π s from framed]
    exact holds

end

/-! ### Budgets -/

/-- A success has spent no less than was spent before. -/
def Grows (spent : σ → Nat) (m : EStateM ε σ α) : Prop := ∀ s a s', m s = .ok a s' → spent s ≤ spent s'

/-- Within the limit both computations are the same; where `limited` refuses to
    go on, a success of `free` spends more. -/
def Curbs (spent : σ → Nat) (limit : Nat) (refused : ε → Prop) (limited free : EStateM ε σ α) : Prop :=
  ∀ s, spent s ≤ limit →
    limited s = free s ∧ (∀ a s', free s = .ok a s' → spent s' ≤ limit) ∨
    (∃ e s', limited s = .error e s' ∧ refused e) ∧ ∀ a s', free s = .ok a s' → limit < spent s'

section
variable {spent : σ → Nat} {limit : Nat} {refused : ε → Prop} {m m' : EStateM ε σ α} {f f' : α → EStateM ε σ γ}

theorem Frames.map {π : σ → ρ} (frames : Frames π m) {τ : Type} (g : ρ → τ) : Frames (fun s => g (π s)) m :=
  fun s => congrArg g (frames s)

theorem frames_ok (frames : Frames spent m) {s s' : σ} {a : α} (run : m s = .ok a s') : spent s' = spent s := by
  have framed := frames s
  rwa [run] at framed

theorem Frames.grows (frames : Frames spent m) : Grows spent m := fun _ _ _ run => Nat.le_of_eq (frames_ok frames run).symm

theorem grows_bind (first : Grows spent m) (second : ∀ a, Grows spent (f a)) : Grows spent (m >>= f) := by
  intro s c s'' run
  cases ran : m s with
  | ok a s' =>
    rw [bind_ok ran] at run
    exact Nat.le_trans (first s a s' ran) (second a s' c s'' run)
  | error e s' =>
    rw [bind_error ran] at run
    cases run

/-- A computation that spends nothing is not limited. -/
theorem Frames.curbs (frames : Frames spent m) : Curbs spent limit refused m m := by
  intro s below
  refine .inl ⟨rfl, ?_⟩
  intro a s' run
  rw [frames_ok frames run]
  exact below

theorem curbs_bind (first : Curbs spent limit refused m m') (grows : ∀ a, Grows spent (f' a))
    (second : ∀ a, Curbs spent limit refused (f a) (f' a)) : Curbs spent limit refused (m >>= f) (m' >>= f') := by
  intro s below
  rcases first s below with ⟨same, within⟩ | ⟨⟨e, s', stopped, reason⟩, exceeds⟩
  · cases run : m' s with
    | ok a s' =>
      rw [bind_ok (same.trans run), bind_ok run]
      exact second a s' (within a s' run)
    | error e s' =>
      rw [bind_error (same.trans run), bind_error run]
      exact .inl ⟨rfl, fun _ _ impossible => by cases impossible⟩
  · refine .inr ⟨⟨e, s', bind_error stopped, reason⟩, ?_⟩
    intro c s'' ran
    cases run : m' s with
    | ok a s' =>
      rw [bind_ok run] at ran
      exact Nat.lt_of_lt_of_le (exceeds a s' run) (grows a s' c s'' ran)
    | error e s' =>
      rw [bind_error run] at ran
      cases ran

end

/-! ### Shadows -/

/-- While `m` goes on, so does `v` on the part `π` of the state, with a related
    result. Where `m` fails, either it fails with an error of its own, and `v`
    gets `ahead`, or both fail in the same place. -/
def Shadows (π : σ → ρ) (ahead : ρ → ρ → Prop) (own : ε → Prop) (related : α → β → Prop) (m : EStateM ε σ α)
    (v : EStateM ε' ρ β) : Prop :=
  ∀ s, match m s with
    | .ok a s' => ∃ b, v (π s) = .ok b (π s') ∧ related a b
    | .error e s' => own e ∧ ahead (π s') (after (v (π s))) ∨ ∃ e', v (π s) = .error e' (π s')

/-- A computation whose state only gets ahead. -/
def Advances (ahead : ρ → ρ → Prop) (v : EStateM ε' ρ β) : Prop := ∀ r, ahead r (after (v r))

section
variable {π : σ → ρ} {ahead : ρ → ρ → Prop} {own : ε → Prop} {related : α → β → Prop} {v : EStateM ε' ρ β}

theorem advances_bind {δ : Type} {k : β → EStateM ε' ρ δ} (trans : ∀ a b c, ahead a b → ahead b c → ahead a c)
    (first : Advances ahead v) (second : ∀ b, Advances ahead (k b)) : Advances ahead (v >>= k) := by
  intro r
  have begun := first r
  cases run : v r with
  | ok b r' =>
    rw [run] at begun
    rw [bind_ok run]
    exact trans _ _ _ begun (second b r')
  | error e r' =>
    rw [run] at begun
    rw [bind_error run]
    exact begun

theorem shadows_pure {a : α} {b : β} (same : related a b) :
    Shadows π ahead own related (pure a : EStateM ε σ α) (pure b : EStateM ε' ρ β) :=
  fun _ => ⟨b, rfl, same⟩

/-- A failure of its own, wherever the other computation gets. -/
theorem shadows_throw {e : ε} (mine : own e) (advances : Advances ahead v) :
    Shadows π ahead own related (throw e : EStateM ε σ α) v :=
  fun s => .inl ⟨mine, advances (π s)⟩

theorem shadows_fail (e : ε) (e' : ε') :
    Shadows π ahead own related (throw e : EStateM ε σ α) (throw e' : EStateM ε' ρ β) :=
  fun _ => .inr ⟨e', rfl⟩

theorem shadows_bind {δ : Type} {k : β → EStateM ε' ρ δ} {related' : γ → δ → Prop}
    (trans : ∀ a b c, ahead a b → ahead b c → ahead a c) (advances : ∀ b, Advances ahead (k b))
    (first : Shadows π ahead own related m v) (second : ∀ a b, related a b → Shadows π ahead own related' (f a) (k b)) :
    Shadows π ahead own related' (m >>= f) (v >>= k) := by
  intro s
  have begun := first s
  cases run : m s with
  | ok a s' =>
    simp only [run] at begun
    obtain ⟨b, ran, same⟩ := begun
    rw [bind_ok run, bind_ok ran]
    exact second a b same s'
  | error e s' =>
    simp only [run] at begun
    rw [bind_error run]
    rcases begun with ⟨mine, further⟩ | ⟨e', ran⟩
    · refine .inl ⟨mine, ?_⟩
      cases ran : v (π s) with
      | ok b r =>
        rw [ran] at further
        rw [bind_ok ran]
        exact trans _ _ _ further (advances b r)
      | error e' r =>
        rw [ran] at further
        rw [bind_error ran]
        exact further
    · exact .inr ⟨e', bind_error ran⟩

/-- A step that leaves the common part alone, in front of a computation that
    is shadowed. -/
theorem shadows_aside {P : α → Prop} {related' : γ → β → Prop} (trans : ∀ a b c, ahead a b → ahead b c → ahead a c)
    (advances : Advances ahead v) (first : Shadows π ahead own (fun a _ => P a) m (pure () : EStateM ε' ρ Unit))
    (second : ∀ a, P a → Shadows π ahead own related' (f a) v) : Shadows π ahead own related' (m >>= f) v := by
  have both := shadows_bind (k := fun _ => v) trans (fun _ => advances) first (fun a _ holds => second a holds)
  rwa [pure_bind] at both

end

end Roll.Outcome
