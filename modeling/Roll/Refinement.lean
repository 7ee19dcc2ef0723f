import Mathlib.Algebra.Ring.Nat
import Mathlib.Data.List.Basic

/-!
Machines that take a step for each action, and what is seen of a run.

A machine refines another one where every step of it is, seen from outside, some
steps of the other. The relation between the states may hold the invariants of
the machine as well; it is kept by single steps, and so by runs.
-/
namespace Roll.Refinement

variable {σ α τ β : Type}

/-- What an action makes of a state, and the events that are seen of it. -/
structure Machine (σ α β : Type) where
  step : σ → α → σ
  events : σ → α → List β

namespace Machine

def run (m : Machine σ α β) (s : σ) (actions : List α) : σ := actions.foldl m.step s

/-- The events of a run. -/
def history (m : Machine σ α β) : σ → List α → List β
  | _, [] => []
  | s, action :: rest => m.events s action ++ m.history (m.step s action) rest

variable (m : Machine σ α β)

theorem run_append (s : σ) (first second : List α) : m.run s (first ++ second) = m.run (m.run s first) second :=
  List.foldl_append

/-- An invariant of the steps is one of the runs. -/
theorem run_keeps {P : σ → Prop} {allowed : α → Prop}
    (step : ∀ s action, P s → allowed action → P (m.step s action)) : ∀ {actions : List α} {s : σ}, P s →
      (∀ action ∈ actions, allowed action) → P (m.run s actions) := by
  intro actions
  induction actions with
  | nil => exact fun holds _ => holds
  | cons action rest ih =>
    intro s holds all
    exact ih (step s action holds (all action List.mem_cons_self)) fun a member => all a (List.mem_cons_of_mem _ member)

/-- Where each step pays its costs from its grant and from what the potential has risen,
    so does a run. -/
theorem run_pays {m : Machine σ α Nat} {P : σ → Prop} {φ : σ → Nat} {grant : Nat}
    (keeps : ∀ s action, P s → P (m.step s action))
    (pays : ∀ s action, P s → (m.events s action).sum + φ s ≤ φ (m.step s action) + grant) :
    ∀ (actions : List α) {s : σ}, P s →
      (m.history s actions).sum + φ s ≤ φ (m.run s actions) + grant * actions.length := by
  intro actions
  induction actions with
  | nil =>
    intro s _
    show 0 + φ s ≤ φ s + grant * 0
    omega
  | cons action rest ih =>
    intro s holds
    have first := pays s action holds
    have later := ih (keeps s action holds)
    rw [history, List.sum_append_nat, List.length_cons, Nat.mul_succ]
    rw [show m.run s (action :: rest) = m.run (m.step s action) rest from rfl]
    omega

/-- Costs that are paid so come to no more than the potential may reach and the grants. -/
theorem total_cost {m : Machine σ α Nat} {P : σ → Prop} {φ : σ → Nat} {capacity grant : Nat}
    (keeps : ∀ s action, P s → P (m.step s action)) (bounded : ∀ s, P s → φ s ≤ capacity)
    (pays : ∀ s action, P s → (m.events s action).sum + φ s ≤ φ (m.step s action) + grant)
    {actions : List α} {s : σ} (holds : P s) : (m.history s actions).sum ≤ capacity + grant * actions.length := by
  have whole := run_pays keeps pays actions holds
  have reached : P (m.run s actions) :=
    m.run_keeps (fun s action holds (_ : True) => keeps s action holds) holds fun _ _ => trivial
  have within := bounded _ reached
  omega

/-- Where each step adds its events to what the state holds, a run adds its history. -/
theorem run_collects {m : Machine σ α β} {ψ : σ → List β}
    (adds : ∀ s action, (ψ (m.step s action)).Perm (ψ s ++ m.events s action)) :
    ∀ (actions : List α) (s : σ), (ψ (m.run s actions)).Perm (ψ s ++ m.history s actions) := by
  intro actions
  induction actions with
  | nil =>
    intro s
    rw [history, List.append_nil]
    exact .refl _
  | cons action rest ih =>
    intro s
    rw [history, ← List.append_assoc]
    exact (ih (m.step s action)).trans ((adds s action).append_right _)

end Machine

/-- Each step of `m` that is allowed is its events at `apply`. -/
def Refines (m : Machine σ α β) (apply : τ → β → τ) (allowed : α → Prop) (R : σ → τ → Prop) : Prop :=
  ∀ s t action, R s t → allowed action → R (m.step s action) ((m.events s action).foldl apply t)

/-- A run is its history. -/
theorem Refines.run {m : Machine σ α β} {apply : τ → β → τ} {allowed : α → Prop} {R : σ → τ → Prop}
    (refines : Refines m apply allowed R) : ∀ {actions : List α} {s : σ} {t : τ}, R s t →
      (∀ action ∈ actions, allowed action) → R (m.run s actions) ((m.history s actions).foldl apply t) := by
  intro actions
  induction actions with
  | nil => exact fun related _ => related
  | cons action rest ih =>
    intro s t related all
    rw [Machine.history, List.foldl_append]
    exact ih (refines s t action related (all action List.mem_cons_self))
      fun a member => all a (List.mem_cons_of_mem _ member)

end Roll.Refinement
