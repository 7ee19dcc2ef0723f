import Mathlib.Algebra.BigOperators.Fin
import Mathlib.Data.Nat.ModEq
import Mathlib.Tactic.Ring

/-!
Polynomial values of words over the natural numbers, and how the value of a
window changes when it moves on by one digit.
-/
namespace Roll.RollingSum

/-- The value of the digits `w` in base `a`, the most significant first. -/
def value (a : Nat) (w : List Nat) : Nat := w.foldl (fun h b => a * h + b) 0

theorem value_append (a : Nat) (w : List Nat) (c : Nat) : value a (w ++ [c]) = a * value a w + c := by
  simp [value]

theorem foldl_from (a : Nat) : ∀ (w : List Nat) (h : Nat),
    w.foldl (fun h b => a * h + b) h = h * a ^ w.length + value a w := by
  intro w
  induction w with
  | nil =>
    intro h
    simp [value]
  | cons b w ih =>
    intro h
    have first : value a (b :: w) = w.foldl (fun h b => a * h + b) (a * 0 + b) := rfl
    rw [List.foldl_cons, ih, first, ih, List.length_cons, Nat.pow_succ]
    ring

theorem value_cons (a b : Nat) (w : List Nat) : value a (b :: w) = b * a ^ w.length + value a w := by
  have first : value a (b :: w) = w.foldl (fun h b => a * h + b) (a * 0 + b) := rfl
  rw [first, foldl_from]
  ring

/-- The value as a sum over the places. -/
theorem value_sum (a : Nat) (w : List Nat) : value a w = ∑ i : Fin w.length, w[i] * a ^ (w.length - 1 - i) := by
  induction w with
  | nil => rfl
  | cons b w ih =>
    have first : ∀ i : Fin w.length, (b :: w)[i.succ] * a ^ ((b :: w).length - 1 - i.succ) = w[i] * a ^ (w.length - 1 - i) := by
      intro i
      have exponent : (b :: w).length - 1 - (i.succ : Nat) = w.length - 1 - i := by
        simp only [List.length_cons, Fin.val_succ]
        omega
      rw [exponent]
      rfl
    rw [value_cons, ih]
    exact ((Fin.sum_univ_succ (fun i : Fin (b :: w).length => (b :: w)[i] * a ^ ((b :: w).length - 1 - i))).trans
      (congrArg₂ (· + ·) rfl (Finset.sum_congr rfl fun i _ => first i))).symm

/-- Folding with a reduction at every digit. -/
theorem foldl_mod (a m : Nat) : ∀ (w : List Nat) (h : Nat),
    w.foldl (fun h b => (a * h + b) % m) (h % m) = w.foldl (fun h b => a * h + b) h % m := by
  intro w
  induction w with
  | nil =>
    intro h
    rfl
  | cons b w ih =>
    intro h
    have step : (a * (h % m) + b) % m = (a * h + b) % m :=
      Nat.ModEq.add_right b (Nat.ModEq.mul_left a (Nat.mod_modEq h m))
    rw [List.foldl_cons, List.foldl_cons, step, ih]

/-- The window `b w` loses `b` and gains `c`. -/
theorem value_roll {a m b c h : Nat} {w : List Nat} (positive : 0 < m) (power : h % m = a ^ w.length % m) :
    (a * (value a (b :: w) % m + m - b * h % m) + c) % m = value a (w ++ [c]) % m := by
  have below : b * h % m < m := Nat.mod_lt _ positive
  have evicted : b * h % m ≡ b * a ^ w.length [MOD m] :=
    (Nat.mod_modEq _ _).trans (Nat.ModEq.mul_left b power)
  have restored : value a (b :: w) % m + m - b * h % m + b * a ^ w.length ≡ value a w + b * a ^ w.length [MOD m] := by
    calc value a (b :: w) % m + m - b * h % m + b * a ^ w.length
        ≡ value a (b :: w) % m + m - b * h % m + b * h % m [MOD m] := Nat.ModEq.add_left _ evicted.symm
      _ = value a (b :: w) % m + m := by omega
      _ ≡ value a (b :: w) [MOD m] := by
        show (value a (b :: w) % m + m) % m = value a (b :: w) % m
        rw [Nat.add_mod_right, Nat.mod_mod]
      _ = value a w + b * a ^ w.length := by rw [value_cons]; ring
  have rest : value a (b :: w) % m + m - b * h % m ≡ value a w [MOD m] := Nat.ModEq.add_right_cancel' _ restored
  rw [value_append]
  exact Nat.ModEq.add_right c (Nat.ModEq.mul_left a rest)

end Roll.RollingSum
