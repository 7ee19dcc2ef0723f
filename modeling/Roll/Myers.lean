import Mathlib.Data.List.Basic
import Mathlib.Tactic.Linarith

/-!
The furthest points of an edit graph.

A path in the graph of two lists moves right where it deletes a symbol of the
first list, down where it inserts one of the second and along a diagonal where
it keeps a common one. On each diagonal `k`, of the points `(x, x - k)`,
`furthest` is the greatest `x` that the greedy rule reaches with `d` moves off
the diagonals. The points are not stopped at the borders of the graph; still
the first one beyond both ends is the end of both lists itself.
-/
namespace Roll.Myers

variable {β : Type} [DecidableEq β]

/-! ### Slides -/

/-- The length of the common beginning. -/
def common : List β → List β → Nat
  | x :: xs, y :: ys => if x = y then common xs ys + 1 else 0
  | _, _ => 0

theorem common_le : ∀ (xs ys : List β), common xs ys ≤ xs.length ∧ common xs ys ≤ ys.length := by
  intro xs
  induction xs with
  | nil =>
    intro ys
    simp [common]
  | cons x xs ih =>
    intro ys
    cases ys with
    | nil => simp [common]
    | cons y ys =>
      have rest := ih ys
      unfold common
      split
      · simp only [List.length_cons]
        omega
      · exact ⟨Nat.zero_le _, Nat.zero_le _⟩

theorem common_get : ∀ (xs ys : List β) {i : Nat}, i < common xs ys → ∃ c, xs[i]? = some c ∧ ys[i]? = some c := by
  intro xs
  induction xs with
  | nil =>
    intro ys i inside
    simp [common] at inside
  | cons x xs ih =>
    intro ys i inside
    cases ys with
    | nil => simp [common] at inside
    | cons y ys =>
      unfold common at inside
      split at inside
      · next same =>
        cases i with
        | zero => exact ⟨x, rfl, by rw [same]; rfl⟩
        | succ i => exact ih ys (by omega)
      · omega

theorem common_stops : ∀ (xs ys : List β) {c : β}, xs[common xs ys]? = some c → ys[common xs ys]? = some c → False := by
  intro xs
  induction xs with
  | nil =>
    intro ys c left _
    cases left
  | cons x xs ih =>
    intro ys c left right
    cases ys with
    | nil => cases right
    | cons y ys =>
      unfold common at left right
      by_cases same : x = y
      · rw [if_pos same, List.getElem?_cons_succ] at left right
        exact ih ys left right
      · rw [if_neg same] at left right
        obtain rfl : x = c := by simpa using left
        obtain rfl : y = x := by simpa using right
        exact same rfl

variable {a b : List β}

/-- From `(x, x - k)` along the diagonal while the symbols agree. -/
def slide (a b : List β) (k x : Int) : Int := x + common (a.drop x.toNat) (b.drop (x - k).toNat)

theorem le_slide (k x : Int) : x ≤ slide a b k x := by
  unfold slide
  omega

/-- Beyond the end of the first list nothing slides. -/
theorem slide_over_left {k x : Int} (nonneg : 0 ≤ x) (beyond : (a.length : Int) < slide a b k x) : slide a b k x = x := by
  have bound := (common_le (a.drop x.toNat) (b.drop (x - k).toNat)).1
  rw [List.length_drop] at bound
  unfold slide at beyond ⊢
  omega

/-- Beyond the end of the second list nothing slides. -/
theorem slide_over_right {k x : Int} (nonneg : k ≤ x) (beyond : (b.length : Int) < slide a b k x - k) :
    slide a b k x = x := by
  have bound := (common_le (a.drop x.toNat) (b.drop (x - k).toNat)).2
  rw [List.length_drop] at bound
  unfold slide at beyond ⊢
  omega

/-- The symbols under a slide agree. -/
theorem slide_same {k x : Int} (nonneg : 0 ≤ x) (nonneg' : k ≤ x) {i : Int} (behind : x ≤ i) (before : i < slide a b k x) :
    ∃ c, a[i.toNat]? = some c ∧ b[(i - k).toNat]? = some c := by
  unfold slide at before
  obtain ⟨c, left, right⟩ := common_get (a.drop x.toNat) (b.drop (x - k).toNat) (i := (i - x).toNat) (by omega)
  rw [List.getElem?_drop] at left right
  refine ⟨c, ?_, ?_⟩
  · rw [← left]
    congr 1
    omega
  · rw [← right]
    congr 1
    omega

/-- A slide only stops where the symbols differ. -/
theorem slide_stops {k x : Int} (nonneg : 0 ≤ x) (nonneg' : k ≤ x) {c : β} (left : a[(slide a b k x).toNat]? = some c)
    (right : b[(slide a b k x - k).toNat]? = some c) : False := by
  unfold slide at left right
  apply common_stops (a.drop x.toNat) (b.drop (x - k).toNat) (c := c)
  · rw [List.getElem?_drop, ← left]
    congr 1
    omega
  · rw [List.getElem?_drop, ← right]
    congr 1
    omega

/-! ### Furthest points -/

/-- Diagonal `k` is reached with `d` moves off the diagonals. -/
structure Diagonal (d : Nat) (k : Int) : Prop where
  low : -(d : Int) ≤ k
  high : k ≤ d
  parity : (k + d) % 2 = 0

/-- Diagonal `k` of distance `d + 1` is entered from above. -/
def FromAbove (values : Int → Int) (d : Nat) (k : Int) : Prop :=
  k = -((d : Int) + 1) ∨ k ≠ (d : Int) + 1 ∧ values (k - 1) < values (k + 1)

instance (values : Int → Int) (d : Nat) (k : Int) : Decidable (FromAbove values d k) :=
  inferInstanceAs (Decidable (_ ∨ _))

/-- Where diagonal `k` of distance `d + 1` is entered. -/
def entry (values : Int → Int) (d : Nat) (k : Int) : Int :=
  if FromAbove values d k then values (k + 1) else values (k - 1) + 1

def furthest (a b : List β) : Nat → Int → Int
  | 0, k => slide a b k 0
  | d + 1, k => slide a b k (entry (furthest a b d) d k)

theorem diagonal_zero {k : Int} (diagonal : Diagonal 0 k) : k = 0 := by
  obtain ⟨low, high, _⟩ := diagonal
  omega

/-- A diagonal is entered from one of its neighbours. -/
theorem entry_cases (values : Int → Int) {d : Nat} {k : Int} (diagonal : Diagonal (d + 1) k) :
    FromAbove values d k ∧ Diagonal d (k + 1) ∧ entry values d k = values (k + 1) ∨
      ¬ FromAbove values d k ∧ Diagonal d (k - 1) ∧ entry values d k = values (k - 1) + 1 := by
  obtain ⟨low, high, parity⟩ := diagonal
  push_cast at low high parity
  by_cases above : FromAbove values d k
  · left
    refine ⟨above, ⟨by omega, ?_, by omega⟩, if_pos above⟩
    rcases above with first | ⟨inner, _⟩ <;> omega
  · right
    refine ⟨above, ⟨?_, by omega, by omega⟩, if_neg above⟩
    have outer : k ≠ -((d : Int) + 1) := fun first => above (.inl first)
    omega

/-- The points lie within the quadrant of the graph. -/
theorem furthest_nonneg : ∀ {d : Nat} {k : Int}, Diagonal d k → 0 ≤ furthest a b d k ∧ k ≤ furthest a b d k := by
  intro d
  induction d with
  | zero =>
    intro k diagonal
    have here := le_slide (a := a) (b := b) k 0
    rw [diagonal_zero diagonal] at here ⊢
    exact ⟨here, here⟩
  | succ d ih =>
    intro k diagonal
    have here := le_slide (a := a) (b := b) k (entry (furthest a b d) d k)
    unfold furthest
    rcases entry_cases (furthest a b d) diagonal with ⟨_, neighbour, enters⟩ | ⟨_, neighbour, enters⟩
    · have := ih neighbour
      omega
    · have := ih neighbour
      omega

theorem entry_nonneg {d : Nat} {k : Int} (diagonal : Diagonal (d + 1) k) :
    0 ≤ entry (furthest a b d) d k ∧ k ≤ entry (furthest a b d) d k := by
  rcases entry_cases (furthest a b d) diagonal with ⟨_, neighbour, enters⟩ | ⟨_, neighbour, enters⟩
  · have := furthest_nonneg (a := a) (b := b) neighbour
    omega
  · have := furthest_nonneg (a := a) (b := b) neighbour
    omega

/-- A move down from the diagonal above stays behind the furthest point. -/
theorem above_le {d : Nat} {k : Int} (neighbour : Diagonal d (k + 1)) :
    furthest a b d (k + 1) ≤ furthest a b (d + 1) k := by
  have here := le_slide (a := a) (b := b) k (entry (furthest a b d) d k)
  have upper := neighbour.high
  show _ ≤ slide a b k (entry (furthest a b d) d k)
  by_cases above : FromAbove (furthest a b d) d k
  · rw [entry, if_pos above] at here ⊢
    exact here
  · rw [entry, if_neg above] at here ⊢
    have behind : ¬ furthest a b d (k - 1) < furthest a b d (k + 1) := fun less => above (.inr ⟨by omega, less⟩)
    omega

/-- So does a move to the right from the diagonal on the left. -/
theorem left_le {d : Nat} {k : Int} (neighbour : Diagonal d (k - 1)) :
    furthest a b d (k - 1) + 1 ≤ furthest a b (d + 1) k := by
  have here := le_slide (a := a) (b := b) k (entry (furthest a b d) d k)
  have lower := neighbour.low
  show _ ≤ slide a b k (entry (furthest a b d) d k)
  by_cases above : FromAbove (furthest a b d) d k
  · rw [entry, if_pos above] at here ⊢
    rcases above with first | ⟨_, less⟩
    · omega
    · omega
  · rw [entry, if_neg above] at here ⊢
    exact here

/-! ### The ends -/

/-- A point beyond the end of the first list comes from the left. -/
theorem over_left : ∀ {d : Nat} {k : Int}, Diagonal d k → (a.length : Int) < furthest a b d k →
    ∃ e, d = e + 1 ∧ Diagonal e (k - 1) ∧ furthest a b d k ≤ furthest a b e (k - 1) + 1 := by
  intro d
  induction d with
  | zero =>
    intro k diagonal beyond
    have stuck := slide_over_left (a := a) (b := b) (k := k) (Int.le_refl 0) beyond
    unfold furthest at beyond
    omega
  | succ d ih =>
    intro k diagonal beyond
    have stuck : furthest a b (d + 1) k = entry (furthest a b d) d k :=
      slide_over_left (entry_nonneg diagonal).1 beyond
    rcases entry_cases (furthest a b d) diagonal with ⟨_, neighbour, enters⟩ | ⟨_, neighbour, enters⟩
    · -- What came down from there was beyond before, so it came from the left.
      obtain ⟨e, rfl, further, le⟩ := ih neighbour (by omega)
      rw [Int.add_sub_cancel] at further le
      have low := further.low
      have high := further.high
      have parity := further.parity
      have corner : Diagonal (e + 1) (k - 1) := ⟨by push_cast; omega, by push_cast; omega, by push_cast; omega⟩
      have down := above_le (a := a) (b := b) (d := e) (k := k - 1) (by rw [Int.sub_add_cancel]; exact further)
      rw [Int.sub_add_cancel] at down
      exact ⟨e + 1, rfl, corner, by omega⟩
    · exact ⟨d, rfl, neighbour, by omega⟩

/-- A point beyond the end of the second list comes from above. -/
theorem over_right : ∀ {d : Nat} {k : Int}, Diagonal d k → (b.length : Int) < furthest a b d k - k →
    ∃ e, d = e + 1 ∧ Diagonal e (k + 1) ∧ furthest a b d k ≤ furthest a b e (k + 1) := by
  intro d
  induction d with
  | zero =>
    intro k diagonal beyond
    have zero := diagonal_zero diagonal
    have stuck := slide_over_right (a := a) (b := b) (k := k) (x := 0) (by omega) beyond
    unfold furthest at beyond
    omega
  | succ d ih =>
    intro k diagonal beyond
    have stuck : furthest a b (d + 1) k = entry (furthest a b d) d k :=
      slide_over_right (entry_nonneg diagonal).2 beyond
    rcases entry_cases (furthest a b d) diagonal with ⟨_, neighbour, enters⟩ | ⟨_, neighbour, enters⟩
    · exact ⟨d, rfl, neighbour, by omega⟩
    · obtain ⟨e, rfl, further, le⟩ := ih neighbour (by omega)
      rw [Int.sub_add_cancel] at further le
      have low := further.low
      have high := further.high
      have parity := further.parity
      have corner : Diagonal (e + 1) (k + 1) := ⟨by push_cast; omega, by push_cast; omega, by push_cast; omega⟩
      have right := left_le (a := a) (b := b) (d := e) (k := k + 1) (by rw [Int.add_sub_cancel]; exact further)
      rw [Int.add_sub_cancel] at right
      exact ⟨e + 1, rfl, corner, by omega⟩

/-- The furthest point of a diagonal is beyond both ends. -/
def Ends (a b : List β) (d : Nat) (k : Int) : Prop :=
  (a.length : Int) ≤ furthest a b d k ∧ (b.length : Int) ≤ furthest a b d k - k

/-- The first point beyond both ends is the end of both lists. -/
theorem first_end {d : Nat} {k : Int} (diagonal : Diagonal d k) (ends : Ends a b d k)
    (first : ∀ e < d, ∀ j, Diagonal e j → ¬ Ends a b e j) :
    furthest a b d k = a.length ∧ furthest a b d k - k = b.length := by
  obtain ⟨left, right⟩ := ends
  constructor
  · by_contra other
    obtain ⟨e, rfl, neighbour, le⟩ := over_left (a := a) (b := b) diagonal (by omega)
    exact first e (Nat.lt_succ_self e) (k - 1) neighbour ⟨by omega, by omega⟩
  · by_contra other
    obtain ⟨e, rfl, neighbour, le⟩ := over_right (a := a) (b := b) diagonal (by omega)
    exact first e (Nat.lt_succ_self e) (k + 1) neighbour ⟨by omega, by omega⟩

end Roll.Myers
