import Roll.Diff
import Roll.Myers
import Mathlib.Tactic.Ring

/-!
The search for a shortest edit script stays within its buffers, and a script it
finds turns the old data into the new.
-/
namespace Roll.Searching
open Roll.Myers

/-- A script turns one list into another. -/
inductive Turns : List Edit → List UInt8 → List UInt8 → Prop
  | nil : Turns [] [] []
  | keep {ses : List Edit} {a b : List UInt8} (c : UInt8) : Turns ses a b → Turns (.keep :: ses) (c :: a) (c :: b)
  | delete {ses : List Edit} {a b : List UInt8} (c : UInt8) : Turns ses a b → Turns (.delete :: ses) (c :: a) b
  | insert {ses : List Edit} {a b : List UInt8} (c : UInt8) : Turns ses a b → Turns (.insert :: ses) a (c :: b)

/-- The entries of a script that keep nothing. -/
def changes (ses : List Edit) : Nat := ses.countP (· ≠ .keep)

@[simp] theorem changes_keep (ses : List Edit) : changes (.keep :: ses) = changes ses := rfl

@[simp] theorem changes_delete (ses : List Edit) : changes (.delete :: ses) = changes ses + 1 := by
  simp [changes]

@[simp] theorem changes_insert (ses : List Edit) : changes (.insert :: ses) = changes ses + 1 := by
  simp [changes]

theorem turns_deletes (a : List UInt8) : Turns (List.replicate a.length .delete) a [] := by
  induction a with
  | nil => exact .nil
  | cons c a ih => exact .delete c ih

theorem turns_inserts (b : List UInt8) : Turns (List.replicate b.length .insert) [] b := by
  induction b with
  | nil => exact .nil
  | cons c b ih => exact .insert c ih

/-! ### Buffers -/

theorem at_nonneg {α : Type} (xs : List α) {i : Int} (nonneg : 0 ≤ i) : Diff.at_ xs i = xs[i.toNat]? :=
  if_neg (Int.not_lt.mpr nonneg)

theorem at_some {α : Type} (xs : List α) {i : Int} (nonneg : 0 ≤ i) (inside : i < xs.length) :
    ∃ x, Diff.at_ xs i = some x := by
  rw [at_nonneg xs nonneg]
  exact ⟨_, List.getElem?_eq_getElem (by omega)⟩

/-- An element is assigned, and the others stay. -/
theorem put_spec (xs : List Int) {i : Int} (x : Int) (nonneg : 0 ≤ i) (inside : i < xs.length) :
    ∃ ys, Diff.put xs i x = some ys ∧ ys.length = xs.length ∧ Diff.at_ ys i = some x ∧
      ∀ j, j ≠ i → Diff.at_ ys j = Diff.at_ xs j := by
  refine ⟨xs.set i.toNat x, if_neg (by omega), List.length_set, ?_, ?_⟩
  · rw [at_nonneg _ nonneg, List.getElem?_set_self (by omega)]
  · intro j other
    unfold Diff.at_
    split
    · rfl
    · rw [List.getElem?_set_ne (by omega)]

theorem drop_get {α : Type} {xs : List α} {i : Nat} {c : α} (here : xs[i]? = some c) : xs.drop i = c :: xs.drop (i + 1) := by
  obtain ⟨inside, rfl⟩ := List.getElem?_eq_some_iff.mp here
  exact List.drop_eq_getElem_cons inside

theorem drop_cons {α : Type} {xs rest : List α} {n : Nat} {c : α} (split : xs.drop n = c :: rest) :
    xs[n]? = some c ∧ rest = xs.drop (n + 1) ∧ n + 1 ≤ xs.length := by
  have inside : n < xs.length := by
    by_contra beyond
    rw [List.drop_of_length_le (by omega)] at split
    cases split
  rw [List.drop_eq_getElem_cons inside] at split
  obtain ⟨rfl, rfl⟩ := List.cons.inj split
  exact ⟨List.getElem?_eq_getElem inside, rfl, inside⟩

variable {a b : List UInt8}

/-! ### Snakes -/

theorem snake_spec : ∀ (fuel : Nat) (x y : Int), 0 ≤ x → 0 ≤ y → common (a.drop x.toNat) (b.drop y.toNat) ≤ fuel →
    Diff.snake a b fuel x y = some (x + common (a.drop x.toNat) (b.drop y.toNat)) := by
  intro fuel
  induction fuel with
  | zero =>
    intro x y _ _ enough
    have none : common (a.drop x.toNat) (b.drop y.toNat) = 0 := by omega
    rw [none]
    simp [Diff.snake]
  | succ fuel ih =>
    intro x y nonneg nonneg' enough
    unfold Diff.snake
    by_cases inside : x < a.length ∧ y < b.length
    · obtain ⟨p, left⟩ := at_some a nonneg inside.1
      obtain ⟨q, right⟩ := at_some b nonneg' inside.2
      rw [if_pos inside, left, right]
      simp only [Option.bind_eq_bind, Option.bind_some]
      rw [at_nonneg _ nonneg] at left
      rw [at_nonneg _ nonneg'] at right
      have next : (x + 1).toNat = x.toNat + 1 := by omega
      have next' : (y + 1).toNat = y.toNat + 1 := by omega
      rw [drop_get left, drop_get right, common] at enough ⊢
      by_cases same : p = q
      · rw [if_pos same] at enough ⊢
        rw [if_pos same, ih (x + 1) (y + 1) (by omega) (by omega) (by rw [next, next']; omega), next, next']
        congr 1
        push_cast
        omega
      · rw [if_neg same, if_neg same]
        simp
    · rw [if_neg inside]
      have none : common (a.drop x.toNat) (b.drop y.toNat) = 0 := by
        have bounds := common_le (a.drop x.toNat) (b.drop y.toNat)
        rw [List.length_drop, List.length_drop] at bounds
        omega
      rw [none]
      simp

theorem snake_slide {x k : Int} (nonneg : 0 ≤ x) (nonneg' : k ≤ x) :
    Diff.snake a b a.length x (x - k) = some (slide a b k x) := by
  have bound := (common_le (a.drop x.toNat) (b.drop (x - k).toNat)).1
  rw [List.length_drop] at bound
  exact snake_spec a.length x (x - k) nonneg (by omega) (by omega)

/-! ### Levels -/

/-- The buffer holds the furthest points of distance `d`, diagonal `k` at
    `base + k`. -/
def Level (a b : List UInt8) (d : Nat) (values : List Int) (base : Int) : Prop :=
  ∀ j, Diagonal d j → Diff.at_ values (base + j) = some (furthest a b d j)

theorem entered_spec {d : Nat} {k : Int} {values : List Int} {base : Int} (diagonal : Diagonal (d + 1) k)
    (level : Level a b d values base) :
    Diff.entered values base ((d + 1 : Nat) : Int) k =
      some (decide (FromAbove (furthest a b d) d k),
        if FromAbove (furthest a b d) d k then furthest a b d (k + 1) else furthest a b d (k - 1)) := by
  obtain ⟨low, high, parity⟩ := diagonal
  push_cast at low high parity
  have left : k ≠ -((d : Int) + 1) → Diff.at_ values (base + k - 1) = some (furthest a b d (k - 1)) := by
    intro outer
    rw [Int.add_sub_assoc]
    exact level (k - 1) ⟨by omega, by omega, by omega⟩
  have above : k ≠ (d : Int) + 1 → Diff.at_ values (base + k + 1) = some (furthest a b d (k + 1)) := by
    intro outer
    rw [Int.add_assoc]
    exact level (k + 1) ⟨by omega, by omega, by omega⟩
  unfold Diff.entered
  push_cast
  by_cases first : k = -((d : Int) + 1)
  · have is : FromAbove (furthest a b d) d k := .inl first
    rw [if_pos first, above (by omega), if_pos is, decide_eq_true is]
    rfl
  · rw [if_neg first]
    by_cases last : k = (d : Int) + 1
    · have not : ¬ FromAbove (furthest a b d) d k := by
        rintro (is | ⟨inner, _⟩)
        · exact first is
        · exact inner last
      rw [if_pos last, left first, if_neg not, decide_eq_false not]
      rfl
    · rw [if_neg last, left first, above last]
      simp only [Option.bind_eq_bind, Option.bind_some]
      by_cases less : furthest a b d (k - 1) < furthest a b d (k + 1)
      · have is : FromAbove (furthest a b d) d k := .inr ⟨last, less⟩
        rw [if_pos less, if_pos is, decide_eq_true is]
      · have not : ¬ FromAbove (furthest a b d) d k := by
          rintro (is | ⟨_, is⟩)
          · exact first is
          · exact less is
        rw [if_neg less, if_neg not, decide_eq_false not]

/-- The buffer before the diagonals of distance `d`. -/
def Before (a b : List UInt8) : Nat → List Int → Int → Prop
  | 0, v, offset => Diff.at_ v (offset + 1) = some 0
  | d + 1, v, offset => Level a b d v offset

/-- Where a diagonal of distance `d` starts to slide. -/
def startOf (a b : List UInt8) : Nat → Int → Int
  | 0, _ => 0
  | d + 1, k => entry (furthest a b d) d k

theorem furthest_start (d : Nat) (k : Int) : furthest a b d k = slide a b k (startOf a b d k) := by
  cases d <;> rfl

theorem start_nonneg {d : Nat} {k : Int} (diagonal : Diagonal d k) : 0 ≤ startOf a b d k ∧ k ≤ startOf a b d k := by
  cases d with
  | zero =>
    have zero := diagonal_zero diagonal
    exact ⟨Int.le_refl 0, Int.le_of_eq zero⟩
  | succ d => exact entry_nonneg diagonal

/-- A diagonal is entered where its furthest point starts. -/
theorem entered_start {d : Nat} {k : Int} {v : List Int} {offset : Int} (diagonal : Diagonal d k)
    (before : Before a b d v offset) : ∃ above value, Diff.entered v offset d k = some (above, value) ∧
      (if above = true then value else value + 1) = startOf a b d k := by
  cases d with
  | zero =>
    have zero := diagonal_zero diagonal
    subst zero
    refine ⟨true, 0, ?_, rfl⟩
    unfold Diff.entered
    rw [if_pos (by simp), Int.add_zero, show Diff.at_ v (offset + 1) = some 0 from before]
    rfl
  | succ d =>
    refine ⟨_, _, entered_spec diagonal before, ?_⟩
    unfold startOf entry
    by_cases above : FromAbove (furthest a b d) d k
    · simp [above]
    · simp [above]

/-- The loop over the diagonals of a distance, from `k` on. -/
theorem diagonals_spec {d : Nat} {offset : Nat} (within : d ≤ offset) :
    ∀ (fuel : Nat) (k : Int) (v : List Int), (d : Int) < k + 2 * fuel → -(d : Int) ≤ k → (k + d) % 2 = 0 →
      v.length = 2 * offset + 1 → Before a b d v offset →
      (∀ j, Diagonal d j → j < k → Diff.at_ v (offset + j) = some (furthest a b d j) ∧ ¬ Ends a b d j) →
      ∃ reached v', Diff.diagonals a b offset d fuel k v = some (reached, v') ∧ v'.length = 2 * offset + 1 ∧
        (reached = true → ∃ j, Diagonal d j ∧ Ends a b d j) ∧
        (reached = false → Level a b d v' offset ∧ ∀ j, Diagonal d j → ¬ Ends a b d j) := by
  intro fuel
  induction fuel with
  | zero =>
    intro k v enough low parity length before done
    refine ⟨false, v, rfl, length, by simp, fun _ => ?_⟩
    have all : ∀ j, Diagonal d j → j < k := by
      intro j diagonal
      have := diagonal.high
      omega
    exact ⟨fun j diagonal => (done j diagonal (all j diagonal)).1, fun j diagonal => (done j diagonal (all j diagonal)).2⟩
  | succ fuel ih =>
    intro k v enough low parity length before done
    unfold Diff.diagonals
    by_cases more : k ≤ d
    · rw [if_pos more]
      have diagonal : Diagonal d k := ⟨low, more, parity⟩
      obtain ⟨above, value, entered, start⟩ := entered_start diagonal before
      have nonneg := start_nonneg (a := a) (b := b) diagonal
      obtain ⟨v', assigned, length', here, others⟩ := put_spec v (i := offset + k) (furthest a b d k) (by omega)
        (by rw [length]; push_cast; omega)
      rw [entered]
      simp only [Option.bind_eq_bind, Option.bind_some]
      rw [start, snake_slide nonneg.1 nonneg.2, Option.bind_some, ← furthest_start, assigned, Option.bind_some]
      by_cases ends : furthest a b d k ≥ a.length ∧ furthest a b d k - k ≥ b.length
      · rw [if_pos ends]
        exact ⟨true, v', rfl, by rw [length', length], fun _ => ⟨k, diagonal, ends⟩, by simp⟩
      · rw [if_neg ends]
        have before' : Before a b d v' offset := by
          cases d with
          | zero =>
            have zero := diagonal_zero diagonal
            exact (others (offset + 1) (by omega)).trans before
          | succ d =>
            intro j neighbour
            have parity' := neighbour.parity
            rw [others (offset + j) (by push_cast at parity; omega)]
            exact before j neighbour
        refine ih (k + 2) v' (by push_cast at enough; omega) (by omega) (by omega) (by rw [length', length]) before' ?_
        intro j diagonal' behind
        have parity' := diagonal'.parity
        by_cases same : j = k
        · subst same
          exact ⟨here, ends⟩
        · rw [others (offset + j) (by omega)]
          exact done j diagonal' (by omega)
    · rw [if_neg more]
      refine ⟨false, v, rfl, length, by simp, fun _ => ?_⟩
      have all : ∀ j, Diagonal d j → j < k := by
        intro j diagonal
        have := diagonal.high
        omega
      exact ⟨fun j diagonal => (done j diagonal (all j diagonal)).1, fun j diagonal => (done j diagonal (all j diagonal)).2⟩

/-! ### The search -/

theorem best_xy_total {v : List Int} {offset d : Nat} (within : d ≤ offset) (length : v.length = 2 * offset + 1) :
    ∀ (fuel : Nat) (k best : Int), -(d : Int) ≤ k → ∃ most, Diff.best_xy v offset d fuel k best = some most := by
  intro fuel
  induction fuel with
  | zero =>
    intro k best _
    exact ⟨best, rfl⟩
  | succ fuel ih =>
    intro k best low
    unfold Diff.best_xy
    split
    · next more =>
      obtain ⟨x, here⟩ := at_some v (i := offset + k) (by omega) (by rw [length]; push_cast; omega)
      rw [here]
      exact ih (k + 1) _ (by omega)
    · exact ⟨best, rfl⟩

theorem abandons_total {v : List Int} {offset d : Nat} (within : d ≤ offset) (length : v.length = 2 * offset + 1) :
    ∃ abandoned, Diff.abandons v offset d = some abandoned := by
  unfold Diff.abandons
  split
  · obtain ⟨most, best⟩ := best_xy_total within length (2 * (d : Int).toNat + 1) (-d) 0 (Int.le_refl _)
    rw [best]
    exact ⟨_, rfl⟩
  · exact ⟨false, rfl⟩

/-- The snapshots of the distances below `d`. -/
def Traced (a b : List UInt8) (d : Nat) (trace : List Int) : Prop :=
  ∀ e < d, Level a b e trace (e * e + e)

/-- Where a diagonal stands in the trace. -/
theorem trace_index {e : Nat} {j : Int} (low : -(e : Int) ≤ j) :
    0 ≤ (e : Int) * e + e + j ∧ ((e : Int) * e + e + j).toNat = e * e + (e + j).toNat := by
  rw [← Int.natCast_mul]
  omega

/-- What is snapshot later does not change the snapshots. -/
theorem traced_more {d : Nat} {trace : List Int} (size : trace.length = d * d) (traced : Traced a b d trace)
    (more : List Int) : Traced a b d (trace ++ more) := by
  intro e below j diagonal
  have earlier := traced e below j diagonal
  obtain ⟨nonneg, index⟩ := trace_index diagonal.low
  have high := diagonal.high
  have room : (e + 1) * (e + 1) ≤ d * d := Nat.mul_le_mul (by omega) (by omega)
  have expand : (e + 1) * (e + 1) = e * e + 2 * e + 1 := by ring
  rw [at_nonneg _ nonneg, index] at earlier ⊢
  rw [List.getElem?_append_left (by omega)]
  exact earlier

/-- The snapshot of a distance goes behind those before it. -/
theorem traced_append {d offset : Nat} {v trace : List Int} (within : d ≤ offset) (size : trace.length = d * d)
    (traced : Traced a b d trace) (level : Level a b d v offset) :
    Traced a b (d + 1) (trace ++ (v.drop (offset - d)).take (2 * d + 1)) := by
  intro e below j diagonal
  by_cases last : e = d
  · subst last
    have here := level j diagonal
    obtain ⟨nonneg, index⟩ := trace_index diagonal.low
    have low := diagonal.low
    have high := diagonal.high
    rw [at_nonneg _ (by omega)] at here
    rw [at_nonneg _ nonneg, index, List.getElem?_append_right (by omega), size, Nat.add_sub_cancel_left,
      List.getElem?_take_of_lt (by omega), List.getElem?_drop, ← here]
    congr 1
    omega
  · exact traced_more size traced _ e (by omega) j diagonal

/-- A distance at which the content is looked at is large. -/
theorem abandons_late {v : List Int} {offset : Int} {d : Nat} (abandoned : Diff.abandons v offset d = some true) : 256 ≤ d := by
  unfold Diff.abandons at abandoned
  split at abandoned
  · omega
  · cases abandoned

/-- No path of fewer than `d` moves ends. -/
def NoneBefore (a b : List UInt8) (d : Nat) : Prop := ∀ e < d, ∀ j, Diagonal e j → ¬ Ends a b e j

/-- The search ends within its buffers. A distance it finds is the first that leads
    to the end of both inputs; if it finds none, no small one does. -/
theorem search_spec (d_max : Nat) : ∀ (fuel d : Nat) (v trace : List Int), d_max < d + fuel → v.length = 2 * d_max + 1 →
    trace.length = d * d → Before a b d v d_max → Traced a b d trace → NoneBefore a b d →
    ∃ found v' trace', Diff.search a b d_max fuel d v trace = some (found, v', trace') ∧
      match found with
      | some e => NoneBefore a b e ∧ Traced a b e trace' ∧ ∃ k, Diagonal e k ∧ furthest a b e k = a.length ∧
          furthest a b e k - k = b.length
      | none => ∀ e < 256, e ≤ d_max → ∀ j, Diagonal e j → ¬ Ends a b e j := by
  intro fuel
  induction fuel with
  | zero =>
    intro d v trace enough _ _ _ _ first
    exact ⟨none, v, trace, rfl, fun e _ below => first e (by omega)⟩
  | succ fuel ih =>
    intro d v trace enough length size before traced first
    unfold Diff.search
    by_cases within : d ≤ d_max
    · rw [if_pos within]
      obtain ⟨reached, v', looped, length', ended, level⟩ := diagonals_spec within (d + 1) (-d) v (by push_cast; omega)
        (Int.le_refl _) (by omega) length before (fun j diagonal behind => absurd diagonal.low (by omega))
      obtain ⟨abandoned, checked⟩ := abandons_total within length'
      rw [looped]
      simp only [Option.bind_eq_bind, Option.bind_some]
      rw [checked, Option.bind_some]
      cases abandoned with
      | true =>
        have late := abandons_late checked
        exact ⟨none, _, _, rfl, fun e small _ => first e (by omega)⟩
      | false =>
        cases reached with
        | true =>
          obtain ⟨k, diagonal, ends⟩ := ended rfl
          exact ⟨some d, _, _, rfl, first, traced_more size traced _, k, diagonal, first_end diagonal ends first⟩
        | false =>
          obtain ⟨points, never⟩ := level rfl
          refine ih (d + 1) v' _ (by omega) length' ?_ points (traced_append within size traced points) ?_
          · have expand : (d + 1) * (d + 1) = d * d + (2 * d + 1) := by ring
            rw [List.length_append, size, List.length_take, List.length_drop, length', expand]
            omega
          · intro e below j diagonal
            by_cases last : e = d
            · subst last
              exact never j diagonal
            · exact first e (by omega) j diagonal
    · rw [if_neg within]
      exact ⟨none, v, trace, rfl, fun e _ below => first e (by omega)⟩

/-! ### The way back -/

/-- `t` steps back along a diagonal, over symbols that agree. -/
theorem unwind_spec (prev_x prev_y : Int) : ∀ (t fuel : Nat) (x y : Int) (ses : List Edit), t ≤ fuel →
    (x - t = prev_x ∨ y - t = prev_y) → prev_x ≤ x - t → prev_y ≤ y - t → 0 ≤ x - t → 0 ≤ y - t →
    (∀ i, x - t ≤ i → i < x → ∃ c, a[i.toNat]? = some c ∧ b[(i - (x - y)).toNat]? = some c) →
    Turns ses.reverse (a.drop x.toNat) (b.drop y.toNat) →
    ∃ ses', Diff.unwind fuel x y prev_x prev_y ses = (x - t, y - t, ses') ∧ changes ses' = changes ses ∧
      Turns ses'.reverse (a.drop (x - t).toNat) (b.drop (y - t).toNat) := by
  intro t
  induction t with
  | zero =>
    intro fuel x y ses _ met _ _ _ _ _ turns
    simp only [Int.natCast_zero, Int.sub_zero] at met ⊢
    refine ⟨ses, ?_, rfl, turns⟩
    cases fuel with
    | zero => rfl
    | succ fuel => exact if_neg (by omega)
  | succ t ih =>
    intro fuel x y ses enough met behind behind' nonneg nonneg' same turns
    push_cast at met behind behind' nonneg nonneg' same
    obtain ⟨fuel, rfl⟩ : ∃ f, fuel = f + 1 := ⟨fuel - 1, by omega⟩
    obtain ⟨c, left, right⟩ := same (x - 1) (by omega) (by omega)
    have step : Turns (ses ++ [Edit.keep]).reverse (a.drop (x - 1).toNat) (b.drop (y - 1).toNat) := by
      have back : (x - 1 - (x - y)).toNat = (y - 1).toNat := by omega
      rw [back] at right
      rw [List.reverse_append, drop_get left, drop_get right, show (x - 1).toNat + 1 = x.toNat by omega,
        show (y - 1).toNat + 1 = y.toNat by omega]
      exact .keep c turns
    obtain ⟨ses', unwound, count, turns'⟩ := ih fuel (x - 1) (y - 1) (ses ++ [Edit.keep]) (by omega) (by omega) (by omega) (by omega)
      (by omega) (by omega)
      (fun i low high => by
        rw [show x - 1 - (y - 1) = x - y by omega]
        exact same i (by omega) (by omega)) step
    have ends : x - 1 - t = x - (t + 1 : Nat) ∧ y - 1 - t = y - (t + 1 : Nat) := by
      push_cast
      omega
    rw [ends.1, ends.2] at unwound turns'
    refine ⟨ses', ?_, by simpa [changes] using count, turns'⟩
    unfold Diff.unwind
    rw [if_pos (by omega)]
    exact unwound

/-- Back along the slide of a diagonal, to where it starts. -/
theorem unwind_slide (k start prev_x prev_y : Int) {n : Nat} {ses : List Edit} (enough : a.length ≤ n)
    (inside : slide a b k start ≤ a.length) (nonneg : 0 ≤ start) (nonneg' : k ≤ start)
    (met : start = prev_x ∨ start - k = prev_y) (behind : prev_x ≤ start) (behind' : prev_y ≤ start - k)
    (turns : Turns ses.reverse (a.drop (slide a b k start).toNat) (b.drop (slide a b k start - k).toNat)) :
    ∃ ses', Diff.unwind n (slide a b k start) (slide a b k start - k) prev_x prev_y ses = (start, start - k, ses') ∧
      changes ses' = changes ses ∧ Turns ses'.reverse (a.drop start.toNat) (b.drop (start - k).toNat) := by
  have here := le_slide (a := a) (b := b) k start
  obtain ⟨t, far⟩ : ∃ t : Nat, slide a b k start - t = start := ⟨(slide a b k start - start).toNat, by omega⟩
  have far' : slide a b k start - k - t = start - k := by omega
  have result := unwind_spec (a := a) (b := b) prev_x prev_y t n (slide a b k start)
    (slide a b k start - k) ses (by omega) (by omega) (by omega) (by omega) (by omega) (by omega)
    (fun i low high => by
      rw [Int.sub_sub_self]
      exact slide_same nonneg nonneg' (by omega) high) turns
  rw [far, far'] at result
  exact result

/-- The way back from a furthest point turns the beginnings of both inputs into
    each other, with as many changes as its distance. -/
theorem backtrack_spec {n : Nat} {trace : List Int} (enough : a.length ≤ n) : ∀ (d : Nat) (k : Int) (ses : List Edit),
    Diagonal d k → furthest a b d k ≤ a.length → furthest a b d k - k ≤ b.length → Traced a b d trace →
    Turns ses.reverse (a.drop (furthest a b d k).toNat) (b.drop (furthest a b d k - k).toNat) →
    ∃ ses', Diff.backtrack n trace d (furthest a b d k) (furthest a b d k - k) ses = some ses' ∧
      changes ses' = changes ses + d ∧ Turns ses'.reverse a b := by
  intro d
  induction d with
  | zero =>
    intro k ses diagonal inside _ _ turns
    obtain rfl := diagonal_zero diagonal
    obtain ⟨ses', unwound, count, turns'⟩ := unwind_slide 0 0 0 0 enough inside
      (Int.le_refl 0) (Int.le_refl 0) (.inl rfl) (Int.le_refl 0) (Int.le_refl 0) turns
    refine ⟨ses', ?_, count, turns'⟩
    unfold furthest Diff.backtrack
    rw [unwound]
  | succ d ih =>
    intro k ses diagonal inside inside' traced turns
    have level : Level a b d trace (d * d + d) := traced d (Nat.lt_succ_self d)
    have entered := entered_spec diagonal level
    push_cast at entered
    have nonneg := entry_nonneg (a := a) (b := b) diagonal
    have far := le_slide (a := a) (b := b) k (entry (furthest a b d) d k)
    have below : Traced a b d trace := fun e less => traced e (Nat.lt_succ_of_lt less)
    have is : furthest a b (d + 1) k = slide a b k (entry (furthest a b d) d k) := rfl
    rw [is] at inside inside' turns ⊢
    unfold Diff.backtrack
    simp only [Int.sub_sub_self, entered, Option.bind_eq_bind, Option.bind_some]
    rcases entry_cases (furthest a b d) diagonal with ⟨above, neighbour, enters⟩ | ⟨left, neighbour, enters⟩
    · -- The last move went down.
      simp only [if_pos above, decide_eq_true above, if_true]
      have nonneg'' := furthest_nonneg (a := a) (b := b) neighbour
      obtain ⟨ses', unwound, count, turns'⟩ := unwind_slide k (entry (furthest a b d) d k) (furthest a b d (k + 1))
        (furthest a b d (k + 1) - (k + 1)) enough inside nonneg.1 nonneg.2 (.inl enters) (by omega) (by omega)
        turns
      rw [unwound]
      simp only
      rw [enters] at inside inside' turns' far ⊢
      have row : furthest a b d (k + 1) - k - 1 = furthest a b d (k + 1) - (k + 1) := by omega
      rw [row]
      obtain ⟨c, here⟩ : ∃ c, b[(furthest a b d (k + 1) - (k + 1)).toNat]? = some c :=
        ⟨_, List.getElem?_eq_getElem (by omega)⟩
      have one : changes (ses' ++ [.insert]) = changes ses + 1 := by
        rw [← count]
        exact List.countP_append
      have turned : Turns (ses' ++ [Edit.insert]).reverse (a.drop (furthest a b d (k + 1)).toNat)
          (b.drop (furthest a b d (k + 1) - (k + 1)).toNat) := by
        rw [List.reverse_append, drop_get here, show (furthest a b d (k + 1) - (k + 1)).toNat + 1 =
          (furthest a b d (k + 1) - k).toNat by omega]
        exact .insert c turns'
      obtain ⟨ses'', back, count', turns''⟩ := ih (k + 1) _ neighbour (by omega) (by omega) below turned
      exact ⟨ses'', back, by omega, turns''⟩
    · -- The last move went to the right.
      simp only [if_neg left, decide_eq_false left, Bool.false_eq_true, if_false]
      have nonneg'' := furthest_nonneg (a := a) (b := b) neighbour
      obtain ⟨ses', unwound, count, turns'⟩ := unwind_slide k (entry (furthest a b d) d k) (furthest a b d (k - 1))
        (furthest a b d (k - 1) - (k - 1)) enough inside nonneg.1 nonneg.2 (.inr (by omega)) (by omega) (by omega)
        turns
      rw [unwound]
      simp only
      rw [enters] at inside inside' turns' far ⊢
      rw [Int.add_sub_cancel]
      have row : furthest a b d (k - 1) + 1 - k = furthest a b d (k - 1) - (k - 1) := by omega
      rw [row] at turns' ⊢
      obtain ⟨c, here⟩ : ∃ c, a[(furthest a b d (k - 1)).toNat]? = some c := ⟨_, List.getElem?_eq_getElem (by omega)⟩
      have one : changes (ses' ++ [.delete]) = changes ses + 1 := by
        rw [← count]
        exact List.countP_append
      have turned : Turns (ses' ++ [Edit.delete]).reverse (a.drop (furthest a b d (k - 1)).toNat)
          (b.drop (furthest a b d (k - 1) - (k - 1)).toNat) := by
        rw [List.reverse_append, drop_get here, show (furthest a b d (k - 1)).toNat + 1 =
          (furthest a b d (k - 1) + 1).toNat by omega]
        exact .delete c turns'
      obtain ⟨ses'', back, count', turns''⟩ := ih (k - 1) _ neighbour (by omega) (by omega) below turned
      exact ⟨ses'', back, by omega, turns''⟩

theorem changes_replicate {e : Edit} (changed : e ≠ .keep) (n : Nat) : changes (List.replicate n e) = n := by
  rw [changes, List.countP_replicate, if_pos (decide_eq_true changed)]

/-! ### Shortest scripts -/

/-- A common symbol at a point on the way to a furthest one is passed. -/
theorem step_along {d : Nat} {k x : Int} {c : UInt8} (diagonal : Diagonal d k) (behind : x ≤ furthest a b d k)
    (left : a[x.toNat]? = some c) (right : b[(x - k).toNat]? = some c) :
    x + 1 ≤ furthest a b d k := by
  by_contra stuck
  obtain ⟨start, is, low, low'⟩ : ∃ start, furthest a b d k = slide a b k start ∧ 0 ≤ start ∧ k ≤ start := by
    cases d with
    | zero =>
      have zero := diagonal_zero diagonal
      exact ⟨0, rfl, Int.le_refl 0, by omega⟩
    | succ d => exact ⟨_, rfl, entry_nonneg diagonal⟩
  have there : x = slide a b k start := by omega
  rw [there] at left right
  exact slide_stops low low' left right

/-- However a script goes on from a point behind a furthest one, a furthest point
    ends where the script does. -/
theorem script_behind {ses : List Edit} {u w : List UInt8} (turns : Turns ses u w) : ∀ {d x y : Nat}, u = a.drop x →
    w = b.drop y → x ≤ a.length → y ≤ b.length → Diagonal d (x - y) → (x : Int) ≤ furthest a b d (x - y) →
    Diagonal (d + changes ses) (a.length - b.length) ∧ Ends a b (d + changes ses) (a.length - b.length) := by
  induction turns with
  | nil =>
    intro d x y left right within within' diagonal behind
    have all : x = a.length := by
      have := List.drop_eq_nil_iff.mp left.symm
      omega
    have all' : y = b.length := by
      have := List.drop_eq_nil_iff.mp right.symm
      omega
    subst all all'
    exact ⟨diagonal, behind, by show _ ≤ furthest a b d _ - _; omega⟩
  | @keep ses u w c _ ih =>
    intro d x y left right within within' diagonal behind
    obtain ⟨here, rest, inside⟩ := drop_cons left.symm
    obtain ⟨here', rest', inside'⟩ := drop_cons right.symm
    have further := step_along diagonal behind here (by rw [Int.sub_sub_self]; exact here')
    have same : ((x + 1 : Nat) : Int) - (y + 1 : Nat) = x - y := by
      push_cast
      omega
    rw [changes_keep]
    exact ih rest rest' inside inside' (by rw [same]; exact diagonal) (by rw [same]; push_cast; exact further)
  | @delete ses u w c _ ih =>
    intro d x y left right within within' diagonal behind
    obtain ⟨_, rest, inside⟩ := drop_cons left.symm
    have next : ((x + 1 : Nat) : Int) - y - 1 = x - y := by
      push_cast
      omega
    have further := left_le (a := a) (b := b) (d := d) (k := ((x + 1 : Nat) : Int) - y) (by rw [next]; exact diagonal)
    rw [next] at further
    obtain ⟨low, high, parity⟩ := diagonal
    have moved : Diagonal (d + 1) (((x + 1 : Nat) : Int) - y) := ⟨by push_cast; omega, by push_cast; omega, by push_cast; omega⟩
    rw [changes_delete, Nat.add_comm (changes ses), ← Nat.add_assoc]
    exact ih rest right inside within' moved (by push_cast at further ⊢; omega)
  | @insert ses u w c _ ih =>
    intro d x y left right within within' diagonal behind
    obtain ⟨_, rest, inside⟩ := drop_cons right.symm
    have next : (x : Int) - (y + 1 : Nat) + 1 = x - y := by
      push_cast
      omega
    have further := above_le (a := a) (b := b) (d := d) (k := (x : Int) - (y + 1 : Nat)) (by rw [next]; exact diagonal)
    rw [next] at further
    obtain ⟨low, high, parity⟩ := diagonal
    have moved : Diagonal (d + 1) ((x : Int) - (y + 1 : Nat)) := ⟨by push_cast; omega, by push_cast; omega, by push_cast; omega⟩
    rw [changes_insert, Nat.add_comm (changes ses), ← Nat.add_assoc]
    exact ih left rest within inside moved (by omega)

/-- Every script has at least as many changes as the first distance that ends. -/
theorem script_ends {ses : List Edit} (turns : Turns ses a b) :
    Diagonal (changes ses) (a.length - b.length) ∧ Ends a b (changes ses) (a.length - b.length) := by
  have begun := furthest_nonneg (a := a) (b := b) (d := 0) (k := 0) ⟨by omega, by omega, by omega⟩
  have result := script_behind (a := a) (b := b) turns (d := 0) (x := 0) (y := 0) rfl rfl (Nat.zero_le _) (Nat.zero_le _)
    ⟨by omega, by omega, by omega⟩ begun.1
  rwa [Nat.zero_add] at result

/-- The changes of a script and what it keeps. -/
theorem turns_counts {ses : List Edit} (turns : Turns ses a b) :
    changes ses + 2 * ses.count .keep = a.length + b.length ∧ a.length ≤ b.length + changes ses ∧
      b.length ≤ a.length + changes ses := by
  induction turns with
  | nil => exact ⟨rfl, Nat.le_refl _, Nat.le_refl _⟩
  | keep c _ ih =>
    simp only [changes_keep, List.count_cons, List.length_cons]
    simp
    omega
  | delete c _ ih =>
    simp only [changes_delete, List.count_cons, List.length_cons]
    simp
    omega
  | insert c _ ih =>
    simp only [changes_insert, List.count_cons, List.length_cons]
    simp
    omega

/-- The search always has a value: a script of the fewest changes, or none where
    every script has many. -/
theorem myersSES_spec (a b : List UInt8) (d_limit : Nat) (some_distance : 0 < d_limit) (scratch : Scratch) :
    ∃ found scratch', Diff.myersSES a b d_limit scratch = some (found, scratch') ∧
      match found with
      | some ses => Turns ses a b ∧ ∀ other, Turns other a b → changes ses ≤ changes other
      | none => ∀ other, Turns other a b → 256 ≤ changes other ∨ d_limit < changes other := by
  unfold Diff.myersSES
  by_cases empty : a = []
  · subst empty
    by_cases empty' : b = []
    · subst empty'
      exact ⟨some [], scratch, rfl, .nil, fun _ _ => Nat.zero_le _⟩
    · rw [if_neg (by simp [empty']), if_pos rfl]
      refine ⟨some _, scratch, rfl, turns_inserts b, fun other turns => ?_⟩
      rw [changes_replicate (by decide)]
      simpa using (turns_counts turns).2.2
  · rw [if_neg (by simp [empty]), if_neg empty]
    by_cases empty' : b = []
    · subst empty'
      rw [if_pos rfl]
      refine ⟨some _, scratch, rfl, turns_deletes a, fun other turns => ?_⟩
      rw [changes_replicate (by decide)]
      simpa using (turns_counts turns).2.1
    · rw [if_neg empty']
      have positive : 0 < min (a.length + b.length) d_limit := by
        have := List.length_pos_iff.mpr empty
        omega
      obtain ⟨found, v, trace, searched, finds⟩ := search_spec (a := a) (b := b)
        (min (a.length + b.length) d_limit) (min (a.length + b.length) d_limit + 1) 0
        (List.replicate (2 * min (a.length + b.length) d_limit + 1) 0) [] (by omega) List.length_replicate rfl
        (by
          show Diff.at_ _ _ = _
          rw [at_nonneg _ (by omega), List.getElem?_replicate, if_pos (by omega)])
        (fun e below => absurd below (Nat.not_lt_zero e)) (fun e below => absurd below (Nat.not_lt_zero e))
      simp only [searched, Option.bind_eq_bind, Option.bind_some]
      cases found with
      | none =>
        refine ⟨none, _, rfl, fun other turns => ?_⟩
        have counts := turns_counts turns
        obtain ⟨diagonal, ends⟩ := script_ends turns
        by_contra few
        exact finds (changes other) (by omega) (by omega) _ diagonal ends
      | some d =>
        obtain ⟨first, traced, k, diagonal, left, right⟩ := finds
        obtain ⟨ses, back, count, turns⟩ := backtrack_spec (n := a.length + b.length) (by omega) d k [] diagonal (by omega)
          (by omega) traced (by rw [right, left]; simpa using Turns.nil)
        rw [right, left] at back
        refine ⟨some ses.reverse, { myers_v_ := v, myers_trace_ := trace }, ?_, turns, fun other turns' => ?_⟩
        · simp only [back, Option.bind_some]
        · obtain ⟨diagonal', ends⟩ := script_ends turns'
          have exact_ : changes ses.reverse = d := by
            rw [changes, List.countP_reverse]
            exact count.trans (Nat.zero_add d)
          by_contra fewer
          exact first (changes other) (by omega) _ diagonal' ends

end Roll.Searching
