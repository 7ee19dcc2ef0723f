import Roll.RkFinger
import Roll.RollingSum

/-!
The fingerprint of `RKFinger` is the polynomial value of its window.
-/
namespace Roll.Fingerprint
open Roll.RollingSum

def digits (w : List UInt8) : List Nat := w.map UInt8.toNat

/-- The largest value that `reduce` meets. -/
def maxInput (r : RKFinger) : Nat :=
  max (2 * r.alphabet_size_.toNat * r.modulus_.toNat + 255) (255 * (r.modulus_.toNat - 1))

/-- The parameters keep the arithmetic within 64 bits, and a Mersenne shift is
    set only where one fold is enough. -/
structure Bounded (r : RKFinger) : Prop where
  modulus : 0 < r.modulus_.toNat
  alphabet : 2 * r.alphabet_size_.toNat * r.modulus_.toNat + 255 < 2 ^ 64
  byte : 2 * 255 * r.modulus_.toNat + 255 < 2 ^ 64
  fold : r.mersenne_shift_ = 0 ∨
    r.modulus_.toNat + 1 = 2 ^ r.mersenne_shift_ ∧ maxInput r / 2 ^ r.mersenne_shift_ < r.modulus_.toNat

variable {r : RKFinger}

theorem Bounded.maxInput_lt (bounded : Bounded r) : maxInput r < 2 ^ 64 := by
  have := bounded.alphabet
  have := bounded.byte
  unfold maxInput
  omega

/-- `reduce` is the remainder for every value it meets. -/
theorem reduce_spec (bounded : Bounded r) {v : UInt64} (le : v.toNat ≤ maxInput r) :
    (r.reduce v).toNat = v.toNat % r.modulus_.toNat := by
  unfold RKFinger.reduce
  rcases bounded.fold with none | ⟨mersenne, enough⟩
  · rw [if_pos none, UInt64.toNat_mod]
  · have modulus := bounded.modulus
    have shifted : r.mersenne_shift_ ≠ 0 := by
      intro none
      rw [none] at mersenne
      omega
    rw [if_neg shifted]
    set k := r.mersenne_shift_
    set m := r.modulus_.toNat with mIs
    have byte := bounded.byte
    have small : k < 64 := by
      by_contra big
      have : 2 ^ 64 ≤ 2 ^ k := Nat.pow_le_pow_right (by decide) (by omega)
      omega
    have low : (v &&& r.modulus_).toNat = v.toNat % 2 ^ k := by
      rw [UInt64.toNat_and, ← mIs, show m = 2 ^ k - 1 by omega, Nat.and_two_pow_sub_one_eq_mod]
    have high : (v >>> UInt64.ofNat k).toNat = v.toNat / 2 ^ k := by
      rw [UInt64.toNat_shiftRight, UInt64.toNat_ofNat', Nat.shiftRight_eq_div_pow]
      congr 2
      omega
    have above : v.toNat / 2 ^ k < m := Nat.lt_of_le_of_lt (Nat.div_le_div_right le) enough
    have below : v.toNat % 2 ^ k < 2 ^ k := Nat.mod_lt _ (Nat.two_pow_pos k)
    have whole := Nat.div_add_mod v.toNat (2 ^ k)
    rw [← mersenne, Nat.add_mul, Nat.one_mul, mersenne] at whole
    generalize v.toNat / 2 ^ k = quotient at *
    generalize v.toNat % 2 ^ k = remainder at *
    have sum : ((v &&& r.modulus_) + (v >>> UInt64.ofNat k)).toNat = remainder + quotient := by
      rw [UInt64.toNat_add, low, high]
      apply Nat.mod_eq_of_lt
      omega
    -- One fold keeps the remainder, as `2 ^ k` is `1` modulo `m`.
    have same : v.toNat % m = (remainder + quotient) % m := by
      rw [← whole, Nat.add_assoc, Nat.mul_add_mod, Nat.add_comm]
    have compare : (v &&& r.modulus_) + (v >>> UInt64.ofNat k) ≥ r.modulus_ ↔ m ≤ remainder + quotient := by
      rw [ge_iff_le, UInt64.le_iff_toNat_le, sum]
    rw [same]
    by_cases beyond : m ≤ remainder + quotient
    · simp only [compare.mpr beyond, if_true]
      rw [UInt64.toNat_sub_of_le _ _ (compare.mpr beyond), sum, ← mIs, Nat.mod_eq_sub_mod beyond,
        Nat.mod_eq_of_lt (by omega)]
    · simp only [mt compare.mp beyond, if_false]
      rw [sum, Nat.mod_eq_of_lt (by omega)]

/-- `reduce` is the remainder of this value, and its fold does not wrap. -/
structure Reduces (r : RKFinger) (v : UInt64) : Prop where
  remainder : (r.reduce v).toNat = v.toNat % r.modulus_.toNat
  fold : r.mersenne_shift_ ≠ 0 → (v &&& r.modulus_).toNat + (v >>> UInt64.ofNat r.mersenne_shift_).toNat < 2 ^ 64

theorem reduces (bounded : Bounded r) {v : UInt64} (le : v.toNat ≤ maxInput r) : Reduces r v := by
  refine ⟨reduce_spec bounded le, ?_⟩
  intro shifted
  obtain ⟨mersenne, _⟩ := bounded.fold.resolve_left shifted
  have byte := bounded.byte
  have masked : (v &&& r.modulus_).toNat ≤ r.modulus_.toNat := by
    rw [UInt64.toNat_and]
    exact Nat.and_le_right
  have small : r.mersenne_shift_ < 64 := by
    by_contra big
    have : 2 ^ 64 ≤ 2 ^ r.mersenne_shift_ := Nat.pow_le_pow_right (by decide) (by omega)
    omega
  have halved : (v >>> UInt64.ofNat r.mersenne_shift_).toNat ≤ v.toNat / 2 := by
    rw [UInt64.toNat_shiftRight, UInt64.toNat_ofNat', Nat.shiftRight_eq_div_pow,
      show r.mersenne_shift_ % 2 ^ 64 % 64 = r.mersenne_shift_ by omega]
    exact Nat.div_le_div_left (Nat.le_self_pow shifted 2) (by decide)
  have word := v.toNat_lt
  omega

/-- The bytes of the window, the oldest first. -/
def window (r : RKFinger) : List UInt8 := r.window_.drop r.window_head_ ++ r.window_.take r.window_head_

/-- A fingerprint whose parameters are sound and whose powers are set up. -/
structure Ready (r : RKFinger) : Prop where
  bounded : Bounded r
  window_size : 0 < r.window_size_
  power : r.h_.toNat % r.modulus_.toNat = r.alphabet_size_.toNat ^ (r.window_size_ - 1) % r.modulus_.toNat
  power_lt : r.h_.toNat < r.modulus_.toNat ∨ r.h_.toNat = 1

/-- The fingerprint is that of the full window `w`. -/
structure Tracks (r : RKFinger) (w : List UInt8) : Prop where
  ready : Ready r
  length : r.window_.length = r.window_size_
  head : r.window_head_ < r.window_size_
  content : window r = w
  value : r.fingerprint_.toNat = value r.alphabet_size_.toNat (digits w) % r.modulus_.toNat

/-! ### Seeding -/

/-- What `initialize_window` keeps: the parameters. -/
structure SameParameters (r r' : RKFinger) : Prop where
  alphabet : r'.alphabet_size_ = r.alphabet_size_
  window_size : r'.window_size_ = r.window_size_
  modulus : r'.modulus_ = r.modulus_
  h : r'.h_ = r.h_
  shift : r'.mersenne_shift_ = r.mersenne_shift_

theorem SameParameters.bounded {r' : RKFinger} (same : SameParameters r r') (bounded : Bounded r) : Bounded r' := by
  obtain ⟨alphabet, _, modulus, _, shift⟩ := same
  obtain ⟨positive, fits, byte, fold⟩ := bounded
  constructor
  · rwa [modulus]
  · rwa [alphabet, modulus]
  · rwa [modulus]
  · rwa [modulus, shift, maxInput, alphabet, modulus]

theorem SameParameters.ready {r' : RKFinger} (same : SameParameters r r') (ready : Ready r) : Ready r' where
  bounded := same.bounded ready.bounded
  window_size := by rw [same.window_size]; exact ready.window_size
  power := by rw [same.h, same.modulus, same.alphabet, same.window_size]; exact ready.power
  power_lt := by rw [same.h, same.modulus]; exact ready.power_lt

/-- The largest input of a step: a remainder times the alphabet size, plus a byte. -/
theorem absorb_le {h : Nat} (small : h < 2 * r.modulus_.toNat) (b : UInt8) :
    r.alphabet_size_.toNat * h + b.toNat ≤ maxInput r := by
  have product : r.alphabet_size_.toNat * h ≤ r.alphabet_size_.toNat * (2 * r.modulus_.toNat) :=
    Nat.mul_le_mul_left _ (by omega)
  have same : r.alphabet_size_.toNat * (2 * r.modulus_.toNat) = 2 * r.alphabet_size_.toNat * r.modulus_.toNat := by ring
  have byte := b.toNat_lt
  unfold maxInput
  omega

/-- The value that a step hands to `reduce` does not wrap. -/
theorem absorb_toNat (bounded : Bounded r) {v : UInt64} (small : v.toNat < 2 * r.modulus_.toNat) (b : UInt8) :
    (r.alphabet_size_.toUInt64 * v + b.toUInt64).toNat = r.alphabet_size_.toNat * v.toNat + b.toNat := by
  have le := Nat.lt_of_le_of_lt (absorb_le small b) bounded.maxInput_lt
  rw [UInt64.toNat_add, UInt64.toNat_mul, UInt32.toNat_toUInt64, UInt8.toNat_toUInt64,
    Nat.mod_eq_of_lt (a := r.alphabet_size_.toNat * v.toNat) (by omega), Nat.mod_eq_of_lt le]

theorem absorb_spec (bounded : Bounded r) (small : r.fingerprint_.toNat < r.modulus_.toNat) (b : UInt8) :
    SameParameters r (r.absorb b) ∧
      (r.absorb b).fingerprint_.toNat = (r.alphabet_size_.toNat * r.fingerprint_.toNat + b.toNat) % r.modulus_.toNat := by
  refine ⟨⟨rfl, rfl, rfl, rfl, rfl⟩, ?_⟩
  have input := absorb_toNat bounded (v := r.fingerprint_) (by omega) b
  show (r.reduce _).toNat = _
  rw [reduce_spec bounded (by rw [input]; exact absorb_le (by omega) b), input]

theorem foldl_absorb : ∀ (w : List UInt8) (r : RKFinger), Bounded r → r.fingerprint_.toNat < r.modulus_.toNat →
    SameParameters r (w.foldl RKFinger.absorb r) ∧
      (w.foldl RKFinger.absorb r).window_head_ = r.window_head_ ∧
      (w.foldl RKFinger.absorb r).fingerprint_.toNat =
        (digits w).foldl (fun h b => (r.alphabet_size_.toNat * h + b) % r.modulus_.toNat) r.fingerprint_.toNat := by
  intro w
  induction w with
  | nil =>
    intro r _ _
    exact ⟨⟨rfl, rfl, rfl, rfl, rfl⟩, rfl, rfl⟩
  | cons b w ih =>
    intro r bounded small
    obtain ⟨same, step⟩ := absorb_spec bounded small b
    have small' : (r.absorb b).fingerprint_.toNat < (r.absorb b).modulus_.toNat := by
      rw [step, same.modulus]
      exact Nat.mod_lt _ bounded.modulus
    obtain ⟨same', head, rest⟩ := ih (r.absorb b) (same.bounded bounded) small'
    refine ⟨⟨?_, ?_, ?_, ?_, ?_⟩, head, ?_⟩
    · exact same'.alphabet.trans same.alphabet
    · exact same'.window_size.trans same.window_size
    · exact same'.modulus.trans same.modulus
    · exact same'.h.trans same.h
    · exact same'.shift.trans same.shift
    · rw [List.foldl_cons, rest, step, same.alphabet, same.modulus]
      rfl

/-- Seeding: the fingerprint is that of the bytes, and a full window is tracked. -/
theorem initialize_spec (ready : Ready r) (initial : List UInt8) (fits : initial.length ≤ r.window_size_) :
    (r.initialize_window initial).1 = decide (r.window_size_ ≤ initial.length) ∧
      Ready (r.initialize_window initial).2 ∧
      (r.initialize_window initial).2.window_size_ = r.window_size_ ∧
      (r.initialize_window initial).2.modulus_ = r.modulus_ ∧
      (r.initialize_window initial).2.alphabet_size_ = r.alphabet_size_ ∧
      (r.initialize_window initial).2.fingerprint_.toNat =
        value r.alphabet_size_.toNat (digits initial) % r.modulus_.toNat ∧
      (initial.length = r.window_size_ → Tracks (r.initialize_window initial).2 initial) := by
  have all : initial.take r.window_size_ = initial := List.take_of_length_le fits
  set seed : RKFinger := { r with fingerprint_ := 0, window_head_ := 0 } with seedIs
  have params : SameParameters r seed := ⟨rfl, rfl, rfl, rfl, rfl⟩
  have zero : seed.fingerprint_.toNat < seed.modulus_.toNat := ready.bounded.modulus
  obtain ⟨same, head, folded⟩ := foldl_absorb initial seed (params.bounded ready.bounded) zero
  set filled := initial.foldl RKFinger.absorb seed
  have result : r.initialize_window initial = (decide (r.window_size_ ≤ initial.length),
      { filled with window_ := initial ++ List.replicate (filled.window_size_ - initial.length) 0 }) := by
    unfold RKFinger.initialize_window
    simp only [all, ge_iff_le, ← seedIs]
    rw [same.window_size]
  rw [result]
  have ready' : Ready filled := same.ready (params.ready ready)
  have fingerprint : filled.fingerprint_.toNat = value r.alphabet_size_.toNat (digits initial) % r.modulus_.toNat := by
    rw [folded]
    have := foldl_mod r.alphabet_size_.toNat r.modulus_.toNat (digits initial) 0
    rwa [Nat.zero_mod] at this
  have sizes : filled.window_size_ = r.window_size_ := same.window_size
  refine ⟨rfl, ⟨⟨ready'.bounded.modulus, ready'.bounded.alphabet, ready'.bounded.byte, ready'.bounded.fold⟩,
    ready'.window_size, ready'.power, ready'.power_lt⟩, sizes, same.modulus, same.alphabet, fingerprint, ?_⟩
  intro full
  have exact_ : initial ++ List.replicate (filled.window_size_ - initial.length) 0 = initial := by
    rw [sizes, full, Nat.sub_self]
    simp
  refine ⟨⟨⟨ready'.bounded.modulus, ready'.bounded.alphabet, ready'.bounded.byte, ready'.bounded.fold⟩,
    ready'.window_size, ready'.power, ready'.power_lt⟩, ?_, ?_, ?_, ?_⟩
  · show (initial ++ _).length = filled.window_size_
    rw [exact_, sizes, full]
  · simp only [head, sizes, seedIs]
    exact ready.window_size
  · simp only [window, exact_, head, seedIs, List.drop_zero, List.take_zero, List.append_nil]
  · simp only [same.alphabet, same.modulus]
    exact fingerprint

/-! ### Rolling -/

/-- The byte at the head of the ring leaves, and a new one takes its place. -/
theorem window_roll (ring : List UInt8) {head : Nat} (inside : head < ring.length) (c : UInt8) :
    ∃ b w, ring.drop head ++ ring.take head = b :: w ∧ ring.getD head 0 = b ∧
      (ring.set head c).drop (head + 1) ++ (ring.set head c).take (head + 1) = w ++ [c] ∧
      (head + 1 = ring.length → ring.set head c = w ++ [c]) := by
  refine ⟨ring[head], ring.drop (head + 1) ++ ring.take head, ?_, ?_, ?_, ?_⟩
  · rw [List.drop_eq_getElem_cons inside, List.cons_append]
  · simp [List.getD, inside]
  · rw [List.drop_set_of_lt (by omega), List.take_set, List.take_add_one, List.set_append_right _ _ (by simp)]
    simp [inside, Nat.min_eq_left (Nat.le_of_lt inside)]
  · intro last
    have whole : ring.drop (head + 1) = [] := List.drop_eq_nil_iff.mpr (by omega)
    rw [whole, List.nil_append, List.set_eq_take_append_cons_drop, if_pos inside, whole]

/-- The operations of `compute_next` on this byte do not wrap, and both of its
    reductions are exact. -/
structure Exact (r : RKFinger) (c : UInt8) : Prop where
  evicted : (r.window_.getD r.window_head_ 0).toNat * r.h_.toNat < 2 ^ 64
  leaving : Reduces r ((r.window_.getD r.window_head_ 0).toUInt64 * r.h_)
  sum : r.fingerprint_.toNat + r.modulus_.toNat < 2 ^ 64
  difference : (r.reduce ((r.window_.getD r.window_head_ 0).toUInt64 * r.h_)).toNat ≤
    r.fingerprint_.toNat + r.modulus_.toNat
  entering : r.alphabet_size_.toNat * (r.fingerprint_.toNat + r.modulus_.toNat -
    (r.reduce ((r.window_.getD r.window_head_ 0).toUInt64 * r.h_)).toNat) + c.toNat < 2 ^ 64
  next : Reduces r (r.alphabet_size_.toUInt64 * ((r.fingerprint_ + r.modulus_) -
    r.reduce ((r.window_.getD r.window_head_ 0).toUInt64 * r.h_)) + c.toUInt64)

theorem product_toNat (bounded : Bounded r) {b : UInt8} (le : b.toNat * r.h_.toNat ≤ maxInput r) :
    (b.toUInt64 * r.h_).toNat = b.toNat * r.h_.toNat := by
  rw [UInt64.toNat_mul, UInt8.toNat_toUInt64]
  exact Nat.mod_eq_of_lt (Nat.lt_of_le_of_lt le bounded.maxInput_lt)

theorem leaving_le (ready : Ready r) (b : UInt8) : b.toNat * r.h_.toNat ≤ maxInput r := by
  have byte := b.toNat_lt
  have product : b.toNat * r.h_.toNat ≤ 255 * r.h_.toNat := Nat.mul_le_mul_right _ (by omega)
  unfold maxInput
  rcases ready.power_lt with small | one
  · omega
  · omega

/-- The fingerprint without what the evicted byte adds to it. -/
theorem shifted_toNat (bounded : Bounded r) (current : r.fingerprint_.toNat < r.modulus_.toNat) {t : UInt64}
    (small : t.toNat < r.modulus_.toNat) :
    (r.fingerprint_ + r.modulus_ - t).toNat = r.fingerprint_.toNat + r.modulus_.toNat - t.toNat := by
  have bound := bounded.byte
  have sum : (r.fingerprint_ + r.modulus_).toNat = r.fingerprint_.toNat + r.modulus_.toNat := by
    rw [UInt64.toNat_add]
    exact Nat.mod_eq_of_lt (by omega)
  rw [UInt64.toNat_sub_of_le _ _ (UInt64.le_iff_toNat_le.mpr (by rw [sum]; omega)), sum]

theorem Tracks.current {w : List UInt8} (tracks : Tracks r w) : r.fingerprint_.toNat < r.modulus_.toNat := by
  rw [tracks.value]
  exact Nat.mod_lt _ tracks.ready.bounded.modulus

theorem compute_next_exact {w : List UInt8} (tracks : Tracks r w) (c : UInt8) : Exact r c := by
  have ready := tracks.ready
  have current := tracks.current
  have bound := ready.bounded.byte
  generalize evicted : r.window_.getD r.window_head_ 0 = b
  have below := leaving_le ready b
  have product := product_toNat ready.bounded below
  have leaving : Reduces r (b.toUInt64 * r.h_) := reduces ready.bounded (by rw [product]; exact below)
  have fewer : (r.reduce (b.toUInt64 * r.h_)).toNat < r.modulus_.toNat := by
    rw [leaving.remainder]
    exact Nat.mod_lt _ ready.bounded.modulus
  have shifted := shifted_toNat ready.bounded current fewer
  have small : (r.fingerprint_ + r.modulus_ - r.reduce (b.toUInt64 * r.h_)).toNat < 2 * r.modulus_.toNat := by
    rw [shifted]
    omega
  have input := absorb_le small c
  rw [← absorb_toNat ready.bounded small c] at input
  constructor
  · rw [evicted]
    exact Nat.lt_of_le_of_lt below ready.bounded.maxInput_lt
  · rw [evicted]
    exact leaving
  · omega
  · rw [evicted]
    omega
  · rw [evicted, ← shifted, ← absorb_toNat ready.bounded small c]
    exact Nat.lt_of_le_of_lt input ready.bounded.maxInput_lt
  · rw [evicted]
    exact reduces ready.bounded input

/-- Rolling: the window moves on by one byte. -/
theorem compute_next_spec {w : List UInt8} (tracks : Tracks r w) (c : UInt8) :
    ∃ w', w = w.headD 0 :: w' ∧ Tracks (r.compute_next c).2 (w' ++ [c]) ∧
      (r.compute_next c).1 = (r.compute_next c).2.fingerprint_ ∧
      (r.compute_next c).2.window_size_ = r.window_size_ ∧
      (r.compute_next c).2.modulus_ = r.modulus_ ∧ (r.compute_next c).2.alphabet_size_ = r.alphabet_size_ := by
  have exact_ := compute_next_exact tracks c
  have current := tracks.current
  obtain ⟨ready, length, head, content, fingerprint⟩ := tracks
  obtain ⟨b, w', ring, evicted, rolled, wrapped⟩ := window_roll r.window_
    (show r.window_head_ < r.window_.length by omega) c
  have windowIs : w = b :: w' := content.symm.trans ring
  have size : w'.length = r.window_size_ - 1 := by
    have lengths := congrArg List.length ring
    simp only [List.length_append, List.length_drop, List.length_take, List.length_cons] at lengths
    omega
  have modulus := ready.bounded.modulus
  have product := product_toNat ready.bounded (leaving_le ready b)
  have next : (r.compute_next c).1.toNat = value r.alphabet_size_.toNat (digits (w' ++ [c])) % r.modulus_.toNat := by
    obtain ⟨_, leaving, _, _, _, entered⟩ := exact_
    rw [evicted] at leaving entered
    have reduced := leaving.remainder
    rw [product] at reduced
    have fewer : b.toNat * r.h_.toNat % r.modulus_.toNat < r.modulus_.toNat := Nat.mod_lt _ modulus
    have shifted := shifted_toNat ready.bounded current (t := r.reduce (b.toUInt64 * r.h_)) (by rw [reduced]; exact fewer)
    have input := absorb_toNat ready.bounded (v := r.fingerprint_ + r.modulus_ - r.reduce (b.toUInt64 * r.h_))
      (by rw [shifted, reduced]; omega) c
    have power : r.h_.toNat % r.modulus_.toNat = r.alphabet_size_.toNat ^ (digits w').length % r.modulus_.toNat := by
      rw [digits, List.length_map, size]
      exact ready.power
    have roll := value_roll (b := b.toNat) (c := c.toNat) modulus power
    unfold RKFinger.compute_next
    simp only [evicted]
    rw [entered.remainder, input, shifted, reduced, fingerprint, windowIs]
    simpa [digits] using roll
  refine ⟨w', by rw [windowIs]; rfl, ⟨⟨⟨ready.bounded.modulus, ready.bounded.alphabet, ready.bounded.byte,
    ready.bounded.fold⟩, ready.window_size, ready.power, ready.power_lt⟩, ?_, ?_, ?_, next⟩, rfl, rfl, rfl, rfl⟩
  · show (r.window_.set r.window_head_ c).length = r.window_size_
    rw [List.length_set, length]
  · show (if r.window_head_ + 1 = r.window_size_ then 0 else r.window_head_ + 1) < r.window_size_
    split <;> omega
  · show (r.window_.set r.window_head_ c).drop (if r.window_head_ + 1 = r.window_size_ then 0 else r.window_head_ + 1) ++
      (r.window_.set r.window_head_ c).take (if r.window_head_ + 1 = r.window_size_ then 0 else r.window_head_ + 1) = _
    by_cases last : r.window_head_ + 1 = r.window_size_
    · rw [if_pos last, wrapped (by omega)]
      simp
    · rw [if_neg last]
      exact rolled

/-! ### The default fingerprint -/

theorem default_parameters : RKFinger.default.alphabet_size_.toNat = 256 ∧ RKFinger.default.window_size_ = 48 ∧
    RKFinger.default.modulus_.toNat = 2147483647 := by
  decide +kernel

end Roll.Fingerprint
