import Roll.Fingerprint

/-!
Every fingerprint that the constructors accept rolls without wrapping, and is
the polynomial hash of its window at every byte.
-/
namespace Roll.Construction
open Roll.RollingSum Roll.Fingerprint

variable {r : RKFinger}

/-! ### The fast reduction -/

theorem single_bit {v : UInt64} (single : RKFinger.has_single_bit v = true) : ∃ k, v.toNat = 2 ^ k := by
  obtain ⟨some, masked⟩ : v ≠ 0 ∧ v &&& (v - 1) = 0 := by
    simpa [RKFinger.has_single_bit] using single
  have positive : v.toNat ≠ 0 := fun none => some (UInt64.toNat_inj.mp none)
  have less : (v - 1).toNat = v.toNat - 1 :=
    UInt64.toNat_sub_of_le _ _ (UInt64.le_iff_toNat_le.mpr (Nat.one_le_iff_ne_zero.mpr positive))
  have zero : v.toNat &&& (v.toNat - 1) = 0 := by
    rw [← less, ← UInt64.toNat_and, masked]
    rfl
  exact (Nat.and_sub_one_eq_zero_iff_isPowerOfTwo positive).mp zero

/-- The bit width of a Mersenne number is its exponent. -/
theorem bit_width_mersenne {m : UInt64} {k : Nat} (positive : 0 < m.toNat) (mersenne : m.toNat + 1 = 2 ^ k) :
    RKFinger.bit_width m = k := by
  have some : m ≠ 0 := by
    rintro rfl
    exact absurd positive (by decide)
  obtain ⟨j, rfl⟩ : ∃ j, k = j + 1 := by
    cases k with
    | zero => rw [Nat.pow_zero] at mersenne; omega
    | succ j => exact ⟨j, rfl⟩
  have log : m.toNat.log2 = j := by
    rw [Nat.log2_eq_iff (by omega)]
    rw [Nat.pow_succ] at mersenne ⊢
    have := Nat.two_pow_pos j
    omega
  rw [RKFinger.bit_width, if_neg some, log]

theorem max_toNat (a b : UInt64) : (max a b).toNat = max a.toNat b.toNat := by
  show (if a ≤ b then b else a).toNat = _
  split
  · next le =>
    have := UInt64.le_iff_toNat_le.mp le
    omega
  · next gt =>
    have := mt UInt64.le_iff_toNat_le.mpr gt
    omega

/-- What the constructor admits keeps the arithmetic within 64 bits. -/
theorem admitted {a : UInt32} {m : UInt64} (fits : RKFinger.overflows a m = false) :
    2 * a.toNat * m.toNat + 255 < 2 ^ 64 ∧ 2 * 255 * m.toNat + 255 < 2 ^ 64 := by
  have narrow := a.toNat_lt
  have factor : (2 * max a.toUInt64 255).toNat = 2 * max a.toNat 255 := by
    rw [UInt64.toNat_mul, max_toNat, UInt32.toNat_toUInt64]
    apply Nat.mod_eq_of_lt
    show 2 * max a.toNat 255 < 2 ^ 64
    omega
  have below : ¬ m > (0xFFFFFFFFFFFFFFFF - 255) / (2 * max a.toUInt64 255) := of_decide_eq_false fits
  rw [gt_iff_lt, UInt64.lt_iff_toNat_lt, UInt64.toNat_div, factor, Nat.not_lt,
    Nat.le_div_iff_mul_le (by omega)] at below
  have room : (0xFFFFFFFFFFFFFFFF - 255 : UInt64).toNat = 2 ^ 64 - 256 := by decide
  rw [room] at below
  have first : m.toNat * (2 * a.toNat) ≤ m.toNat * (2 * max a.toNat 255) := Nat.mul_le_mul_left _ (by omega)
  have second : m.toNat * (2 * 255) ≤ m.toNat * (2 * max a.toNat 255) := Nat.mul_le_mul_left _ (by omega)
  rw [Nat.mul_comm] at first second
  omega

theorem max_input_toNat {a : UInt32} {m : UInt64} (modulus : 0 < m.toNat)
    (alphabet : 2 * a.toNat * m.toNat + 255 < 2 ^ 64) (byte : 2 * 255 * m.toNat + 255 < 2 ^ 64) :
    (max (2 * a.toUInt64 * m + 255) (255 * (m - 1))).toNat = max (2 * a.toNat * m.toNat + 255) (255 * (m.toNat - 1)) := by
  have narrow := a.toNat_lt
  have twice : (2 * a.toUInt64).toNat = 2 * a.toNat := by
    rw [UInt64.toNat_mul, UInt32.toNat_toUInt64]
    exact Nat.mod_eq_of_lt (by show 2 * a.toNat < 2 ^ 64; omega)
  have product : (2 * a.toUInt64 * m).toNat = 2 * a.toNat * m.toNat := by
    rw [UInt64.toNat_mul, twice]
    exact Nat.mod_eq_of_lt (by omega)
  have first : (2 * a.toUInt64 * m + 255).toNat = 2 * a.toNat * m.toNat + 255 := by
    rw [UInt64.toNat_add, product]
    exact Nat.mod_eq_of_lt alphabet
  have less : (m - 1).toNat = m.toNat - 1 := UInt64.toNat_sub_of_le _ _ (UInt64.le_iff_toNat_le.mpr modulus)
  have second : (255 * (m - 1)).toNat = 255 * (m.toNat - 1) := by
    rw [UInt64.toNat_mul, less]
    exact Nat.mod_eq_of_lt (by show 255 * (m.toNat - 1) < 2 ^ 64; omega)
  rw [max_toNat, first, second]

/-- The fast reduction is set up only where one fold is enough. -/
theorem configure_spec (modulus : 0 < r.modulus_.toNat)
    (alphabet : 2 * r.alphabet_size_.toNat * r.modulus_.toNat + 255 < 2 ^ 64)
    (byte : 2 * 255 * r.modulus_.toNat + 255 < 2 ^ 64) :
    Bounded r.configure_fast_reduction ∧ ∃ k, r.configure_fast_reduction = { r with mersenne_shift_ := k } := by
  have slow : Bounded { r with mersenne_shift_ := 0 } := ⟨modulus, alphabet, byte, .inl rfl⟩
  unfold RKFinger.configure_fast_reduction
  dsimp only
  by_cases single : RKFinger.has_single_bit (r.modulus_ + 1) = true
  · simp only [single, Bool.not_true, Bool.false_eq_true, if_false]
    split
    · exact ⟨slow, 0, rfl⟩
    · split
      · exact ⟨slow, 0, rfl⟩
      · split
        · next enough =>
          refine ⟨⟨modulus, alphabet, byte, .inr ?_⟩, _, rfl⟩
          obtain ⟨k, power⟩ := single_bit single
          have mersenne : r.modulus_.toNat + 1 = 2 ^ k := by
            rw [← power, UInt64.toNat_add]
            exact (Nat.mod_eq_of_lt (by show r.modulus_.toNat + 1 < 2 ^ 64; omega)).symm
          have width := bit_width_mersenne modulus mersenne
          have small : k < 64 := by
            by_contra big
            have : 2 ^ 64 ≤ 2 ^ k := Nat.pow_le_pow_right (by decide) (by omega)
            omega
          rw [width, UInt64.lt_iff_toNat_lt, UInt64.toNat_shiftRight, max_input_toNat modulus alphabet byte,
            UInt64.toNat_ofNat', Nat.shiftRight_eq_div_pow, show k % 2 ^ 64 % 64 = k by omega] at enough
          rw [width]
          exact ⟨mersenne, enough⟩
        · exact ⟨slow, 0, rfl⟩
  · simp only [single, Bool.not_false, if_true]
    exact ⟨slow, 0, rfl⟩

/-! ### The powers -/

/-- What one multiplication of `init_state` hands to `reduce` does not wrap, and
    its reduction is exact. -/
structure Multiplies (r : RKFinger) : Prop where
  product : r.h_.toNat * r.alphabet_size_.toNat < 2 ^ 64
  reduction : Reduces r (r.h_ * r.alphabet_size_.toUInt64)

/-- A power that was reduced, or the first one. -/
def Small (r : RKFinger) (h : UInt64) : Prop := h.toNat < r.modulus_.toNat ∨ h.toNat = 1

theorem multiplies (bounded : Bounded r) (small : Small r r.h_) : Multiplies r := by
  have le : r.h_.toNat * r.alphabet_size_.toNat ≤ maxInput r := by
    have modulus := bounded.modulus
    unfold maxInput
    rcases small with below | one
    · have product : r.h_.toNat * r.alphabet_size_.toNat ≤ r.modulus_.toNat * (2 * r.alphabet_size_.toNat) :=
        Nat.mul_le_mul (Nat.le_of_lt below) (by omega)
      rw [Nat.mul_comm r.modulus_.toNat] at product
      omega
    · have product : 1 * r.alphabet_size_.toNat ≤ r.modulus_.toNat * (2 * r.alphabet_size_.toNat) :=
        Nat.mul_le_mul modulus (by omega)
      rw [Nat.mul_comm r.modulus_.toNat] at product
      rw [one]
      omega
  have fits := Nat.lt_of_le_of_lt le bounded.maxInput_lt
  have exact_ : (r.h_ * r.alphabet_size_.toUInt64).toNat = r.h_.toNat * r.alphabet_size_.toNat := by
    rw [UInt64.toNat_mul, UInt32.toNat_toUInt64]
    exact Nat.mod_eq_of_lt fits
  exact ⟨fits, reduces bounded (by rw [exact_]; exact le)⟩

/-- The loop that raises `h_` keeps everything else. -/
theorem raise_spec : ∀ (n : Nat) (r : RKFinger), Bounded r → Small r r.h_ →
    ∃ h, RKFinger.raise n r = { r with h_ := h } ∧ Small r h ∧
      h.toNat % r.modulus_.toNat = r.h_.toNat * r.alphabet_size_.toNat ^ n % r.modulus_.toNat := by
  intro n
  induction n with
  | zero =>
    intro r _ small
    exact ⟨r.h_, rfl, small, by rw [Nat.pow_zero, Nat.mul_one]⟩
  | succ n ih =>
    intro r bounded small
    obtain ⟨product, reduction⟩ := multiplies bounded small
    set h := r.reduce (r.h_ * r.alphabet_size_.toUInt64) with hIs
    have value : h.toNat = r.h_.toNat * r.alphabet_size_.toNat % r.modulus_.toNat := by
      rw [hIs, reduction.remainder, UInt64.toNat_mul, UInt32.toNat_toUInt64, Nat.mod_eq_of_lt product]
    have small' : Small r h := .inl (by rw [value]; exact Nat.mod_lt _ bounded.modulus)
    obtain ⟨h', raised, small'', power⟩ := ih { r with h_ := h }
      ⟨bounded.modulus, bounded.alphabet, bounded.byte, bounded.fold⟩ small'
    refine ⟨h', raised, small'', ?_⟩
    rw [power]
    simp only [value, Nat.pow_succ]
    rw [Nat.mod_mul_mod]
    congr 1
    ring

/-- Every power up to `h_` is multiplied without wrapping. -/
structure Raised (r : RKFinger) : Prop where
  whole : r = RKFinger.raise (r.window_size_ - 1) { r with h_ := 1 }
  powers : ∀ j < r.window_size_ - 1, Multiplies (RKFinger.raise j { r with h_ := 1 })

/-- `init_state` sets up admitted parameters. -/
theorem init_ready (window_size : 0 < r.window_size_) (modulus : 0 < r.modulus_.toNat)
    (fits : RKFinger.overflows r.alphabet_size_ r.modulus_ = false) : Ready r.init_state ∧ Raised r.init_state := by
  obtain ⟨alphabet, byte⟩ := admitted fits
  set cleared : RKFinger :=
    { r with window_ := List.replicate r.window_size_ 0, window_head_ := 0, fingerprint_ := 0 } with clearedIs
  obtain ⟨bounded, k, configured⟩ := configure_spec (r := cleared) modulus alphabet byte
  rw [configured] at bounded
  set seed : RKFinger := { { cleared with mersenne_shift_ := k } with h_ := 1 } with seedIs
  have bounded' : Bounded seed := ⟨bounded.modulus, bounded.alphabet, bounded.byte, bounded.fold⟩
  obtain ⟨h, raised, small, power⟩ := raise_spec (r.window_size_ - 1) seed bounded' (.inr rfl)
  have whole : r.init_state = { seed with h_ := h } := by
    unfold RKFinger.init_state
    simp only [← clearedIs]
    rw [configured]
    exact raised
  rw [whole]
  refine ⟨⟨⟨bounded'.modulus, bounded'.alphabet, bounded'.byte, bounded'.fold⟩, window_size, ?_, small⟩,
    raised.symm, ?_⟩
  · rw [show (1 : UInt64).toNat = 1 from rfl, Nat.one_mul] at power
    exact power
  · intro j _
    obtain ⟨h', raised', small', _⟩ := raise_spec j seed bounded' (.inr rfl)
    show Multiplies (RKFinger.raise j seed)
    rw [raised']
    exact multiplies ⟨bounded'.modulus, bounded'.alphabet, bounded'.byte, bounded'.fold⟩ small'

/-- The constructors: with parameters, and the default one. -/
def Constructed (r : RKFinger) : Prop :=
  r = RKFinger.default ∨ ∃ alphabet_size window_size modulus, RKFinger.make alphabet_size window_size modulus = some r

theorem constructed_ready (constructed : Constructed r) : Ready r ∧ Raised r := by
  rcases constructed with rfl | ⟨alphabet_size, window_size, modulus, made⟩
  · exact init_ready (r := {}) (by decide) (by decide) (by decide)
  · unfold RKFinger.make at made
    split at made
    · cases made
    · next valid =>
      obtain rfl := Option.some.inj made
      rw [not_or, not_or, not_or] at valid
      obtain ⟨window_size, modulus, _, fits⟩ := valid
      exact init_ready (Nat.pos_of_ne_zero window_size)
        (Nat.pos_of_ne_zero fun none => modulus (UInt64.toNat_inj.mp none)) (by simpa using fits)

/-! ### Seeding and rolling -/

/-- The polynomial hash of a word. -/
def polynomialHash (r : RKFinger) (w : List UInt8) : Nat :=
  (∑ i : Fin w.length, w[i].toNat * r.alphabet_size_.toNat ^ (w.length - 1 - i)) % r.modulus_.toNat

theorem polynomialHash_eq (r : RKFinger) (w : List UInt8) :
    polynomialHash r w = value r.alphabet_size_.toNat (digits w) % r.modulus_.toNat := by
  have length : (digits w).length = w.length := List.length_map _
  rw [value_sum]
  refine congrArg (· % r.modulus_.toNat) (Fintype.sum_equiv (finCongr length.symm) _ _ ?_)
  intro i
  simp only [digits, List.length_map, Fin.getElem_fin, List.getElem_map]
  rfl

/-- The operations of one round of `initialize_window` do not wrap, and its
    reduction is exact. -/
structure Absorbs (r : RKFinger) (b : UInt8) : Prop where
  entering : r.alphabet_size_.toNat * r.fingerprint_.toNat + b.toNat < 2 ^ 64
  next : Reduces r (r.alphabet_size_.toUInt64 * r.fingerprint_ + b.toUInt64)

theorem absorbs (bounded : Bounded r) (current : r.fingerprint_.toNat < r.modulus_.toNat) (b : UInt8) : Absorbs r b := by
  have small : r.fingerprint_.toNat < 2 * r.modulus_.toNat := by omega
  have le := absorb_le small b
  exact ⟨Nat.lt_of_le_of_lt le bounded.maxInput_lt, reduces bounded (by rw [absorb_toNat bounded small b]; exact le)⟩

/-- The state in which `initialize_window` reads its byte `j`. -/
def seeding (r : RKFinger) (initial : List UInt8) (j : Nat) : RKFinger :=
  ((initial.take r.window_size_).take j).foldl RKFinger.absorb { r with fingerprint_ := 0, window_head_ := 0 }

theorem seeding_exact (ready : Ready r) (initial : List UInt8) (j : Nat) (b : UInt8) : Absorbs (seeding r initial j) b := by
  have zero : (0 : UInt64).toNat < r.modulus_.toNat := ready.bounded.modulus
  have bounded : Bounded { r with fingerprint_ := 0, window_head_ := 0 } :=
    ⟨ready.bounded.modulus, ready.bounded.alphabet, ready.bounded.byte, ready.bounded.fold⟩
  obtain ⟨same, _, folded⟩ := foldl_absorb ((initial.take r.window_size_).take j) _ bounded zero
  refine absorbs (same.bounded bounded) ?_ b
  have value := foldl_mod r.alphabet_size_.toNat r.modulus_.toNat (digits ((initial.take r.window_size_).take j)) 0
  rw [Nat.zero_mod] at value
  have below : (seeding r initial j).fingerprint_.toNat < r.modulus_.toNat := by
    rw [seeding, folded]
    exact value ▸ Nat.mod_lt _ ready.bounded.modulus
  rw [same.modulus]
  exact below

/-- The state after these bytes were passed to `compute_next`. -/
def rolled (r : RKFinger) (bytes : List UInt8) : RKFinger := bytes.foldl (fun r c => (r.compute_next c).2) r

/-- The last `n` bytes. -/
def last (n : Nat) (bytes : List UInt8) : List UInt8 := bytes.drop (bytes.length - n)

/-- The window is that of the last bytes, however many are rolled in. -/
theorem rolled_tracks : ∀ (bytes : List UInt8) (r : RKFinger) (w : List UInt8), Tracks r w →
    Tracks (rolled r bytes) (last w.length (w ++ bytes)) ∧
      (rolled r bytes).modulus_ = r.modulus_ ∧ (rolled r bytes).alphabet_size_ = r.alphabet_size_ := by
  intro bytes
  induction bytes with
  | nil =>
    intro r w tracks
    refine ⟨?_, rfl, rfl⟩
    rw [List.append_nil, last, Nat.sub_self, List.drop_zero]
    exact tracks
  | cons c bytes ih =>
    intro r w tracks
    obtain ⟨w', split, tracks', _, _, modulus, alphabet⟩ := compute_next_spec tracks c
    obtain ⟨final, modulus', alphabet'⟩ := ih _ _ tracks'
    refine ⟨?_, modulus'.trans modulus, alphabet'.trans alphabet⟩
    have same : last (w' ++ [c]).length (w' ++ [c] ++ bytes) = last w.length (w ++ c :: bytes) := by
      have length : w.length = w'.length + 1 := by
        rw [split]
        rfl
      have skip : (w ++ c :: bytes).length - w.length = bytes.length + 1 := by
        rw [List.length_append, List.length_cons]
        omega
      have skip' : (w' ++ [c] ++ bytes).length - (w' ++ [c]).length = bytes.length := by
        rw [List.length_append]
        omega
      rw [last, last, skip, skip', split]
      simp
    rw [← same]
    exact final

/-- The seed is the first full window of the initial bytes, if there is one. -/
theorem initialize_long (ready : Ready r) (initial : List UInt8) :
    (r.initialize_window initial).1 = decide (r.window_size_ ≤ initial.length) ∧
      (r.initialize_window initial).2 = (r.initialize_window (initial.take r.window_size_)).2 := by
  have zero : (0 : UInt64).toNat < r.modulus_.toNat := ready.bounded.modulus
  have bounded : Bounded { r with fingerprint_ := 0, window_head_ := 0 } :=
    ⟨ready.bounded.modulus, ready.bounded.alphabet, ready.bounded.byte, ready.bounded.fold⟩
  obtain ⟨same, _, _⟩ := foldl_absorb (initial.take r.window_size_) _ bounded zero
  unfold RKFinger.initialize_window
  simp only [List.take_take, Nat.min_self, same.window_size, ge_iff_le, and_self]

/-- Construction, seeding and rolling do not wrap, every reduction is exact, and
    at every byte the fingerprint is the polynomial hash of the last bytes of the
    stream: the first full window of the initial bytes and what is rolled in
    after it. -/
theorem fingerprint_rolls (constructed : Constructed r) :
    (r.modulus_.toNat + 1 < 2 ^ 64 ∧ 2 * r.alphabet_size_.toNat * r.modulus_.toNat + 255 < 2 ^ 64 ∧
        255 * (r.modulus_.toNat - 1) < 2 ^ 64 ∧ Raised r) ∧
      (∀ initial, (r.initialize_window initial).1 = decide (r.window_size_ ≤ initial.length) ∧
        (r.initialize_window initial).2.fingerprint_.toNat = polynomialHash r (initial.take r.window_size_) ∧
        (r.initialize_window initial).2.fingerprint_.toNat < r.modulus_.toNat ∧
        ∀ j b, Absorbs (seeding r initial j) b) ∧
      ∀ initial, r.window_size_ ≤ initial.length → ∀ bytes,
        let r' := rolled (r.initialize_window initial).2 bytes
        r'.fingerprint_.toNat = polynomialHash r (last r.window_size_ (initial.take r.window_size_ ++ bytes)) ∧
          r'.fingerprint_.toNat < r.modulus_.toNat ∧
          ∀ c, Exact r' c ∧ (r'.compute_next c).1 = (r'.compute_next c).2.fingerprint_ := by
  obtain ⟨ready, raised⟩ := constructed_ready constructed
  have byte := ready.bounded.byte
  have positive := ready.bounded.modulus
  refine ⟨⟨by omega, ready.bounded.alphabet, by omega, raised⟩, ?_, ?_⟩
  · intro initial
    obtain ⟨full, same⟩ := initialize_long ready initial
    obtain ⟨_, _, _, _, _, print, _⟩ :=
      initialize_spec ready (initial.take r.window_size_) (List.length_take_le _ _)
    rw [← polynomialHash_eq, ← same] at print
    refine ⟨full, print, ?_, fun j b => seeding_exact ready initial j b⟩
    rw [print]
    exact Nat.mod_lt _ positive
  · intro initial long bytes r'
    obtain ⟨_, same⟩ := initialize_long ready initial
    have length : (initial.take r.window_size_).length = r.window_size_ := by
      rw [List.length_take]
      omega
    obtain ⟨_, _, _, modulus, alphabet, _, tracks⟩ :=
      initialize_spec ready (initial.take r.window_size_) (List.length_take_le _ _)
    obtain ⟨final, modulus', alphabet'⟩ := rolled_tracks bytes _ _ (tracks length)
    rw [← same] at final modulus modulus' alphabet alphabet'
    have value : r'.fingerprint_.toNat = _ := final.value
    have current := final.current
    rw [modulus', modulus] at current
    refine ⟨?_, current, ?_⟩
    · rw [value, polynomialHash_eq, alphabet', alphabet, modulus', modulus, length]
    · intro c
      obtain ⟨_, _, _, returned, _⟩ := compute_next_spec final c
      exact ⟨compute_next_exact final c, returned⟩

/-- `fingerprint_rolls` for the default constructor. -/
theorem fingerprint_rolls_default : (rolled (RKFinger.default.initialize_window (List.replicate 48 1)).2 [2]).fingerprint_.toNat =
    polynomialHash RKFinger.default (last 48 (List.replicate 48 1 ++ [2])) :=
  ((fingerprint_rolls (.inl rfl)).2.2 (List.replicate 48 1) (by decide +kernel) [2]).1

/-- Of an initial string that is longer than the window, the rest is not part of
    the stream. -/
theorem longer_seed_is_cut : ¬ ∀ r, Constructed r → ∀ initial bytes, r.window_size_ ≤ initial.length →
    (rolled (r.initialize_window initial).2 bytes).fingerprint_.toNat =
      polynomialHash r (last r.window_size_ (initial ++ bytes)) := by
  intro all
  have same := all _ (.inr ⟨256, 2, 1000003, rfl⟩) [1, 2, 3] [4] (by decide +kernel)
  exact absurd same (by decide +kernel)

end Roll.Construction
