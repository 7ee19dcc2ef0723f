import Roll.Main
import Mathlib.Algebra.Ring.Nat
import Mathlib.Data.List.TakeWhile

/-!
`parse_size` reads exactly the documented texts, and returns their size.
-/
namespace Roll.Sizing
open Main

/-! ### The texts -/

/-- The number that digits spell after `n`. -/
def numeral (n : Nat) (digits : List UInt8) : Nat := digits.foldl (fun n c => n * 10 + (c.toNat - 48)) n

/-- A letter in either case for a power of 1024, and no letter for none. -/
inductive IsSuffix : List UInt8 → Nat → Prop
  | none : IsSuffix [] 0
  | kilo {c : UInt8} : c = 'K'.toUInt8 ∨ c = 'k'.toUInt8 → IsSuffix [c] 1
  | mega {c : UInt8} : c = 'M'.toUInt8 ∨ c = 'm'.toUInt8 → IsSuffix [c] 2
  | giga {c : UInt8} : c = 'G'.toUInt8 ∨ c = 'g'.toUInt8 → IsSuffix [c] 3
  | tera {c : UInt8} : c = 'T'.toUInt8 ∨ c = 't'.toUInt8 → IsSuffix [c] 4

/-- One or more digits and at most one letter, for this many bytes. -/
inductive IsSize : List UInt8 → Nat → Prop
  | mk {digits suffix : List UInt8} {power : Nat} : digits ≠ [] → (∀ c ∈ digits, is_digit c = true) →
      IsSuffix suffix power → IsSize (digits ++ suffix) (numeral 0 digits * 1024 ^ power)

/-! ### Digits -/

theorem numeral_ge : ∀ (digits : List UInt8) (n : Nat), n ≤ numeral n digits := by
  intro digits
  induction digits with
  | nil =>
    intro n
    exact Nat.le_refl n
  | cons c digits ih =>
    intro n
    have later := ih (n * 10 + (c.toNat - 48))
    rw [numeral, List.foldl_cons, ← numeral]
    omega

theorem digit_bounds {c : UInt8} (digit : is_digit c = true) : 48 ≤ c.toNat ∧ c.toNat ≤ 57 := by
  simp only [is_digit, Bool.and_eq_true, decide_eq_true_eq, UInt8.le_iff_toNat_le] at digit
  exact digit

/-- The digit of a character, as a 64-bit value. -/
theorem digit_value {c : UInt8} (digit : is_digit c = true) : (c - '0'.toUInt8).toUInt64.toNat = c.toNat - 48 := by
  obtain ⟨low, high⟩ := digit_bounds digit
  have zero : ('0'.toUInt8).toNat = 48 := rfl
  rw [UInt8.toNat_toUInt64, UInt8.toNat_sub_of_le _ _ (UInt8.le_iff_toNat_le.mpr (by omega)), zero]

/-- The test before a digit is appended is exact. -/
theorem append_fits {value digit : UInt64} (small : digit.toNat ≤ 9) :
    value > (uint64_max - digit) / 10 ↔ 2 ^ 64 ≤ value.toNat * 10 + digit.toNat := by
  have max : uint64_max.toNat = 2 ^ 64 - 1 := rfl
  have room : (uint64_max - digit).toNat = 2 ^ 64 - 1 - digit.toNat :=
    UInt64.toNat_sub_of_le _ _ (UInt64.le_iff_toNat_le.mpr (by omega))
  have ten : (10 : UInt64).toNat = 10 := rfl
  rw [gt_iff_lt, UInt64.lt_iff_toNat_lt, UInt64.toNat_div, room, ten]
  omega

theorem append_value {value digit : UInt64} (fits : value.toNat * 10 + digit.toNat < 2 ^ 64) :
    (value * 10 + digit).toNat = value.toNat * 10 + digit.toNat := by
  have ten : (10 : UInt64).toNat = 10 := rfl
  rw [UInt64.toNat_add, UInt64.toNat_mul, ten]
  omega

/-- The loop reads all leading digits, unless their number does not fit. -/
theorem read_digits_eq : ∀ (text : List UInt8) (i : Nat) (value : UInt64), read_digits text i value =
    if numeral value.toNat (text.takeWhile is_digit) < 2 ^ 64 then
      some (i + (text.takeWhile is_digit).length, UInt64.ofNat (numeral value.toNat (text.takeWhile is_digit)),
        text.dropWhile is_digit)
    else none := by
  intro text
  induction text with
  | nil =>
    intro i value
    simp [read_digits, numeral, value.toNat_lt]
  | cons c text ih =>
    intro i value
    by_cases digit : is_digit c = true
    · have small := digit_value digit
      have bounds := digit_bounds digit
      have step : numeral value.toNat (c :: text.takeWhile is_digit) =
        numeral (value.toNat * 10 + (c.toNat - 48)) (text.takeWhile is_digit) := rfl
      rw [List.takeWhile_cons_of_pos digit, List.dropWhile_cons_of_pos digit, step, read_digits, if_pos digit]
      dsimp only
      by_cases large : value > (uint64_max - (c - '0'.toUInt8).toUInt64) / 10
      · have beyond := (append_fits (by omega)).mp large
        have grows := numeral_ge (text.takeWhile is_digit) (value.toNat * 10 + (c.toNat - 48))
        rw [if_pos large, if_neg (by omega)]
      · have fits : value.toNat * 10 + (c - '0'.toUInt8).toUInt64.toNat < 2 ^ 64 := by
          rw [append_fits (by omega)] at large
          omega
        rw [if_neg large, ih, append_value fits, small, List.length_cons]
        simp only [Nat.add_assoc, Nat.add_comm 1]
    · rw [read_digits, if_neg digit, List.takeWhile_cons_of_neg digit, List.dropWhile_cons_of_neg digit]
      simp [numeral, value.toNat_lt]

/-! ### The letter -/

/-- Clearing one bit maps the two cases of a letter, and nothing else, to it. -/
theorem find_suffix_folded (c : UInt8) (power : Nat) :
    find_suffix (c &&& ~~~0x20) = some power ↔ IsSuffix [c] (power + 1) := by
  have all : ∀ i : Fin 256, find_suffix (UInt8.ofNat i.val &&& ~~~0x20) =
      if UInt8.ofNat i.val = 'K'.toUInt8 ∨ UInt8.ofNat i.val = 'k'.toUInt8 then some 0
      else if UInt8.ofNat i.val = 'M'.toUInt8 ∨ UInt8.ofNat i.val = 'm'.toUInt8 then some 1
      else if UInt8.ofNat i.val = 'G'.toUInt8 ∨ UInt8.ofNat i.val = 'g'.toUInt8 then some 2
      else if UInt8.ofNat i.val = 'T'.toUInt8 ∨ UInt8.ofNat i.val = 't'.toUInt8 then some 3 else none := by
    decide +kernel
  have here := all ⟨c.toNat, c.toNat_lt⟩
  simp only [UInt8.ofNat_toNat] at here
  constructor
  · rw [here]
    intro found
    by_cases kilo : c = 'K'.toUInt8 ∨ c = 'k'.toUInt8
    · rw [if_pos kilo] at found
      cases found
      exact .kilo kilo
    · rw [if_neg kilo] at found
      by_cases mega : c = 'M'.toUInt8 ∨ c = 'm'.toUInt8
      · rw [if_pos mega] at found
        cases found
        exact .mega mega
      · rw [if_neg mega] at found
        by_cases giga : c = 'G'.toUInt8 ∨ c = 'g'.toUInt8
        · rw [if_pos giga] at found
          cases found
          exact .giga giga
        · rw [if_neg giga] at found
          by_cases tera : c = 'T'.toUInt8 ∨ c = 't'.toUInt8
          · rw [if_pos tera] at found
            cases found
            exact .tera tera
          · rw [if_neg tera] at found
            cases found
  · intro suffix
    cases suffix with
    | kilo letter => rcases letter with rfl | rfl <;> decide
    | mega letter => rcases letter with rfl | rfl <;> decide
    | giga letter => rcases letter with rfl | rfl <;> decide
    | tera letter => rcases letter with rfl | rfl <;> decide

theorem IsSuffix.power_le {suffix : List UInt8} {power : Nat} (shape : IsSuffix suffix power) : power ≤ 4 := by
  cases shape <;> decide

/-- A letter is not a digit. -/
theorem IsSuffix.ends {suffix : List UInt8} {power : Nat} (shape : IsSuffix suffix power) :
    suffix.takeWhile is_digit = [] ∧ suffix.dropWhile is_digit = suffix := by
  cases shape with
  | none => exact ⟨rfl, rfl⟩
  | kilo letter => rcases letter with rfl | rfl <;> decide
  | mega letter => rcases letter with rfl | rfl <;> decide
  | giga letter => rcases letter with rfl | rfl <;> decide
  | tera letter => rcases letter with rfl | rfl <;> decide

/-- A text splits into digits and letter in one way. -/
theorem isSize_iff {text : List UInt8} {n : Nat} : IsSize text n ↔ text.takeWhile is_digit ≠ [] ∧
    ∃ power, IsSuffix (text.dropWhile is_digit) power ∧ n = numeral 0 (text.takeWhile is_digit) * 1024 ^ power := by
  constructor
  · rintro ⟨some, digits, suffix⟩
    obtain ⟨nothing, all⟩ := suffix.ends
    rw [List.takeWhile_append_of_pos digits, List.dropWhile_append_of_pos digits, nothing, all, List.append_nil]
    exact ⟨some, _, suffix, rfl⟩
  · rintro ⟨some, power, suffix, rfl⟩
    have size := IsSize.mk some (fun c member => List.mem_takeWhile_imp member) suffix
    rwa [List.takeWhile_append_dropWhile] at size

/-! ### The scale -/

/-- The test before a value is shifted is exact. -/
theorem shift_fits {value : UInt64} {s : Nat} (small : s < 64) :
    value > uint64_max >>> UInt64.ofNat s ↔ 2 ^ 64 ≤ value.toNat * 2 ^ s := by
  have amount : (UInt64.ofNat s).toNat % 64 = s := by
    rw [UInt64.toNat_ofNat']
    omega
  have max : uint64_max.toNat = 2 ^ 64 - 1 := rfl
  rw [gt_iff_lt, UInt64.lt_iff_toNat_lt, UInt64.toNat_shiftRight, amount, max, Nat.shiftRight_eq_div_pow,
    Nat.div_lt_iff_lt_mul (Nat.two_pow_pos s)]
  omega

theorem shift_value {value : UInt64} {s : Nat} (small : s < 64) (fits : value.toNat * 2 ^ s < 2 ^ 64) :
    (value <<< UInt64.ofNat s).toNat = value.toNat * 2 ^ s := by
  have amount : (UInt64.ofNat s).toNat % 64 = s := by
    rw [UInt64.toNat_ofNat']
    omega
  rw [UInt64.toNat_shiftLeft, amount, Nat.shiftLeft_eq, Nat.mod_eq_of_lt fits]

theorem power_shift (power : Nat) : 2 ^ (10 * power) = 1024 ^ power := by
  rw [Nat.pow_mul]

/-- What is made of digits whose number fits, and a letter. -/
theorem parse_size_eq {text : List UInt8} (digits : text.takeWhile is_digit ≠ [])
    (fits : numeral 0 (text.takeWhile is_digit) < 2 ^ 64) {power : Nat}
    (suffix : IsSuffix (text.dropWhile is_digit) power) :
    parse_size text = if numeral 0 (text.takeWhile is_digit) * 1024 ^ power < 2 ^ 64 then
      some (UInt64.ofNat (numeral 0 (text.takeWhile is_digit) * 1024 ^ power)) else none := by
  have zero : (0 : UInt64).toNat = 0 := rfl
  have count : ¬ 0 + (text.takeWhile is_digit).length = 0 := by
    have := List.length_pos_iff.mpr digits
    omega
  have value : (UInt64.ofNat (numeral 0 (text.takeWhile is_digit))).toNat = numeral 0 (text.takeWhile is_digit) :=
    UInt64.toNat_ofNat_of_lt' fits
  rw [parse_size, read_digits_eq, zero, if_pos fits]
  dsimp only
  generalize text.dropWhile is_digit = rest at suffix ⊢
  generalize numeral 0 (text.takeWhile is_digit) = n at fits value ⊢
  generalize 0 + (text.takeWhile is_digit).length = i at count ⊢
  cases power with
  | zero =>
    cases suffix
    rw [if_neg (by simp [count]), Nat.pow_zero, Nat.mul_one, if_pos fits]
  | succ power =>
    obtain ⟨c, rfl⟩ : ∃ c, rest = [c] := by cases suffix <;> exact ⟨_, rfl⟩
    have known := (find_suffix_folded c power).mpr suffix
    have small : 10 * (power + 1) < 64 := by
      have := suffix.power_le
      omega
    rw [if_neg (by simp [count]), ← power_shift]
    dsimp only
    rw [known]
    dsimp only
    by_cases large : UInt64.ofNat n > uint64_max >>> UInt64.ofNat (10 * (power + 1))
    · have beyond := (shift_fits small).mp large
      rw [value] at beyond
      rw [if_pos large, if_neg (by omega)]
    · have room : (UInt64.ofNat n).toNat * 2 ^ (10 * (power + 1)) < 2 ^ 64 := by
        rw [shift_fits small] at large
        omega
      have shifted := shift_value small room
      rw [value] at room shifted
      rw [if_neg large, if_pos room, ← shifted, UInt64.ofNat_toNat]

/-- Nothing else is a size. -/
theorem parse_size_none {text : List UInt8} (bad : text.takeWhile is_digit = [] ∨
    2 ^ 64 ≤ numeral 0 (text.takeWhile is_digit) ∨ ∀ power, ¬ IsSuffix (text.dropWhile is_digit) power) :
    parse_size text = none := by
  have zero : (0 : UInt64).toNat = 0 := rfl
  rw [parse_size, read_digits_eq, zero]
  by_cases fits : numeral 0 (text.takeWhile is_digit) < 2 ^ 64
  · rw [if_pos fits]
    dsimp only
    by_cases refused : 0 + (text.takeWhile is_digit).length = 0 ∨ (text.dropWhile is_digit).length > 1
    · rw [if_pos refused]
    · rw [if_neg refused]
      rw [not_or] at refused
      obtain ⟨count, short⟩ := refused
      have unknown : ∀ power, ¬ IsSuffix (text.dropWhile is_digit) power := by
        rcases bad with empty | large | unknown
        · rw [empty] at count
          exact absurd rfl count
        · omega
        · exact unknown
      generalize text.dropWhile is_digit = rest at short unknown ⊢
      cases rest with
      | nil => exact absurd IsSuffix.none (unknown 0)
      | cons c rest =>
        obtain rfl : rest = [] := by
          rw [List.length_cons] at short
          exact List.length_eq_zero_iff.mp (by omega)
        have none : find_suffix (c &&& ~~~0x20) = none := by
          cases found : find_suffix (c &&& ~~~0x20) with
          | none => rfl
          | some power => exact absurd ((find_suffix_folded c power).mp found) (unknown (power + 1))
        dsimp only
        rw [none]
  · rw [if_neg fits]

theorem parse_size_iff {text : List UInt8} {size : UInt64} : parse_size text = some size ↔ IsSize text size.toNat := by
  constructor
  · intro found
    by_cases good : text.takeWhile is_digit ≠ [] ∧ numeral 0 (text.takeWhile is_digit) < 2 ^ 64 ∧
        ∃ power, IsSuffix (text.dropWhile is_digit) power
    · obtain ⟨digits, fits, power, suffix⟩ := good
      rw [parse_size_eq digits fits suffix] at found
      by_cases room : numeral 0 (text.takeWhile is_digit) * 1024 ^ power < 2 ^ 64
      · rw [if_pos room] at found
        obtain rfl := Option.some.inj found
        rw [UInt64.toNat_ofNat_of_lt' room]
        exact isSize_iff.mpr ⟨digits, power, suffix, rfl⟩
      · rw [if_neg room] at found
        cases found
    · rw [parse_size_none] at found
      · cases found
      · rw [Classical.not_and_iff_not_or_not, Classical.not_and_iff_not_or_not, not_not, not_lt, not_exists] at good
        exact good
  · intro shape
    obtain ⟨digits, power, suffix, value⟩ := isSize_iff.mp shape
    have small := size.toNat_lt
    have fits : numeral 0 (text.takeWhile is_digit) < 2 ^ 64 := by
      calc numeral 0 (text.takeWhile is_digit) ≤ numeral 0 (text.takeWhile is_digit) * 1024 ^ power :=
            Nat.le_mul_of_pos_right _ (Nat.pow_pos (by decide))
        _ < 2 ^ 64 := by rw [← value]; exact small
    rw [parse_size_eq digits fits suffix, ← value, if_pos small, UInt64.ofNat_toNat]

/-! ### No operation wraps -/

/-- Operations on 64-bit values that stop where the result does not fit. -/
def times (a b : UInt64) : Option UInt64 := if a.toNat * b.toNat < 2 ^ 64 then some (a * b) else none
def plus (a b : UInt64) : Option UInt64 := if a.toNat + b.toNat < 2 ^ 64 then some (a + b) else none
def minus (a b : UInt64) : Option UInt64 := if b.toNat ≤ a.toNat then some (a - b) else none
def shifted (a : UInt64) (s : Nat) : Option UInt64 :=
  if s < 64 ∧ a.toNat * 2 ^ s < 2 ^ 64 then some (a <<< UInt64.ofNat s) else none

/-- `read_digits` with these operations; the outer `none` is a stop. -/
def read_digits_checked : List UInt8 → Nat → UInt64 → Option (Option (Nat × UInt64 × List UInt8))
  | [], i, value => some (some (i, value, []))
  | c :: rest, i, value =>
    if is_digit c then do
      let digit := (c - '0'.toUInt8).toUInt64
      let room ← minus uint64_max digit
      if value > room / 10 then some none
      else
        let product ← times value 10
        let sum ← plus product digit
        read_digits_checked rest (i + 1) sum
    else some (some (i, value, c :: rest))

def parse_size_checked (text : List UInt8) : Option (Option UInt64) := do
  match ← read_digits_checked text 0 0 with
  | none => some none
  | some (i, value, rest) =>
    if i = 0 ∨ rest.length > 1 then some none
    else
      match rest with
      | [] => some (some value)
      | c :: _ =>
        match find_suffix (c &&& ~~~0x20) with
        | none => some none
        | some power =>
          if value > uint64_max >>> UInt64.ofNat (10 * (power + 1)) then some none
          else (shifted value (10 * (power + 1))).map some

theorem read_digits_no_wrap : ∀ (text : List UInt8) (i : Nat) (value : UInt64),
    read_digits_checked text i value = some (read_digits text i value) := by
  intro text
  induction text with
  | nil =>
    intro i value
    rfl
  | cons c text ih =>
    intro i value
    by_cases digit : is_digit c = true
    · have small := digit_value digit
      have bounds := digit_bounds digit
      have max : uint64_max.toNat = 2 ^ 64 - 1 := rfl
      have ten : (10 : UInt64).toNat = 10 := rfl
      have room : minus uint64_max (c - '0'.toUInt8).toUInt64 = some (uint64_max - (c - '0'.toUInt8).toUInt64) :=
        if_pos (by omega)
      rw [read_digits_checked, read_digits, if_pos digit, if_pos digit]
      dsimp only
      rw [room, Option.bind_eq_bind, Option.bind_some]
      by_cases large : value > (uint64_max - (c - '0'.toUInt8).toUInt64) / 10
      · rw [if_pos large, if_pos large]
      · have fits : value.toNat * 10 + (c - '0'.toUInt8).toUInt64.toNat < 2 ^ 64 := by
          rw [append_fits (by omega)] at large
          omega
        have product : times value 10 = some (value * 10) := if_pos (by rw [ten]; omega)
        have exactly_ : (value * 10).toNat = value.toNat * 10 := by
          rw [UInt64.toNat_mul, ten]
          omega
        have sum : plus (value * 10) (c - '0'.toUInt8).toUInt64 = some (value * 10 + (c - '0'.toUInt8).toUInt64) :=
          if_pos (by rw [exactly_]; exact fits)
        rw [if_neg large, if_neg large, product, Option.bind_some, sum, Option.bind_some, ih]
    · rw [read_digits_checked, read_digits, if_neg digit, if_neg digit]

theorem parse_size_no_wrap (text : List UInt8) : parse_size_checked text = some (parse_size text) := by
  unfold parse_size_checked parse_size
  rw [read_digits_no_wrap, Option.bind_eq_bind, Option.bind_some]
  cases read_digits text 0 0 with
  | none => rfl
  | some r =>
    obtain ⟨i, value, rest⟩ := r
    dsimp only
    by_cases refused : i = 0 ∨ rest.length > 1
    · rw [if_pos refused, if_pos refused]
    · rw [if_neg refused, if_neg refused]
      cases rest with
      | nil => rfl
      | cons c rest =>
        dsimp only
        cases found : find_suffix (c &&& ~~~0x20) with
        | none => rfl
        | some power =>
          have small : 10 * (power + 1) < 64 := by
            have := ((find_suffix_folded c power).mp found).power_le
            omega
          dsimp only
          by_cases large : value > uint64_max >>> UInt64.ofNat (10 * (power + 1))
          · rw [if_pos large, if_pos large]
          · have room : value.toNat * 2 ^ (10 * (power + 1)) < 2 ^ 64 := by
              rw [shift_fits small] at large
              omega
            rw [if_neg large, if_neg large, shifted, if_pos ⟨small, room⟩]
            rfl

/-- `parse_size` returns the size of a text that is one below 2⁶⁴, and nothing for
    any other text; none of its operations wraps. -/
theorem parse_size_is_exact (text : List UInt8) :
    ((parse_size text).isSome = true ↔ ∃ n, IsSize text n ∧ n < 2 ^ 64) ∧
    (∀ size, parse_size text = some size ↔ IsSize text size.toNat) ∧
    parse_size_checked text = some (parse_size text) := by
  refine ⟨?_, fun size => parse_size_iff, parse_size_no_wrap text⟩
  constructor
  · intro accepted
    obtain ⟨size, found⟩ := Option.isSome_iff_exists.mp accepted
    exact ⟨size.toNat, parse_size_iff.mp found, size.toNat_lt⟩
  · rintro ⟨n, shape, small⟩
    have value : (UInt64.ofNat n).toNat = n := UInt64.toNat_ofNat_of_lt' small
    have found : parse_size text = some (UInt64.ofNat n) := parse_size_iff.mpr (by rw [value]; exact shape)
    rw [found]
    rfl

end Roll.Sizing
