import Mathlib.Data.List.Basic

/-!
The argument of `--max-output`.

A text is a list of its bytes. The rest of `main.cpp` is in `CommandLine`.
-/
namespace Roll.Main

/-- `std::numeric_limits<uint64_t>::max()`. -/
def uint64_max : UInt64 := 0xFFFFFFFFFFFFFFFF

def is_digit (c : UInt8) : Bool := '0'.toUInt8 ≤ c && c ≤ '9'.toUInt8

/-- The loop over the digits: their number, their value and the text after
    them; `none` when the value does not fit. -/
def read_digits : List UInt8 → Nat → UInt64 → Option (Nat × UInt64 × List UInt8)
  | [], i, value => some (i, value, [])
  | c :: rest, i, value =>
    if is_digit c then
      let digit := (c - '0'.toUInt8).toUInt64
      if value > (uint64_max - digit) / 10 then none
      else read_digits rest (i + 1) (value * 10 + digit)
    else some (i, value, c :: rest)

def suffixes : List UInt8 := ['K'.toUInt8, 'M'.toUInt8, 'G'.toUInt8, 'T'.toUInt8]

/-- `suffixes.find(c)`. -/
def find_suffix (c : UInt8) : Option Nat := suffixes.findIdx? (· == c)

/-- A byte count such as 4096, 64K or 2G (powers of 1024). -/
def parse_size (text : List UInt8) : Option UInt64 :=
  match read_digits text 0 0 with
  | none => none
  | some (i, value, rest) =>
    if i = 0 ∨ rest.length > 1 then none
    else
      match rest with
      | [] => some value
      | c :: _ =>
        match find_suffix (c &&& ~~~0x20) with
        | none => none
        | some power =>
          let shift := UInt64.ofNat (10 * (power + 1))
          if value > uint64_max >>> shift then none else some (value <<< shift)

end Roll.Main
