import Roll.HashConcepts

/-!
`RKFinger`: the Rabin-Karp rolling fingerprint.
-/
namespace Roll

def ALPHABET_DEF_SIZE : UInt32 := 256
def WINDOW_DEF_SIZE : Nat := 48
/-- The Mersenne prime `2^31 - 1`. -/
def MODULUS_DEF_SIZE : UInt64 := 0x7FFFFFFF

/-- `window_` is a ring buffer whose oldest byte stands at `window_head_`;
    `h_` is `alphabet_size_^(window_size_ - 1)` modulo `modulus_`. -/
structure RKFinger where
  alphabet_size_ : UInt32 := ALPHABET_DEF_SIZE
  window_size_ : Nat := WINDOW_DEF_SIZE
  modulus_ : UInt64 := MODULUS_DEF_SIZE
  fingerprint_ : UInt64 := 0
  h_ : UInt64 := 0
  mersenne_shift_ : Nat := 0
  window_ : List UInt8 := []
  window_head_ : Nat := 0
deriving DecidableEq, Repr

namespace RKFinger

def get_window_size (r : RKFinger) : Nat := r.window_size_
def get_current_fingerprint (r : RKFinger) : UInt64 := r.fingerprint_

/-- The parameters that bound the arithmetic before `reduce`. -/
def overflows (alphabet_size : UInt32) (modulus : UInt64) : Bool :=
  modulus > (0xFFFFFFFFFFFFFFFF - 255) / (2 * max alphabet_size.toUInt64 255)

/-- Exactly one bit is set. -/
def has_single_bit (value : UInt64) : Bool := value ≠ 0 && (value &&& (value - 1)) = 0
def bit_width (value : UInt64) : Nat := if value = 0 then 0 else value.toNat.log2 + 1

def reduce (r : RKFinger) (value : UInt64) : UInt64 :=
  if r.mersenne_shift_ = 0 then value % r.modulus_
  else
    let folded := (value &&& r.modulus_) + (value >>> UInt64.ofNat r.mersenne_shift_)
    if folded ≥ r.modulus_ then folded - r.modulus_ else folded

def configure_fast_reduction (r : RKFinger) : RKFinger :=
  let r := { r with mersenne_shift_ := 0 }
  if !has_single_bit (r.modulus_ + 1) then r
  else
    let k := bit_width r.modulus_
    let a := r.alphabet_size_.toUInt64
    if a = 0 then r
    else if overflows r.alphabet_size_ r.modulus_ then r
    else
      let max_input := max (2 * a * r.modulus_ + 255) (255 * (r.modulus_ - 1))
      if max_input >>> UInt64.ofNat k < r.modulus_ then { r with mersenne_shift_ := k } else r

/-- The first `n` powers of the alphabet size are multiplied into `h_`. -/
def raise : Nat → RKFinger → RKFinger
  | 0, r => r
  | n + 1, r => raise n { r with h_ := r.reduce (r.h_ * r.alphabet_size_.toUInt64) }

def init_state (r : RKFinger) : RKFinger :=
  let r := { r with window_ := List.replicate r.window_size_ 0, window_head_ := 0, fingerprint_ := 0 }
  let r := r.configure_fast_reduction
  raise (r.window_size_ - 1) { r with h_ := 1 }

/-- The constructor with parameters; it throws where this is `none`. -/
def make (alphabet_size : UInt32) (window_size : Nat) (modulus : UInt64) : Option RKFinger :=
  if window_size = 0 ∨ modulus = 0 ∨ alphabet_size = 0 ∨ overflows alphabet_size modulus then none
  else some { alphabet_size_ := alphabet_size, window_size_ := window_size, modulus_ := modulus : RKFinger }.init_state

/-- The default constructor. -/
def default : RKFinger := init_state {}

/-- One byte of `initialize_window` enters the fingerprint. -/
def absorb (r : RKFinger) (byte : UInt8) : RKFinger :=
  { r with fingerprint_ := r.reduce (r.alphabet_size_.toUInt64 * r.fingerprint_ + byte.toUInt64) }

/-- Seed the window; `false` when the bytes do not fill it. -/
def initialize_window (initial : List UInt8) (r : RKFinger) : Bool × RKFinger :=
  let bytes := initial.take r.window_size_
  let r := bytes.foldl absorb { r with fingerprint_ := 0, window_head_ := 0 }
  let r := { r with window_ := bytes ++ List.replicate (r.window_size_ - bytes.length) 0 }
  (initial.length ≥ r.window_size_, r)

/-- Evict the oldest byte of the window and append the new one. -/
def compute_next (byte : UInt8) (r : RKFinger) : UInt64 × RKFinger :=
  let evicted := r.window_.getD r.window_head_ 0
  let fingerprint := r.reduce (r.alphabet_size_.toUInt64 *
    ((r.fingerprint_ + r.modulus_) - r.reduce (evicted.toUInt64 * r.h_)) + byte.toUInt64)
  let head := if r.window_head_ + 1 = r.window_size_ then 0 else r.window_head_ + 1
  (fingerprint, { r with fingerprint_ := fingerprint, window_ := r.window_.set r.window_head_ byte, window_head_ := head })

/-- `RKFinger` as the rolling hash of a signature. -/
def rolling : RollingHash where
  Fingerprint := RKFinger
  fresh := default
  get_window_size := get_window_size
  initialize_window := initialize_window
  compute_next := compute_next
  get_current_fingerprint := get_current_fingerprint

end RKFinger

end Roll
