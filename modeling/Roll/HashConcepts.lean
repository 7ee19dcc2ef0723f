import Roll.Format

/-!
The requirements on the two hash algorithms the delta pipeline is built from.
-/
namespace Roll

/-- A rolling fingerprint over a sliding window of bytes. -/
structure RollingHash where
  Fingerprint : Type
  /-- A default-constructed fingerprint. -/
  fresh : Fingerprint
  get_window_size : Fingerprint → Nat
  initialize_window : List UInt8 → Fingerprint → Bool × Fingerprint
  compute_next : UInt8 → Fingerprint → UInt64 × Fingerprint
  get_current_fingerprint : Fingerprint → UInt64

/-- A strong hash with a streaming state machine and a one-shot form. A digest
    has `get_hash_size` bytes, which must cover what a delta stores of it. -/
structure StrongHash where
  State : Type
  /-- The state after `init`. -/
  init : State
  update : State → List UInt8 → State
  finalize : State → List UInt8
  hash : List UInt8 → List UInt8
  get_hash_size : Nat
  finalize_length : ∀ state, (finalize state).length = get_hash_size
  hash_length : ∀ data, (hash data).length = get_hash_size
  enough : DELTA_DIGEST_BYTES ≤ get_hash_size

namespace StrongHash

/-- The digest prefix that identifies a chunk. -/
def digest (U : StrongHash) (data : List UInt8) : List UInt8 := (U.hash data).take DELTA_DIGEST_BYTES

theorem digest_length (U : StrongHash) (data : List UInt8) : (U.digest data).length = DELTA_DIGEST_BYTES := by
  rw [digest, List.length_take, U.hash_length]
  exact Nat.min_eq_left U.enough

/-- The streaming form agrees with the one-shot form. -/
def Streams (U : StrongHash) : Prop :=
  ∀ parts : List (List UInt8), U.finalize (parts.foldl U.update U.init) = U.hash parts.flatten

/-- A hash that keeps the first 64 bytes of the message. -/
def padded : StrongHash where
  State := List UInt8
  init := []
  update state data := state ++ data
  finalize state := (state ++ List.replicate 64 0).take 64
  hash data := (data ++ List.replicate 64 0).take 64
  get_hash_size := 64
  finalize_length := by
    intro state
    simp
  hash_length := by
    intro data
    simp
  enough := by decide

theorem joined : ∀ (parts : List (List UInt8)) (state : List UInt8), parts.foldl (· ++ ·) state = state ++ parts.flatten := by
  intro parts
  induction parts with
  | nil => simp
  | cons part rest ih =>
    intro state
    rw [List.foldl_cons, ih, List.flatten_cons, List.append_assoc]

theorem padded_streams : padded.Streams := by
  intro parts
  have all := joined parts []
  rw [List.nil_append] at all
  show ((parts.foldl (· ++ ·) []) ++ List.replicate 64 0).take 64 = _
  rw [all]
  rfl

end StrongHash

end Roll
