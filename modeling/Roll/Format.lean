import Mathlib.Data.List.Basic

/-!
The constants of the delta format, its entry types, and the failures and
statistics that generation and application report.
-/
namespace Roll

/-- `'R', 'H', 'D', 0x00`. -/
def DELTA_MAGIC : List UInt8 := [0x52, 0x48, 0x44, 0x00]
def DELTA_FORMAT_VERSION : UInt32 := 5
def DELTA_HEADER_SIZE : Nat := 8
def DELTA_TRAILER_TAG : UInt8 := 0xFF
def DELTA_DIGEST_BYTES : Nat := 16
def DELTA_MIN_CHUNK_SIZE : Nat := 512
def DELTA_TARGET_CHUNK_SIZE : Nat := 8192
def DELTA_MAX_CHUNK_SIZE : Nat := 16384
def DELTA_BOUNDARY_TARGET : UInt64 := 0x2AAB

/-- Per-entry type tag, serialized as one byte. -/
inductive EntryType
  | ORIGINAL_CHUNK
  | ADDED_CHUNK
  | MODIFIED_CHUNK
deriving DecidableEq, Repr

def EntryType.toByte : EntryType → UInt8
  | .ORIGINAL_CHUNK => 0
  | .ADDED_CHUNK => 1
  | .MODIFIED_CHUNK => 2

/-- One past the highest valid entry type. -/
def DELTA_ENTRY_TYPE_LIMIT : UInt8 := 3

/-- `static_cast<EntryType>(tag)` for a tag below `DELTA_ENTRY_TYPE_LIMIT`. -/
def EntryType.ofByte : UInt8 → EntryType
  | 0 => .ORIGINAL_CHUNK
  | 1 => .ADDED_CHUNK
  | _ => .MODIFIED_CHUNK

theorem EntryType.ofByte_toByte (type : EntryType) : EntryType.ofByte type.toByte = type := by
  cases type <;> rfl

theorem EntryType.toByte_lt (type : EntryType) : type.toByte < DELTA_ENTRY_TYPE_LIMIT := by
  cases type <;> decide

theorem EntryType.toByte_ofByte {tag : UInt8} (valid : tag < DELTA_ENTRY_TYPE_LIMIT) : (EntryType.ofByte tag).toByte = tag := by
  have small : tag.toNat < 3 := UInt8.lt_iff_toNat_lt.mp valid
  have cases : tag = 0 ∨ tag = 1 ∨ tag = 2 := by
    rcases (by omega : tag.toNat = 0 ∨ tag.toNat = 1 ∨ tag.toNat = 2) with h | h | h
    · exact .inl (UInt8.toNat_inj.mp h)
    · exact .inr (.inl (UInt8.toNat_inj.mp h))
    · exact .inr (.inr (UInt8.toNat_inj.mp h))
  rcases cases with rfl | rfl | rfl <;> rfl

/-- Failure categories for delta generation and application. -/
inductive DeltaErrc
  | io_error
  | corrupt_delta
  | integrity_mismatch
  | invalid_argument
  | limit_exceeded
  | internal_error
deriving DecidableEq, Repr

/-- A category and a message; a default-constructed error is `io_error` with
    no message. -/
structure DeltaError where
  code : DeltaErrc := .io_error
  message : String := ""
deriving DecidableEq, Repr

structure DeltaStats where
  chunks_processed : Nat := 0
  bytes_written : Nat := 0
deriving DecidableEq, Repr

structure ApplyStats where
  entries_processed : Nat := 0
  bytes_written : Nat := 0
deriving DecidableEq, Repr

end Roll
