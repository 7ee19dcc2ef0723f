import Roll.Format
import Roll.FileIo

/-!
Serialisation for the delta wire format: the integer primitives, the wire
structures, `DeltaWriter` and `DeltaReader`.

A method that returns `false` and records a message in `error()` is a
computation that fails with that message.
-/
namespace Roll

/-! ### Integer primitives -/

/-- The bytes of a 32-bit value, most significant first. -/
def push_u32_be (out : List UInt8) (value : UInt32) : List UInt8 :=
  out ++ [(value >>> 24).toUInt8, (value >>> 16).toUInt8, (value >>> 8).toUInt8, value.toUInt8]

def load_u32_be : List UInt8 → UInt32
  | a :: b :: c :: d :: _ => (a.toUInt32 <<< 24) ||| (b.toUInt32 <<< 16) ||| (c.toUInt32 <<< 8) ||| d.toUInt32
  | _ => 0

def VARINT_MAX_BYTES : Nat := 10

/-- The loop of `push_varint`; a 64-bit value has at most ten groups. -/
def push_groups : Nat → List UInt8 → UInt64 → List UInt8
  | 0, out, value => out ++ [value.toUInt8]
  | fuel + 1, out, value =>
    if value ≥ 0x80 then push_groups fuel (out ++ [value.toUInt8 ||| 0x80]) (value >>> 7)
    else out ++ [value.toUInt8]

def push_varint (out : List UInt8) (value : UInt64) : List UInt8 := push_groups VARINT_MAX_BYTES out value

def count_groups : Nat → Nat → UInt64 → Nat
  | 0, n, _ => n
  | fuel + 1, n, value => if value ≥ 0x80 then count_groups fuel (n + 1) (value >>> 7) else n

def varint_size (value : UInt64) : Nat := count_groups VARINT_MAX_BYTES 1 value

/-! ### Wire structures -/

structure DeltaEntryHeader where
  type : EntryType
  old_index : UInt64 := 0
  out_size : UInt64 := 0
  digest : List UInt8 := []
deriving DecidableEq, Repr

/-- Entries of this type name a source chunk in the old file. -/
def EntryType.references_old (type : EntryType) : Bool := type = .ORIGINAL_CHUNK || type = .MODIFIED_CHUNK

def DeltaEntryHeader.references_old (header : DeltaEntryHeader) : Bool := header.type.references_old

/-- `'D'`, `'I'` and `'X'`. -/
def OP_REPLACE : UInt8 := 0x44
def OP_INSERT : UInt8 := 0x49
def OP_DELETE : UInt8 := 0x58

structure DiffOpcode where
  op : UInt8
  pos : UInt32 := 0
  delete_length : UInt32 := 0
  bytes : List UInt8 := []
deriving DecidableEq, Repr

def is_diff_opcode : Option UInt8 → Bool
  | some byte => byte == OP_REPLACE || byte == OP_INSERT || byte == OP_DELETE
  | none => false

/-! ### Writer -/

structure DeltaWriter where
  out_ : FileIo
  bytes_written_ : Nat := 0
deriving DecidableEq, Repr

abbrev WriteM := EStateM String DeltaWriter

namespace DeltaWriter

def added_size (payload_size : Nat) : Nat :=
  1 + varint_size (UInt64.ofNat payload_size) + DELTA_DIGEST_BYTES + payload_size

def modified_size (old_index : UInt64) (out_size diff_size : Nat) : Nat :=
  1 + varint_size old_index + varint_size (UInt64.ofNat out_size) + DELTA_DIGEST_BYTES + diff_size

def emit (bytes : List UInt8) (what : String) : WriteM Unit := fun w =>
  match w.out_.write_chunk bytes with
  | (false, out) => .error ("Failed to write " ++ what) { w with out_ := out }
  | (true, out) => .ok () { out_ := out, bytes_written_ := w.bytes_written_ + bytes.length }

/-- The varint loop of `emitRecord`, which stores into its head buffer. -/
def head_groups : Nat → List UInt8 → UInt64 → List UInt8
  | 0, head, value => head ++ [value.toUInt8]
  | fuel + 1, head, value =>
    if value ≥ 0x80 then head_groups fuel (head ++ [value.toUInt8 ||| 0x80]) (value >>> 7)
    else head ++ [value.toUInt8]

def recordHead (type : EntryType) (fields : List UInt64) (digest : List UInt8) : List UInt8 :=
  fields.foldl (head_groups VARINT_MAX_BYTES) [type.toByte] ++ digest.take DELTA_DIGEST_BYTES

def emitRecord (type : EntryType) (fields : List UInt64) (digest body : List UInt8) (what : String) : WriteM Unit := do
  if fields.length > 2 ∨ digest.length ≠ DELTA_DIGEST_BYTES then
    throw ("Invalid " ++ what)
  else
    emit (recordHead type fields digest) what
    if body = [] then pure () else emit body what

def write_header : WriteM Unit :=
  emit (push_u32_be DELTA_MAGIC DELTA_FORMAT_VERSION) "delta header"

def write_original (old_index : UInt64) (digest : List UInt8) : WriteM Unit :=
  emitRecord .ORIGINAL_CHUNK [old_index] digest [] "ORIGINAL entry"

def write_added (digest payload : List UInt8) : WriteM Unit :=
  emitRecord .ADDED_CHUNK [UInt64.ofNat payload.length] digest payload "ADDED entry"

def write_modified (old_index out_size : UInt64) (digest opcodes : List UInt8) : WriteM Unit :=
  emitRecord .MODIFIED_CHUNK [old_index, out_size] digest opcodes "MODIFIED entry"

def write_trailer (digest : List UInt8) : WriteM Unit := do
  emit [DELTA_TRAILER_TAG] "delta trailer"
  emit digest "delta trailer"

end DeltaWriter

/-! ### Reader -/

/-- What a reading method handed to its caller. -/
inductive Decoded
  | header
  | entry (header : DeltaEntryHeader)
  | payload (bytes : List UInt8)
  | opcode (opcode : DiffOpcode)
  | trailer (digest : List UInt8)
deriving DecidableEq, Repr

/-- `decoded` lists what was decoded so far, each with the number of bytes of
    the stream consumed by then; no method looks at it. -/
structure DeltaReader where
  in_ : FileIo
  trailer_digest_size_ : Nat
  decoded : List (Nat × Decoded) := []
deriving DecidableEq, Repr

abbrev ReadM := EStateM String DeltaReader

namespace DeltaReader

/-- What comes next in the stream. -/
inductive Item
  | Entry
  | Trailer
  | End
deriving DecidableEq, Repr

def read_byte : ReadM (Option UInt8) := fun r => .ok r.in_.read_byte.1 { r with in_ := r.in_.read_byte.2 }
def peek_byte : ReadM (Option UInt8) := fun r => .ok r.in_.peek_byte.1 { r with in_ := r.in_.peek_byte.2 }
def read_chunk (n : Nat) : ReadM (List UInt8) := fun r =>
  .ok (r.in_.read_chunk n).1 { r with in_ := (r.in_.read_chunk n).2 }

def io_error (r : DeltaReader) : Bool := r.in_.has_error

/-- Fail with the message when the condition holds. -/
def fail_if (condition : Bool) (message : String) : ReadM Unit := if condition then throw message else pure ()

/-- Fail with the message when the stream has failed. -/
def fail_if_error (message : String) : ReadM Unit := fun r => if r.io_error then .error message r else .ok () r

def record (item : Decoded) : ReadM Unit := fun r =>
  .ok () { r with decoded := r.decoded ++ [(r.in_.position, item)] }

/-- `read_exact`, with the message of the caller for a short read. -/
def read_exact (count : Nat) (message : String) : ReadM (List UInt8) := do
  let out ← read_chunk count
  fail_if (out.length ≠ count) message
  pure out

/-- `read_varint` before its group `i = VARINT_MAX_BYTES - left`. -/
def read_groups (what : String) : Nat → UInt64 → ReadM UInt64
  | 0, _ => throw ("Malformed varint for " ++ what)
  | left + 1, value => do
    match ← read_byte with
    | none => throw ("Truncated delta: missing " ++ what)
    | some byte =>
      let i := VARINT_MAX_BYTES - (left + 1)
      let bits := byte.toUInt64 &&& 0x7F
      if i = VARINT_MAX_BYTES - 1 ∧ bits > 1 then throw ("Malformed varint for " ++ what)
      else
        let value := value ||| (bits <<< UInt64.ofNat (7 * i))
        if byte &&& 0x80 = 0 then pure value else read_groups what left value

def read_varint (what : String) : ReadM UInt64 := read_groups what VARINT_MAX_BYTES 0

def read_header : ReadM Unit := do
  let buf ← read_chunk DELTA_HEADER_SIZE
  fail_if (buf.length ≠ DELTA_HEADER_SIZE) "Truncated delta: missing header"
  fail_if (buf.take 4 ≠ DELTA_MAGIC) "Bad delta magic"
  let version := load_u32_be (buf.drop 4)
  fail_if (version ≠ DELTA_FORMAT_VERSION) ("Unsupported delta version: " ++ toString version.toNat)
  record .header

def next_item : ReadM Item := do
  match ← peek_byte with
  | none => pure .End
  | some byte => if byte = DELTA_TRAILER_TAG then pure .Trailer else pure .Entry

/-- The size field of an entry, bounded by the format maximum. -/
def read_size : ReadM UInt64 := do
  let out_size ← read_varint "chunk size"
  fail_if (out_size.toNat > DELTA_MAX_CHUNK_SIZE)
    ("Delta entry declares an out-of-range chunk size: " ++ toString out_size.toNat)
  pure out_size

/-- What follows the tag of an entry of this type. -/
def read_fields (type : EntryType) : ReadM DeltaEntryHeader := do
  let old_index ← if type.references_old then read_varint "old chunk index" else pure 0
  let out_size ← if type ≠ .ORIGINAL_CHUNK then read_size else pure 0
  let digest ← read_exact DELTA_DIGEST_BYTES "Truncated delta: missing entry digest"
  pure { type, old_index, out_size, digest }

def read_entry_header : ReadM DeltaEntryHeader := do
  match ← read_byte with
  | none => throw "Truncated delta: missing entry type"
  | some tag =>
    fail_if (tag ≥ DELTA_ENTRY_TYPE_LIMIT) ("Unknown entry type in delta: " ++ toString tag.toNat)
    let out ← read_fields (EntryType.ofByte tag)
    record (.entry out)
    pure out

def read_payload (count : Nat) : ReadM (List UInt8) := do
  let out ← read_exact count "Truncated delta: short payload"
  record (.payload out)
  pure out

def at_diff_opcode : ReadM Bool := do
  let byte ← peek_byte
  pure (is_diff_opcode byte)

/-- What follows the tag of an opcode. -/
def read_operands (op : UInt8) : ReadM DiffOpcode := do
  let pos ← read_exact 4 "Truncated diff: missing pos"
  if op = OP_DELETE then
    let length ← read_exact 4 "Truncated diff: missing X length"
    pure { op, pos := load_u32_be pos, delete_length := load_u32_be length }
  else
    match ← read_byte with
    | none => throw "Truncated diff: missing count byte"
    | some count =>
      let bytes ← read_exact count.toNat "Truncated diff: missing inline bytes"
      pure { op, pos := load_u32_be pos, bytes }

def read_diff_opcode : ReadM DiffOpcode := do
  match ← read_byte with
  | none => throw "Truncated diff: missing opcode"
  | some tag =>
    fail_if (!is_diff_opcode (some tag)) "Truncated diff: missing opcode"
    let out ← read_operands tag
    record (.opcode out)
    pure out

def trailer_digest_size : ReadM Nat := fun r => .ok r.trailer_digest_size_ r

def read_trailer : ReadM (List UInt8) := do
  let tag ← read_byte
  fail_if (tag ≠ some DELTA_TRAILER_TAG) "Truncated delta: missing trailer tag"
  let size ← trailer_digest_size
  let digest ← read_exact size "Truncated delta: short trailer"
  let next ← peek_byte
  fail_if next.isSome "Unexpected bytes after delta trailer"
  fail_if_error "Failed to read delta trailer"
  record (.trailer digest)
  pure digest

def finish (saw_trailer : Bool) : ReadM Unit := do
  fail_if_error "Failed to read delta"
  fail_if (!saw_trailer) "Missing delta trailer"

def finish_diff (opcodes : Nat) : ReadM Unit := fail_if (opcodes = 0) "MODIFIED entry has no diff opcodes"

end DeltaReader

end Roll
