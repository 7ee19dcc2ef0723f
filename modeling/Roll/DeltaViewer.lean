import Roll.DeltaCodec
import Roll.FileSystem

/-!
`view_delta`: the viewer walks a delta and reports by its exit code whether
the stream is well formed. What it prints is in `ViewerOutput`.
-/
namespace Roll

/-- `BLAKE2b::HASH_SIZE`. -/
def BLAKE2B_HASH_SIZE : Nat := 64

namespace DeltaViewer
open DeltaReader

/-- The bytes of an opcode on the wire, as the viewer counts them. -/
def opcode_size (opcode : DiffOpcode) : Nat :=
  1 + 4 + if opcode.op = OP_DELETE then 4 else 1 + opcode.bytes.length

/-- The run of opcodes: its size in bytes and the number of opcodes. -/
def parseDiffData : Nat → Nat → Nat → ReadM (Nat × Nat)
  | 0, _, _ => throw ""
  | fuel + 1, diffSize, opCount => do
    if ← at_diff_opcode then
      let opcode ← read_diff_opcode
      parseDiffData fuel (diffSize + opcode_size opcode) (opCount + 1)
    else
      finish_diff opCount
      pure (diffSize, opCount)

/-- What follows the entry header of a chunk. -/
def view_chunk (fuel : Nat) (header : DeltaEntryHeader) : ReadM Unit :=
  match header.type with
  | .ORIGINAL_CHUNK => pure ()
  | .ADDED_CHUNK => do
    let _ ← read_payload header.out_size.toNat
    pure ()
  | .MODIFIED_CHUNK => do
    let _ ← parseDiffData fuel 0 0
    pure ()

/-- The loop: the number of chunks, and whether it ended with a trailer. -/
def view_items (fuel : Nat) : Nat → Nat → ReadM (Nat × Bool)
  | 0, _ => throw ""
  | left + 1, chunkNum => do
    match ← next_item with
    | .End => pure (chunkNum, false)
    | .Trailer =>
      let _ ← read_trailer
      pure (chunkNum, true)
    | .Entry =>
      let header ← read_entry_header
      view_chunk fuel header
      view_items fuel left (chunkNum + 1)

def view_stream (fuel : Nat) : ReadM Nat := do
  read_header
  let (chunkNum, saw_trailer) ← view_items fuel fuel 0
  finish saw_trailer
  pure chunkNum

def exit_code : EStateM.Result String DeltaReader Nat → Nat
  | .ok _ _ => 0
  | .error _ reader => if reader.io_error then 2 else 1

/-- The reader of a delta that was opened. -/
def reader (file : FileIo) : DeltaReader := { in_ := file, trailer_digest_size_ := BLAKE2B_HASH_SIZE }

def view_delta (env : Environment) (delta_file : Path) (s : System) : Nat :=
  match FileIo.open_in env delta_file s with
  | (false, _, _) => 2
  | (true, file, _) => exit_code (view_stream (file.f_.reach + 1) (reader file))

end DeltaViewer

end Roll
