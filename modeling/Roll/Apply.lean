import Roll.DeltaCodec
import Roll.OutputTransaction
import Roll.Signature

/-!
`Apply`: a delta is applied to an old file, entry by entry in stream order.

`T` and `U` are the two hash algorithms. A failure ends the run; the state it
leaves is that in which the transaction is destroyed.
-/
namespace Roll

/-- `size_t` subtraction, which wraps. -/
def size_sub (a b : Nat) : Nat := if b ≤ a then a - b else a + 2 ^ 64 - b

theorem size_sub_eq {a b : Nat} (le : b ≤ a) : size_sub a b = a - b := if_pos le

/-- The limit of an application that names none. -/
def UINT64_MAX : Nat := 2 ^ 64 - 1

/-- The locals of `applyDiff`. -/
structure DiffState where
  old_pos : Nat := 0
  new_pos : Nat := 0
  output : List UInt8 := []
deriving DecidableEq, Repr

structure ApplyState (U : StrongHash) where
  old_file : FileIo
  reader : DeltaReader
  transaction : OutputTransaction
  system : System
  whole_file_hash : U.State
  stats : ApplyStats := {}

abbrev ApplyM (U : StrongHash) := EStateM DeltaError (ApplyState U)

/-- A run of `apply_delta`: its result and what it leaves. `checked` holds the
    staged bytes once they passed all checks. -/
structure ApplyRun where
  result : Except DeltaError ApplyStats
  reader : DeltaReader
  checked : Option (List UInt8)
  system : System

namespace Apply

variable {U : StrongHash}

/-- The category of what a reader reports. -/
def category (r : DeltaReader) : DeltaErrc := if r.io_error then .io_error else .corrupt_delta

/-- A method of the reader, whose failures have this category. -/
def reading {α : Type} (code : DeltaReader → DeltaErrc) (m : ReadM α) : ApplyM U α := fun s =>
  match m s.reader with
  | .ok a r => .ok a { s with reader := r }
  | .error message r => .error ⟨code r, message⟩ { s with reader := r }

/-- A method of the transaction. -/
def staging {α : Type} (m : OutputM α) : ApplyM U α := fun s =>
  match m (s.transaction, s.system) with
  | .ok a (t, sys) => .ok a { s with transaction := t, system := sys }
  | .error e (t, sys) => .error e { s with transaction := t, system := sys }

/-- Fail with this error when the condition holds. -/
def fail_if (condition : Bool) (code : DeltaErrc) (message : String) : ApplyM U Unit :=
  if condition then throw ⟨code, message⟩ else pure ()

/-- `data` against a truncated digest. -/
def verifyDigest (U : StrongHash) (data expected : List UInt8) : Bool :=
  if expected.length ≠ DELTA_DIGEST_BYTES then false
  else (U.hash data).take DELTA_DIGEST_BYTES = expected

/-- The bytes of an old chunk. -/
def read_source (source : SignedChunk) (message : String) : ApplyM U (List UInt8) := fun s =>
  match s.old_file.read_chunk_at source.chunk_size source.start_offset with
  | (data, file) =>
    if file.has_error || data.length ≠ source.chunk_size then .error ⟨.io_error, message⟩ { s with old_file := file }
    else .ok data { s with old_file := file }

/-- One opcode of `applyDiff`; a failure is given by its message. -/
def apply_opcode (old_data : List UInt8) (target_size : Nat) (d : DiffState) (opcode : DiffOpcode) :
    Except String DiffState :=
  if opcode.pos.toNat < d.new_pos then .error "Diff position went backwards"
  else
    let match_len := opcode.pos.toNat - d.new_pos
    if match_len > size_sub old_data.length d.old_pos ∨ match_len > size_sub target_size d.output.length then
      .error "Diff out of bounds (match copy)"
    else
      let output := d.output ++ (old_data.drop d.old_pos).take match_len
      let old_pos := d.old_pos + match_len
      let new_pos := d.new_pos + match_len
      if opcode.op = OP_REPLACE ∨ opcode.op = OP_INSERT then
        let count := opcode.bytes.length
        if count > size_sub target_size output.length then .error "Diff out of bounds (inline write)"
        else
          let output := output ++ opcode.bytes
          let new_pos := new_pos + count
          if opcode.op = OP_REPLACE then
            if count > size_sub old_data.length old_pos then .error "Diff out of bounds (D advance)"
            else .ok { old_pos := old_pos + count, new_pos, output }
          else .ok { old_pos, new_pos, output }
      else
        if opcode.delete_length.toNat > size_sub old_data.length old_pos then .error "Diff out of bounds (X delete)"
        else .ok { old_pos := old_pos + opcode.delete_length.toNat, new_pos, output }

/-- The bytes that no opcode wrote come from the tail of the old data. -/
def copy_tail (old_data : List UInt8) (target_size : Nat) (d : DiffState) : Except String (List UInt8) :=
  if d.output.length < target_size then
    let remaining := target_size - d.output.length
    if remaining > size_sub old_data.length d.old_pos then .error "Diff tail copy out of bounds"
    else .ok (d.output ++ (old_data.drop d.old_pos).take remaining)
  else .ok d.output

/-- A step on the diff state, whose failures mean that the delta is corrupt. -/
def patching {α : Type} (step : Except String α) : ApplyM U α :=
  match step with
  | .ok a => pure a
  | .error message => throw ⟨.corrupt_delta, message⟩

/-- The loop of `applyDiff`, with the number of opcodes seen. -/
def apply_opcodes (old_data : List UInt8) (target_size : Nat) : Nat → Nat → DiffState → ApplyM U DiffState
  | 0, _, _ => throw {}
  | fuel + 1, opcodes_seen, d => do
    if ← reading category DeltaReader.at_diff_opcode then
      let opcode ← reading category DeltaReader.read_diff_opcode
      let d ← patching (apply_opcode old_data target_size d opcode)
      apply_opcodes old_data target_size fuel (opcodes_seen + 1) d
    else
      reading (fun _ => .corrupt_delta) (DeltaReader.finish_diff opcodes_seen)
      pure d

def applyDiff (fuel : Nat) (old_data : List UInt8) (target_size : Nat) : ApplyM U (List UInt8) := do
  let d ← apply_opcodes old_data target_size fuel 0 {}
  let output ← patching (copy_tail old_data target_size d)
  if output.length = target_size then pure output else throw {}

/-- The old chunk an entry refers to. -/
def find_source (old_chunks : List SignedChunk) (header : DeltaEntryHeader) : ApplyM U SignedChunk :=
  match old_chunks[header.old_index.toNat]? with
  | some source => pure source
  | none => throw ⟨.corrupt_delta, "Entry references old chunk " ++ toString header.old_index.toNat ++
      ", but the old file has " ++ toString old_chunks.length⟩

/-- What an entry produces. -/
def produce (fuel : Nat) (old_chunks : List SignedChunk) (header : DeltaEntryHeader) : ApplyM U (List UInt8) :=
  match header.type with
  | .ORIGINAL_CHUNK => do
    let source ← find_source old_chunks header
    fail_if (source.hash ≠ header.digest) .integrity_mismatch "ORIGINAL entry digest does not match the old chunk"
    read_source source "Failed to read old chunk"
  | .ADDED_CHUNK => do
    let produced ← reading category (DeltaReader.read_payload header.out_size.toNat)
    fail_if (!verifyDigest U produced header.digest) .integrity_mismatch "ADDED entry hash mismatch"
    pure produced
  | .MODIFIED_CHUNK => do
    let source ← find_source old_chunks header
    let old_data ← read_source source "Failed to read MODIFIED source chunk"
    let produced ← applyDiff fuel old_data header.out_size.toNat
    fail_if (!verifyDigest U produced header.digest) .integrity_mismatch "MODIFIED entry hash mismatch"
    pure produced

/-- The output of an entry is written and counted. -/
def deliver (max_output_bytes : Nat) (produced : List UInt8) : ApplyM U Unit := fun s =>
  if produced.length > size_sub max_output_bytes s.stats.bytes_written then
    .error ⟨.limit_exceeded, "Output would exceed the limit of " ++ toString max_output_bytes ++ " bytes"⟩ s
  else
    match s.transaction.file_.write_chunk produced with
    | (false, file) =>
      .error ⟨.io_error, "Failed to write output chunk"⟩ { s with transaction := { s.transaction with file_ := file } }
    | (true, file) =>
      .ok () { s with
        transaction := { s.transaction with file_ := file }
        whole_file_hash := U.update s.whole_file_hash produced
        stats := { entries_processed := s.stats.entries_processed + 1
                   bytes_written := s.stats.bytes_written + produced.length } }

/-- The trailer against the hash of all that was produced. -/
def check_trailer (trailer : List UInt8) : ApplyM U Unit := fun s =>
  if U.finalize s.whole_file_hash = trailer then .ok () s
  else .error ⟨.integrity_mismatch, "Whole-file hash mismatch"⟩ s

/-- The loop of `apply_delta_impl`; whether it ended with a trailer. -/
def apply_items (fuel : Nat) (old_chunks : List SignedChunk) (max_output_bytes : Nat) : Nat → ApplyM U Bool
  | 0 => throw {}
  | left + 1 => do
    match ← reading category DeltaReader.next_item with
    | .End => pure false
    | .Trailer =>
      let trailer ← reading category DeltaReader.read_trailer
      check_trailer trailer
      pure true
    | .Entry =>
      let header ← reading category DeltaReader.read_entry_header
      let produced ← produce fuel old_chunks header
      deliver max_output_bytes produced
      apply_items fuel old_chunks max_output_bytes left

/-- The chunk list of the old file. -/
def sign_old (T : RollingHash) (old_file_path : Path) : ApplyM U (List SignedChunk) := fun s =>
  match Signature.generate_signatures T U s.old_file .Skip with
  | (false, _, file) =>
    .error ⟨.io_error, "Failed to read old file: " ++ old_file_path.string⟩ { s with old_file := file }
  | (true, sig, file) => .ok sig.get_chunks { s with old_file := file }

def close_inputs : ApplyM U Unit := fun s =>
  match s.old_file.close with
  | (false, file) => .error ⟨.io_error, "Failed to close input files"⟩ { s with old_file := file }
  | (true, file) =>
    match s.reader.in_.close with
    | (false, delta) =>
      .error ⟨.io_error, "Failed to close input files"⟩
        { s with old_file := file, reader := { s.reader with in_ := delta } }
    | (true, delta) => .ok () { s with old_file := file, reader := { s.reader with in_ := delta } }

/-- All of `apply_delta_impl` between the opening of the output and its commit. -/
def reconstruct (T : RollingHash) (fuel : Nat) (old_file_path : Path) (max_output_bytes : Nat) : ApplyM U Unit := do
  reading category DeltaReader.read_header
  let old_chunks ← sign_old T old_file_path
  let saw_trailer ← apply_items fuel old_chunks max_output_bytes fuel
  reading category (DeltaReader.finish saw_trailer)
  close_inputs

/-- The destructor of the transaction ends a run. -/
def conclude (env : Environment) (result : Except DeltaError ApplyStats) (checked : Option (List UInt8))
    (s : ApplyState U) : ApplyRun :=
  { result, reader := s.reader, checked, system := s.transaction.destroy env s.system }

/-- `apply_delta_impl` once the inputs are open. -/
def apply_opened (env : Environment) (T : RollingHash) (fuel : Nat) (old_file_path delta_file_path output_file_path : Path)
    (max_output_bytes : Nat) (s : ApplyState U) : ApplyRun :=
  match staging (OutputTransaction.open_ env output_file_path [old_file_path, delta_file_path]) s with
  | .error e s => conclude env (.error e) none s
  | .ok _ s =>
    match reconstruct T fuel old_file_path max_output_bytes s with
    | .error e s => conclude env (.error e) none s
    | .ok _ s =>
      let checked := s.transaction.file_.f_.data
      match staging (OutputTransaction.commit env) s with
      | .error e s => conclude env (.error e) (some checked) s
      | .ok _ s => conclude env (.ok s.stats) (some checked) s

def reader (U : StrongHash) (delta : FileIo) : DeltaReader := { in_ := delta, trailer_digest_size_ := U.get_hash_size }

def apply_delta (env : Environment) (T : RollingHash) (U : StrongHash)
    (old_file_path delta_file_path output_file_path : Path) (max_output_bytes : Nat) (s : System) : ApplyRun :=
  match FileIo.open_in env old_file_path s with
  | (false, _, s) =>
    { result := .error ⟨.io_error, "Failed to open old file: " ++ old_file_path.string⟩
      reader := reader U {}, checked := none, system := s }
  | (true, old_file, s) =>
    match FileIo.open_in env delta_file_path s with
    | (false, _, s) =>
      { result := .error ⟨.io_error, "Failed to open delta file: " ++ delta_file_path.string⟩
        reader := reader U {}, checked := none, system := s }
    | (true, delta, s) =>
      apply_opened env T (delta.f_.reach + 1) old_file_path delta_file_path output_file_path max_output_bytes
        ({ old_file, reader := reader U delta, transaction := {}, system := s, whole_file_hash := U.init } : ApplyState U)

end Apply

end Roll
