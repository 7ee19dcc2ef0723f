import Roll.ChunkIndex
import Roll.Diff
import Roll.OutputTransaction

/-!
`Delta`: a delta between two signed files, one entry for each chunk of the new
file.
-/
namespace Roll

structure GenerateState where
  old : FileIo
  file : FileIo
  transaction : OutputTransaction
  system : System
  bytes_written : Nat := 0
  chunks_processed : Nat := 0
  chunk_index : ChunkIndex := {}
  scratch : Scratch := {}

abbrev GenerateM := EStateM DeltaError GenerateState

/-- A run of `generate_delta`: its result and what it leaves. `checked` holds
    the staged bytes once they passed all checks. -/
structure GenerateRun where
  result : Except DeltaError DeltaStats
  old : FileIo
  file : FileIo
  checked : Option (List UInt8)
  system : System

namespace Delta

variable {U : StrongHash}

/-- A method of the writer over the staged file. -/
def writing (m : WriteM Unit) : GenerateM Unit := fun s =>
  match m { out_ := s.transaction.file_, bytes_written_ := s.bytes_written } with
  | .ok _ w =>
    .ok () { s with transaction := { s.transaction with file_ := w.out_ }, bytes_written := w.bytes_written_ }
  | .error message w =>
    .error ⟨.io_error, message⟩
      { s with transaction := { s.transaction with file_ := w.out_ }, bytes_written := w.bytes_written_ }

/-- A method of the transaction. -/
def staging {α : Type} (m : OutputM α) : GenerateM α := fun s =>
  match m (s.transaction, s.system) with
  | .ok a (t, sys) => .ok a { s with transaction := t, system := sys }
  | .error e (t, sys) => .error e { s with transaction := t, system := sys }

/-- One of the two input handles. -/
inductive Input
  | old
  | new
deriving DecidableEq, Repr

def handle (s : GenerateState) : Input → FileIo
  | .old => s.old
  | .new => s.file

def put_handle (s : GenerateState) (f : FileIo) : Input → GenerateState
  | .old => { s with old := f }
  | .new => { s with file := f }

/-- `read_chunk(n, position)` on an input; the bytes, and whether the handle has an error. -/
def read_at (input : Input) (n position : Nat) : GenerateM (List UInt8 × Bool) := fun s =>
  match (handle s input).read_chunk_at n position with
  | (data, f) => .ok (data, f.has_error) (put_handle s f input)

def size_of (input : Input) : GenerateM Nat := fun s => .ok (handle s input).size s

/-- Fail with this error when the condition holds. -/
def fail_if (condition : Bool) (code : DeltaErrc) (message : String) : GenerateM Unit :=
  if condition then throw ⟨code, message⟩ else pure ()

def tiles : List SignedChunk → Nat → Nat → Bool
  | [], covered, size => covered = size
  | chunk :: rest, covered, size =>
    if chunk.start_offset ≠ covered ∨ chunk.chunk_size = 0 ∨ chunk.chunk_size > DELTA_MAX_CHUNK_SIZE ∨
        chunk.chunk_size > size - covered then false
    else tiles rest (covered + chunk.chunk_size) size

/-- The chunks tile `[0, size)` with valid lengths. -/
def coversExactly (chunks : List SignedChunk) (size : Nat) : Bool := tiles chunks 0 size

/-- The bytes that the signature described. -/
def readSignedChunk (U : StrongHash) (input : Input) (chunk : SignedChunk) : GenerateM (List UInt8) := do
  let (data, failed) ← read_at input chunk.chunk_size chunk.start_offset
  fail_if (failed || data.length ≠ chunk.chunk_size) .io_error "Failed to read signed input chunk"
  fail_if (chunk.hash.length ≠ DELTA_DIGEST_BYTES || (U.hash data).length < DELTA_DIGEST_BYTES ||
    chunk.hash ≠ (U.hash data).take DELTA_DIGEST_BYTES) .integrity_mismatch "Input changed since signature generation"
  pure data

/-- The probe past the end of an input. -/
def probe_end (input : Input) (message : String) : GenerateM Unit := do
  let size ← size_of input
  let (data, failed) ← read_at input 1 size
  fail_if (data ≠ [] || failed) .integrity_mismatch message

def verify_chunks (U : StrongHash) : List SignedChunk → GenerateM Unit
  | [] => pure ()
  | chunk :: rest => do
    let _ ← readSignedChunk U .old chunk
    verify_chunks U rest

def verifyOldFile (U : StrongHash) (original_chunks : List SignedChunk) : GenerateM Unit := do
  verify_chunks U original_chunks
  probe_end .old "Old input changed or failed while reading"

/-- The whole-file hash of the new file, read again chunk by chunk. -/
def hash_chunks (U : StrongHash) : List SignedChunk → U.State → GenerateM U.State
  | [], state => pure state
  | chunk :: rest, state => do
    let data ← readSignedChunk U .new chunk
    hash_chunks U rest (U.update state data)

def writeTrailer (U : StrongHash) (new_chunks : List SignedChunk) (precomputed : List UInt8) : GenerateM Unit := do
  let digest ←
    if precomputed = [] then
      let state ← hash_chunks U new_chunks U.init
      pure (U.finalize state)
    else pure precomputed
  probe_end .new "New input changed or failed while reading"
  writing (DeltaWriter.write_trailer digest)

/-- The old chunk that reproduces new chunk `i` verbatim: that at the same
    position, or one the index finds. -/
def find_reusable (original_chunks : List SignedChunk) (i : Nat) (chunk : SignedChunk) : GenerateM (Option Nat) :=
  fun s =>
    if (original_chunks[i]?.map (·.same chunk)).getD false then .ok (some i) s
    else
      match s.chunk_index.find_unused (List.replicate original_chunks.length false) chunk with
      | (found, index) => .ok found { s with chunk_index := index }

/-- `createDiff` with the buffers of the generator. -/
def create_diff (old_data new_data : List UInt8) : GenerateM (List UInt8) := fun s =>
  match Diff.createDiff old_data new_data s.scratch with
  | some (diff, scratch) => .ok diff { s with scratch := scratch }
  | none => .error ⟨.internal_error, "index out of range"⟩ s

def count_chunk : GenerateM Unit := fun s => .ok () { s with chunks_processed := s.chunks_processed + 1 }

/-- Whether the complete MODIFIED record costs less than the literal one. -/
def pays (i : Nat) (new_data diff : List UInt8) : Bool :=
  diff ≠ [] && DeltaWriter.modified_size (UInt64.ofNat i) new_data.length diff.length <
    DeltaWriter.added_size new_data.length

/-- A chunk that no old chunk reproduces: rebuilt from the old chunk at the
    same position where a diff pays for itself, and shipped otherwise. -/
def write_changed (original_chunks : List SignedChunk) (i : Nat) (chunk : SignedChunk) (new_data : List UInt8) :
    GenerateM Unit :=
  match original_chunks[i]? with
  | none => writing (DeltaWriter.write_added chunk.hash new_data)
  | some original => do
    let (old_data, failed) ← read_at .old original.chunk_size original.start_offset
    fail_if (failed || old_data.length ≠ original.chunk_size) .io_error "Failed to read old chunk"
    let diff ← create_diff old_data new_data
    if pays i new_data diff then
      writing (DeltaWriter.write_modified (UInt64.ofNat i) (UInt64.ofNat new_data.length) chunk.hash diff)
    else writing (DeltaWriter.write_added chunk.hash new_data)

/-- One round of `processMultipleChunks`. -/
def process_chunk (U : StrongHash) (original_chunks : List SignedChunk) (i : Nat) (chunk : SignedChunk) :
    GenerateM Unit := do
  match ← find_reusable original_chunks i chunk with
  | some source => writing (DeltaWriter.write_original (UInt64.ofNat source) chunk.hash)
  | none =>
    let new_data ← readSignedChunk U .new chunk
    write_changed original_chunks i chunk new_data
  count_chunk

/-- The new chunks from position `i` on. -/
def processMultipleChunks (U : StrongHash) (original_chunks : List SignedChunk) :
    Nat → List SignedChunk → GenerateM Unit
  | _, [] => pure ()
  | i, chunk :: rest => do
    process_chunk U original_chunks i chunk
    processMultipleChunks U original_chunks (i + 1) rest

def check_sizes (original_chunks new_chunks : List SignedChunk) : GenerateM Unit := do
  let old_size ← size_of .old
  let new_size ← size_of .new
  fail_if (!coversExactly original_chunks old_size || !coversExactly new_chunks new_size) .integrity_mismatch
    "Input size changed since signature generation"

def build_index (original_chunks : List SignedChunk) : GenerateM Unit := fun s =>
  .ok () { s with chunk_index := ChunkIndex.build original_chunks }

def close_inputs : GenerateM Unit := fun s =>
  match s.old.close with
  | (false, f) => .error ⟨.io_error, "Failed to read input files"⟩ { s with old := f }
  | (true, f) =>
    match s.file.close with
    | (false, g) => .error ⟨.io_error, "Failed to read input files"⟩ { s with old := f, file := g }
    | (true, g) => .ok () { s with old := f, file := g }

/-- All of `generateImpl` between the opening of the output and its commit. -/
def build (U : StrongHash) (original newfile : Signature) : GenerateM Unit := do
  check_sizes original.get_chunks newfile.get_chunks
  writing DeltaWriter.write_header
  build_index original.get_chunks
  processMultipleChunks U original.get_chunks 0 newfile.get_chunks
  verifyOldFile U original.get_chunks
  writeTrailer U newfile.get_chunks newfile.whole_file_hash
  close_inputs

/-- The destructor of the transaction ends a run. -/
def conclude (env : Environment) (result : Except DeltaError DeltaStats) (checked : Option (List UInt8))
    (s : GenerateState) : GenerateRun :=
  { result, old := s.old, file := s.file, checked, system := s.transaction.destroy env s.system }

/-- `generateImpl` once the inputs are open. -/
def generate_opened (env : Environment) (U : StrongHash) (original newfile : Signature)
    (oldfile file_to_check delta_file : Path) (s : GenerateState) : GenerateRun :=
  match staging (OutputTransaction.open_ env delta_file [oldfile, file_to_check]) s with
  | .error e s => conclude env (.error e) none s
  | .ok _ s =>
    match build U original newfile s with
    | .error e s => conclude env (.error e) none s
    | .ok _ s =>
      let checked := s.transaction.file_.f_.data
      match staging (OutputTransaction.commit env) s with
      | .error e s => conclude env (.error e) (some checked) s
      | .ok _ s =>
        conclude env (.ok { chunks_processed := s.chunks_processed, bytes_written := s.bytes_written })
          (some checked) s

def generate_delta (env : Environment) (U : StrongHash) (original newfile : Signature)
    (oldfile file_to_check delta_file : Path) (s : System) : GenerateRun :=
  match FileIo.open_in env oldfile s with
  | (false, _, s) =>
    { result := .error ⟨.io_error, "Failed to open old file: " ++ oldfile.string⟩
      old := {}, file := {}, checked := none, system := s }
  | (true, old, s) =>
    match FileIo.open_in env file_to_check s with
    | (false, _, s) =>
      { result := .error ⟨.io_error, "Failed to open new file: " ++ file_to_check.string⟩
        old, file := {}, checked := none, system := s }
    | (true, file, s) =>
      generate_opened env U original newfile oldfile file_to_check delta_file
        { old, file, transaction := {}, system := s }

end Delta

end Roll
