import Roll.FileSystem
import Roll.HashConcepts

/-!
`Signature`: the chunks of a file and, on request, its whole digest.
-/
namespace Roll

/-- Whether `generate_signatures` also hashes the entire input. -/
inductive WholeFileHash
  | Skip
  | Compute
deriving DecidableEq, Repr

/-- A signed chunk of data. -/
structure SignedChunk where
  signature : UInt64
  hash : List UInt8
  start_offset : Nat
  chunk_size : Nat
deriving DecidableEq, Repr

/-- `operator==`: the digest and the length decide. -/
def SignedChunk.same (a b : SignedChunk) : Bool := a.hash = b.hash && a.chunk_size = b.chunk_size

structure Signature where
  chunks : List SignedChunk := []
  whole_hash_ : List UInt8 := []
deriving DecidableEq, Repr

namespace Signature

def get_chunks (sig : Signature) : List SignedChunk := sig.chunks
def whole_file_hash (sig : Signature) : List UInt8 := sig.whole_hash_

/-- The locals of `generate_signatures`, with the handle it reads from and the
    chunk list it fills. -/
structure Chunker (T : RollingHash) (U : StrongHash) where
  file : FileIo
  fingerprint : T.Fingerprint
  chunk : List UInt8
  current_fingerprint : UInt64
  bytes_read : Nat
  chunks : List SignedChunk
  whole : Option U.State

variable {T : RollingHash} {U : StrongHash}

/-- The mask of a chunk of this size. -/
def mask (size : Nat) : UInt64 := if size < DELTA_TARGET_CHUNK_SIZE then 0x3FFF else 0x0FFF

def boundary_found (size : Nat) (fingerprint : UInt64) : Bool :=
  if size ≥ DELTA_MAX_CHUNK_SIZE then true
  else if size ≥ DELTA_MIN_CHUNK_SIZE then (fingerprint &&& mask size) == (DELTA_BOUNDARY_TARGET &&& mask size)
  else false

/-- `emit_chunk` for the chunk read so far. -/
def emit_chunk (s : Chunker T U) : Chunker T U :=
  { s with
    chunks := s.chunks ++ [{ signature := s.current_fingerprint
                             hash := (U.hash s.chunk).take DELTA_DIGEST_BYTES
                             start_offset := s.bytes_read - s.chunk.length
                             chunk_size := s.chunk.length }]
    whole := s.whole.map (U.update · s.chunk) }

/-- The window that begins a chunk; `false` at the end of the file, also
    within the window. -/
def next_window (s : Chunker T U) : Bool × Chunker T U :=
  let (next, file) := s.file.read_chunk (T.get_window_size s.fingerprint)
  if next = [] then (false, { s with file := file })
  else
    let (full_window, fingerprint) := T.initialize_window next s.fingerprint
    (full_window, { s with
      file := file
      fingerprint := fingerprint
      chunk := next
      current_fingerprint := T.get_current_fingerprint fingerprint
      bytes_read := s.bytes_read + next.length })

/-- The loop; `init` asks for a new window. -/
def loop : Nat → Bool → Chunker T U → Chunker T U
  | 0, _, s => s
  | fuel + 1, init, s =>
    match if init then next_window s else (true, s) with
    | (false, s) => s
    | (true, s) =>
      match s.file.read_byte with
      | (none, file) => { s with file := file }
      | (some byte, file) =>
        let (fingerprint, state) := T.compute_next byte s.fingerprint
        let s := { s with file := file, bytes_read := s.bytes_read + 1, chunk := s.chunk ++ [byte]
                          current_fingerprint := fingerprint, fingerprint := state }
        if boundary_found s.chunk.length fingerprint then loop fuel true { emit_chunk s with chunk := [] }
        else loop fuel false s

/-- `finish`: success only when all of the file was read. -/
def finish (s : Chunker T U) : Bool × Signature × FileIo :=
  if s.file.has_error || s.bytes_read ≠ s.file.size then (false, {}, s.file)
  else (true, { chunks := s.chunks, whole_hash_ := (s.whole.map U.finalize).getD [] }, s.file)

def generate_signatures (T : RollingHash) (U : StrongHash) (file : FileIo) (mode : WholeFileHash) :
    Bool × Signature × FileIo :=
  if !file.is_open then (false, {}, file)
  else
    let whole := if mode = .Compute then some U.init else none
    let (initial, file) := file.read_chunk_at (T.get_window_size T.fresh) 0
    let s : Chunker T U :=
      { file, fingerprint := T.fresh, chunk := [], current_fingerprint := 0, bytes_read := 0, chunks := [], whole }
    if initial = [] then finish s
    else
      let (full_window, fingerprint) := T.initialize_window initial T.fresh
      let s := { s with fingerprint, chunk := initial, bytes_read := initial.length
                        current_fingerprint := T.get_current_fingerprint fingerprint }
      if !full_window then finish (emit_chunk s)
      else
        let s := loop (file.f_.reach + 1) false s
        finish (if s.chunk.length > 0 then emit_chunk s else s)

/-! ### On an object

`generate_signatures` is a method: the lists are members, and may hold what an
earlier call left in them.
-/

/-- `finish`, where `sig` is the object that the lists belong to. -/
def finish_on (s : Chunker T U) (sig : Signature) : Bool × Signature × FileIo :=
  let sig := { sig with chunks := s.chunks }
  if s.file.has_error || s.bytes_read ≠ s.file.size then (false, { sig with chunks := [], whole_hash_ := [] }, s.file)
  else
    match s.whole with
    | some whole => (true, { sig with whole_hash_ := U.finalize whole }, s.file)
    | none => (true, sig, s.file)

def generate_signatures_on (T : RollingHash) (U : StrongHash) (file : FileIo) (mode : WholeFileHash) (sig : Signature) :
    Bool × Signature × FileIo :=
  let sig := { sig with chunks := [], whole_hash_ := [] }
  if !file.is_open then (false, sig, file)
  else
    let whole := if mode = .Compute then some U.init else none
    let (initial, file) := file.read_chunk_at (T.get_window_size T.fresh) 0
    let s : Chunker T U :=
      { file, fingerprint := T.fresh, chunk := [], current_fingerprint := 0, bytes_read := 0, chunks := sig.chunks, whole }
    if initial = [] then finish_on s sig
    else
      let (full_window, fingerprint) := T.initialize_window initial T.fresh
      let s := { s with fingerprint, chunk := initial, bytes_read := initial.length
                        current_fingerprint := T.get_current_fingerprint fingerprint }
      if !full_window then finish_on (emit_chunk s) sig
      else
        let s := loop (file.f_.reach + 1) false s
        finish_on (if s.chunk.length > 0 then emit_chunk s else s) sig

/-- `generate_signatures` from a path. -/
def generate_signatures_path (T : RollingHash) (U : StrongHash) (env : Environment) (datafile : Path)
    (mode : WholeFileHash) (sig : Signature) (sys : System) : Bool × Signature × System :=
  match FileIo.open_in env datafile sys with
  | (false, _, sys) => (false, { sig with chunks := [], whole_hash_ := [] }, sys)
  | (true, file, sys) =>
    let (ok, sig, _) := generate_signatures_on T U file mode sig
    (ok, sig, sys)

end Signature

end Roll
