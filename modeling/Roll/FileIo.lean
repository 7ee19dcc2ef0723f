import Mathlib.Algebra.Ring.Nat
import Mathlib.Data.List.Basic

/-!
`FileIo`: the read-ahead buffer and the sticky error over a `std::fstream`.

A stream (`FStream`) is one position in the bytes of a file and the three
state flags. What the system does to it is part of its state: from `badFrom`
on the file cannot be read, and `events` says, operation by operation, whether
somebody replaces the content and whether the operation fails.
-/
namespace Roll

/-- What the system does to one operation of a stream: the content the file
    has from here on when it is replaced, and the number of bytes handed over
    before the operation fails. -/
structure Event where
  replaced : Option (List UInt8) := none
  fault : Option Nat := none
deriving DecidableEq, Repr

structure FStream where
  opened : Bool := false
  data : List UInt8 := []
  pos : Nat := 0
  eofbit : Bool := false
  failbit : Bool := false
  badbit : Bool := false
  /-- Reading at this offset raises a stream error. -/
  badFrom : Option Nat := none
  /-- Whether a read that raises the error still hands over the bytes before it. -/
  handsOver : Bool := true
  events : List Event := []
deriving DecidableEq, Repr

namespace FStream

def good (s : FStream) : Bool := !s.eofbit && !s.failbit && !s.badbit
/-- `std::ios::fail`: the failbit or the badbit. -/
def fail (s : FStream) : Bool := s.failbit || s.badbit

/-- An operation reaches the system: its event, and the file as it now is. -/
def tick (s : FStream) : Event × FStream :=
  match s.events with
  | [] => ({}, s)
  | e :: rest => (e, { s with events := rest, data := e.replaced.getD s.data })

/-- The number of bytes after which a read of `n` bytes raises an error. -/
def stopsAt (s : FStream) (e : Event) (n : Nat) : Option Nat :=
  match e.fault, s.badFrom with
  | some j, _ => some j
  | none, some k => if k < s.pos + n ∧ k ≤ s.data.length then some (if s.handsOver then k - s.pos else 0) else none
  | none, none => none

/-- `read` and the `gcount` bytes it stored. -/
def read (n : Nat) (s : FStream) : List UInt8 × FStream :=
  if !s.good then ([], { s with failbit := true })
  else
    let (e, s) := s.tick
    let available := (s.data.drop s.pos).take n
    match s.stopsAt e n with
    | some j => (available.take j, { s with pos := s.pos + (available.take j).length, badbit := true })
    | none =>
      (available, { s with
        pos := s.pos + available.length
        eofbit := available.length < n
        failbit := available.length < n })

def clear (s : FStream) : FStream := { s with eofbit := false, failbit := false, badbit := false }

/-- `seekg` to an absolute position; it does nothing while the stream has failed. -/
def seekg (p : Nat) (s : FStream) : FStream :=
  let s := { s with eofbit := false }
  if s.fail then s
  else
    let (e, s) := s.tick
    if e.fault.isSome then { s with failbit := true } else { s with pos := p }

/-- `content` with `bytes` stored from offset `p` on, a gap before them filled with zeros. -/
def overwrite (content : List UInt8) (p : Nat) (bytes : List UInt8) : List UInt8 :=
  content.take p ++ List.replicate (p - content.length) 0 ++ bytes ++ content.drop (p + bytes.length)

/-- `write`; a failing write may have stored a first part of the bytes, and a
    stream without a file stores none. -/
def write (bytes : List UInt8) (s : FStream) : FStream :=
  if !s.good then { s with failbit := true }
  else if !s.opened then { s with badbit := !bytes.isEmpty }
  else
    let (e, s) := s.tick
    match e.fault with
    | some j =>
      { s with data := overwrite s.data s.pos (bytes.take j), pos := s.pos + (bytes.take j).length, badbit := true }
    | none => { s with data := overwrite s.data s.pos bytes, pos := s.pos + bytes.length }

def tellp (s : FStream) : Option Nat := if s.fail then none else some s.pos

def close (s : FStream) : FStream :=
  let (e, s) := s.tick
  { s with opened := false, failbit := s.failbit || e.fault.isSome }

/-- No offset a read of this stream can reach exceeds this bound. -/
def reach (s : FStream) : Nat := s.data.length + ((s.events.filterMap (·.replaced)).map List.length).sum

end FStream

/-- `std::numeric_limits<std::streamoff>::max()`, also that of `std::streamsize`. -/
def STREAMOFF_MAX : Nat := 2 ^ 63 - 1

/-- The handle. Of the vector `rbuf_` only the bytes stored by the last refill
    are kept. `seen` lists the strings that `read_chunk` returned; no operation
    looks at it. -/
structure FileIo where
  f_ : FStream := {}
  size_ : Nat := 0
  io_error_ : Bool := false
  readable_ : Bool := false
  rbuf_ : List UInt8 := []
  rpos_ : Nat := 0
  rlen_ : Nat := 0
  seen : List (List UInt8) := []
deriving DecidableEq, Repr

namespace FileIo

def READ_BUFFER_SIZE : Nat := 64 * 1024

def is_open (f : FileIo) : Bool := f.f_.opened
def is_eof (f : FileIo) : Bool := f.rpos_ == f.rlen_ && f.f_.eofbit
def has_error (f : FileIo) : Bool := f.io_error_
def size (f : FileIo) : Nat := f.size_

def discard_read_buffer (f : FileIo) : FileIo := { f with rpos_ := 0, rlen_ := 0 }

/-- The stream read of `refill` and `read_chunk`: `f_.read`, its `gcount`
    bytes, and the sticky error, which a short read at the end of the file
    does not set. -/
def pull (n : Nat) (f : FileIo) : List UInt8 × FileIo :=
  let (got, s) := f.f_.read n
  (got, { f with f_ := s, io_error_ := s.badbit || (s.fail && !s.eofbit) })

/-- Pull the next block into `rbuf_`; `false` when there is none. -/
def refill (f : FileIo) : Bool × FileIo :=
  let f := discard_read_buffer f
  if !f.f_.opened || !f.readable_ || f.io_error_ then (false, { f with io_error_ := true })
  else
    let (got, f) := f.pull READ_BUFFER_SIZE
    if got.length = 0 then (false, f) else (true, { f with rbuf_ := got, rlen_ := got.length })

/-- Drop the read-ahead and rewind the stream to the logical read position. -/
def unread_buffer (f : FileIo) : FileIo :=
  let buffered := f.rlen_ - f.rpos_
  let f := discard_read_buffer f
  if buffered > 0 then
    let s := f.f_.clear.seekg (f.f_.pos - buffered)
    { f with f_ := s, io_error_ := f.io_error_ || s.fail }
  else f

/-- Whether a byte stands in the buffer, after a refill when it is drained. -/
def ahead (f : FileIo) : Bool × FileIo := if f.rpos_ = f.rlen_ then refill f else (true, f)

/-- The next byte, consumed; `none` is `EOF`. -/
def read_byte (f : FileIo) : Option UInt8 × FileIo :=
  match f.ahead with
  | (false, f) => (none, f)
  | (true, f) => (f.rbuf_[f.rpos_]?, { f with rpos_ := f.rpos_ + 1 })

def peek_byte (f : FileIo) : Option UInt8 × FileIo :=
  match f.ahead with
  | (false, f) => (none, f)
  | (true, f) => (f.rbuf_[f.rpos_]?, f)

/-- One step of `read_chunk`: up to `step` bytes, first from the buffer, the
    remainder from the stream. -/
def read_step (step : Nat) (f : FileIo) : List UInt8 × FileIo :=
  let buffered := min step (f.rlen_ - f.rpos_)
  let front := (f.rbuf_.drop f.rpos_).take buffered
  let f := { f with rpos_ := f.rpos_ + buffered }
  if buffered < step then
    let (bytes, f) := f.pull (step - buffered)
    (front ++ bytes, f)
  else (front, f)

/-- The loop of `read_chunk`. Every step that does not end it adds a byte, so
    `chunk_size` steps are enough. -/
def read_steps (chunk_size : Nat) : Nat → List UInt8 → FileIo → List UInt8 × FileIo
  | 0, vec, f => (vec, f)
  | fuel + 1, vec, f =>
    if vec.length < chunk_size then
      let step := min (chunk_size - vec.length) READ_BUFFER_SIZE
      let (got, f) := f.read_step step
      if got.length < step || f.io_error_ then (vec ++ got, f)
      else read_steps chunk_size fuel (vec ++ got) f
    else (vec, f)

/-- Up to `chunk_size` bytes from the current position. -/
def read_chunk (chunk_size : Nat) (f : FileIo) : List UInt8 × FileIo :=
  if chunk_size = 0 then ([], f)
  else if !f.f_.opened || !f.readable_ || f.io_error_ then ([], { f with io_error_ := true })
  else
    let (vec, f) := read_steps chunk_size chunk_size [] f
    (vec, { f with seen := f.seen ++ [vec] })

/-- Up to `chunk_size` bytes from `position` on. -/
def read_chunk_at (chunk_size position : Nat) (f : FileIo) : List UInt8 × FileIo :=
  let f := discard_read_buffer f
  if !f.f_.opened || !f.readable_ || f.io_error_ || position > STREAMOFF_MAX then ([], { f with io_error_ := true })
  else
    let s := f.f_.clear.seekg position
    if s.fail then ([], { f with f_ := s, io_error_ := true })
    else read_chunk chunk_size { f with f_ := s }

def write_chunk (chunk : List UInt8) (f : FileIo) : Bool × FileIo :=
  if f.io_error_ then (false, f)
  else
    let f := unread_buffer f
    if f.io_error_ || chunk.length > STREAMOFF_MAX then (false, { f with io_error_ := true })
    else
      let s := f.f_.write chunk
      let f := { f with f_ := s, io_error_ := !s.good }
      if f.io_error_ then (false, f)
      else if !f.readable_ then (true, { f with size_ := f.size_ + chunk.length })
      else
        match s.tellp with
        | some pos => (true, { f with size_ := max f.size_ pos })
        | none => (false, { f with io_error_ := true })

def write_byte (byte : UInt8) (f : FileIo) : Bool × FileIo := write_chunk [byte] f

/-- Close the handle; `false` when an operation on it has failed. -/
def close (f : FileIo) : Bool × FileIo :=
  let f := discard_read_buffer f
  if !f.f_.opened then (true, f)
  else
    let had_stream_error := f.f_.badbit
    let s := f.f_.clear.close
    let f := { f with f_ := s, io_error_ := f.io_error_ || s.fail || had_stream_error, size_ := 0 }
    (!f.io_error_, f)

/-- The offset of the next byte the caller reads. -/
def position (f : FileIo) : Nat := f.f_.pos - (f.rlen_ - f.rpos_)

end FileIo

end Roll
