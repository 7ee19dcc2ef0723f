import Roll.Calm

/-!
The handle against a plain cursor.

A plain cursor is a content and a position in it, and every call does at once
what its name says. A handle stands where a cursor stands when it feeds what
the cursor has left and its stream is ahead by the bytes of the read-ahead.
Each call keeps that, a write only where the stream has not met the end of its
file with a drained buffer: the end-of-file state is then still set, and the
stream refuses to write.
-/
namespace Roll.LogicalCursor
open Roll.Cursor Roll.Calm

/-! ### Calls and cursors -/

/-- The calls of a handle. -/
inductive Call
  | read_byte
  | peek_byte
  | read_chunk (chunk_size : Nat)
  | read_chunk_at (chunk_size position : Nat)
  | is_eof
  | write_byte (byte : UInt8)
  | write_chunk (chunk : List UInt8)
deriving DecidableEq, Repr

inductive Answer
  | byte (b : Option UInt8)
  | bytes (w : List UInt8)
  | ended (yes : Bool)
  | written (done : Bool)
deriving DecidableEq, Repr

/-- The bytes a call writes. -/
def Call.stores : Call → Option (List UInt8)
  | .write_byte byte => some [byte]
  | .write_chunk chunk => some chunk
  | _ => none

/-- The offsets and lengths of a call can be represented. -/
def Call.Fits : Call → Prop
  | .read_chunk_at _ position => position ≤ STREAMOFF_MAX
  | .write_chunk chunk => chunk.length ≤ STREAMOFF_MAX
  | _ => True

/-- A call on a handle. -/
def perform (f : FileIo) : Call → Answer × FileIo
  | .read_byte => (.byte f.read_byte.1, f.read_byte.2)
  | .peek_byte => (.byte f.peek_byte.1, f.peek_byte.2)
  | .read_chunk n => (.bytes (f.read_chunk n).1, (f.read_chunk n).2)
  | .read_chunk_at n position => (.bytes (f.read_chunk_at n position).1, (f.read_chunk_at n position).2)
  | .is_eof => (.ended f.is_eof, f)
  | .write_byte byte => (.written (f.write_byte byte).1, (f.write_byte byte).2)
  | .write_chunk chunk => (.written (f.write_chunk chunk).1, (f.write_chunk chunk).2)

structure Plain where
  content : List UInt8
  position : Nat := 0
deriving DecidableEq, Repr

namespace Plain

/-- The available bytes up to `n`, and the cursor behind them. -/
def advance (n : Nat) (q : Plain) : List UInt8 × Plain :=
  let bytes := (q.content.drop q.position).take n
  (bytes, { q with position := q.position + bytes.length })

def store (bytes : List UInt8) (q : Plain) : Plain :=
  { content := FStream.overwrite q.content q.position bytes, position := q.position + bytes.length }

/-- A call on a plain cursor. -/
def perform (q : Plain) : Call → Answer × Plain
  | .read_byte => (.byte (q.advance 1).1.head?, (q.advance 1).2)
  | .peek_byte => (.byte (q.advance 1).1.head?, q)
  | .read_chunk n => (.bytes (q.advance n).1, (q.advance n).2)
  | .read_chunk_at n position =>
    (.bytes ({ q with position }.advance n).1, ({ q with position }.advance n).2)
  | .is_eof => (.ended (q.content.length ≤ q.position), q)
  | .write_byte byte => (.written true, q.store [byte])
  | .write_chunk chunk => (.written true, q.store chunk)

end Plain

/-- The answer of a handle against that of a cursor. A handle may meet the end
    of its file later, with a read. -/
def Agrees : Answer → Answer → Prop
  | .ended yes, .ended yes' => yes = true → yes' = true
  | a, a' => a = a'

/-- On these calls the handle answers as the cursor does, raises no error, and
    its file has the content of the cursor. -/
def Follows : FileIo → Plain → List Call → Prop
  | _, _, [] => True
  | f, q, c :: calls =>
    Agrees (perform f c).1 (q.perform c).1 ∧ (perform f c).2.has_error = false ∧
      (perform f c).2.f_.data = (q.perform c).2.content ∧ Follows (perform f c).2 (q.perform c).2 calls

/-- No write meets a handle at the end of its file. -/
def WritesBeforeEnd : FileIo → List Call → Prop
  | _, [] => True
  | f, c :: calls => (c.stores.isSome → f.is_eof = false) ∧ WritesBeforeEnd (perform f c).2 calls

/-! ### Standing at a position -/

/-- The handle stands at the position `p` of `content`. -/
structure Stands (content : List UInt8) (p : Nat) (f : FileIo) : Prop where
  feeds : Feeds content f (content.drop p) false
  placed : f.f_.pos = p + (f.rlen_ - f.rpos_)

section
variable {content : List UInt8} {p : Nat} {f : FileIo}

theorem stands_opened (content : List UInt8) (handsOver : Bool) : Stands content 0 (FileIo.opened content none handsOver) :=
  ⟨opened_feeds handsOver, rfl⟩

theorem Stands.quiet (stands : Stands content p f) : f.has_error = false := stands.feeds.calm rfl

theorem Stands.flags (stands : Stands content p f) : Flags content false f.f_ := stands.feeds.flags stands.quiet

theorem read_moves (n : Nat) (s : FStream) : (s.read n).2.pos = s.pos + (s.read n).1.length := by
  have still : s.tick.2.pos = s.pos := by
    unfold FStream.tick
    split <;> rfl
  unfold FStream.read
  by_cases good : s.good = true
  · rw [if_neg (by simp [good])]
    generalize s.tick = r at still ⊢
    obtain ⟨e, s'⟩ := r
    dsimp only at still ⊢
    rw [← still]
    cases s'.stopsAt e n <;> rfl
  · rw [if_pos (by simpa using good)]
    rfl

theorem pull_moves (n : Nat) (f : FileIo) : (f.pull n).2.f_.pos = f.f_.pos + (f.pull n).1.length := read_moves n f.f_

theorem refill_placed (placed : f.f_.pos = p + (f.rlen_ - f.rpos_)) (drained : f.rpos_ = f.rlen_) :
    f.refill.2.f_.pos = p + (f.refill.2.rlen_ - f.refill.2.rpos_) := by
  have here : f.discard_read_buffer.f_.pos = p := by
    rw [drained, Nat.sub_self] at placed
    exact placed
  unfold FileIo.refill
  by_cases closed : (!f.discard_read_buffer.f_.opened || !f.discard_read_buffer.readable_ ||
      f.discard_read_buffer.io_error_) = true
  · simp only [if_pos closed]
    exact here
  · simp only [if_neg closed]
    have moved := pull_moves FileIo.READ_BUFFER_SIZE f.discard_read_buffer
    have buffer : (f.discard_read_buffer.pull FileIo.READ_BUFFER_SIZE).2.rpos_ = 0 ∧
        (f.discard_read_buffer.pull FileIo.READ_BUFFER_SIZE).2.rlen_ = 0 := ⟨rfl, rfl⟩
    generalize f.discard_read_buffer.pull FileIo.READ_BUFFER_SIZE = r at moved buffer ⊢
    obtain ⟨got, g⟩ := r
    dsimp only at moved buffer ⊢
    rw [here] at moved
    by_cases nothing : got.length = 0
    · rw [if_pos nothing]
      simp only [buffer.1, buffer.2]
      omega
    · rw [if_neg nothing]
      simp only [buffer.1]
      omega

theorem ahead_placed (placed : f.f_.pos = p + (f.rlen_ - f.rpos_)) :
    f.ahead.2.f_.pos = p + (f.ahead.2.rlen_ - f.ahead.2.rpos_) := by
  unfold FileIo.ahead
  by_cases drained : f.rpos_ = f.rlen_
  · rw [if_pos drained]
    exact refill_placed placed drained
  · rw [if_neg drained]
    exact placed

/-- What is left after taking bytes is what is left at the position behind them. -/
theorem drop_taken (content : List UInt8) (p n : Nat) :
    (content.drop p).drop n = content.drop (p + ((content.drop p).take n).length) := by
  rw [← List.drop_drop, List.length_take]
  by_cases le : n ≤ (content.drop p).length
  · rw [Nat.min_eq_left le]
  · rw [Nat.min_eq_right (by omega), List.drop_length, List.drop_eq_nil_iff]
    omega

theorem read_byte_stands (stands : Stands content p f) :
    f.read_byte.1 = ((content.drop p).take 1).head? ∧
      Stands content (p + ((content.drop p).take 1).length) f.read_byte.2 := by
  have placed := ahead_placed stands.placed
  have result := drop_taken content p 1
  rcases ahead_spec stands.feeds with ⟨g, full, feeds, more⟩ | ⟨g, ended, outcome⟩
  · obtain ⟨b, tail, restIs, here, after⟩ := front_byte feeds more
    rw [full] at placed
    dsimp only at placed
    simp only [FileIo.read_byte, full, here]
    rw [restIs] at result ⊢
    refine ⟨rfl, ?_, ?_⟩
    · rw [← result]
      exact after
    · simp only [List.take_succ_cons, List.take_zero, List.length_cons, List.length_nil]
      omega
  · rw [ended] at placed
    simp only [FileIo.read_byte, ended]
    rcases outcome with ⟨broken, _⟩ | ⟨restIs, _, feeds⟩
    · cases broken
    · rw [restIs]
      refine ⟨rfl, ?_, placed⟩
      rw [List.take_nil, List.length_nil, Nat.add_zero, restIs]
      exact feeds

theorem peek_byte_stands (stands : Stands content p f) :
    f.peek_byte.1 = ((content.drop p).take 1).head? ∧ Stands content p f.peek_byte.2 := by
  have placed := ahead_placed stands.placed
  rcases ahead_spec stands.feeds with ⟨g, full, feeds, more⟩ | ⟨g, ended, outcome⟩
  · obtain ⟨b, tail, restIs, here, _⟩ := front_byte feeds more
    rw [full] at placed
    simp only [FileIo.peek_byte, full, here]
    exact ⟨by rw [restIs]; rfl, feeds, placed⟩
  · rw [ended] at placed
    simp only [FileIo.peek_byte, ended]
    rcases outcome with ⟨broken, _⟩ | ⟨restIs, _, feeds⟩
    · cases broken
    · exact ⟨by rw [restIs]; rfl, by rw [restIs]; exact feeds, placed⟩

theorem read_step_stands (stands : Stands content p f) (step : Nat) :
    (f.read_step step).1 = (content.drop p).take step ∧
      Stands content (p + ((content.drop p).take step).length) (f.read_step step).2 := by
  rcases read_step_spec stands.feeds stands.quiet step with ⟨⟨broken, _⟩, _⟩ | ⟨got, after, _, _⟩
  · cases broken
  rw [drop_taken] at after
  refine ⟨got, after, ?_⟩
  rw [← got]
  obtain ⟨feeds, placed⟩ := stands
  obtain ⟨le, inside⟩ := feeds.window
  have front : ((f.rbuf_.drop f.rpos_).take (min step (f.rlen_ - f.rpos_))).length = min step (f.rlen_ - f.rpos_) := by
    rw [List.length_take, List.length_drop]
    omega
  unfold FileIo.read_step
  dsimp only
  by_cases direct : min step (f.rlen_ - f.rpos_) < step
  · rw [if_pos direct]
    have moved := pull_moves (step - min step (f.rlen_ - f.rpos_))
      { f with rpos_ := f.rpos_ + min step (f.rlen_ - f.rpos_) }
    simp only [List.length_append, front]
    have kept : ∀ n (g : FileIo), (g.pull n).2.rlen_ = g.rlen_ ∧ (g.pull n).2.rpos_ = g.rpos_ := fun _ _ => ⟨rfl, rfl⟩
    rw [moved, (kept _ _).1, (kept _ _).2]
    dsimp only
    omega
  · rw [if_neg direct]
    rw [front]
    dsimp only
    omega

theorem read_steps_stands (n : Nat) : ∀ (fuel : Nat) (vec : List UInt8) (p : Nat) (f : FileIo), Stands content p f →
    n - vec.length ≤ fuel →
    (FileIo.read_steps n fuel vec f).1 = vec ++ (content.drop p).take (n - vec.length) ∧
      Stands content (p + ((content.drop p).take (n - vec.length)).length) (FileIo.read_steps n fuel vec f).2 := by
  intro fuel
  induction fuel with
  | zero =>
    intro vec p f stands enough
    have done : n - vec.length = 0 := by omega
    simpa [FileIo.read_steps, done] using stands
  | succ fuel ih =>
    intro vec p f stands enough
    unfold FileIo.read_steps
    by_cases more : vec.length < n
    · simp only [more, if_true]
      have le : min (n - vec.length) FileIo.READ_BUFFER_SIZE ≤ n - vec.length := Nat.min_le_left _ _
      have positive : 0 < min (n - vec.length) FileIo.READ_BUFFER_SIZE := by
        simp only [FileIo.READ_BUFFER_SIZE]
        omega
      generalize min (n - vec.length) FileIo.READ_BUFFER_SIZE = step at *
      obtain ⟨got, after⟩ := read_step_stands stands step
      have quiet : (f.read_step step).2.io_error_ = false := after.quiet
      by_cases short : (f.read_step step).1.length < step
      · simp only [short, decide_true, Bool.true_or, if_true]
        have ended : (content.drop p).length < step := by
          rw [got, List.length_take] at short
          omega
        rw [List.take_of_length_le (by omega)] at got after
        rw [got, List.take_of_length_le (by omega)]
        exact ⟨rfl, after⟩
      · simp only [short, decide_false, quiet, Bool.or_self, Bool.false_eq_true, if_false]
        have whole : ((content.drop p).take step).length = step := by
          have := List.length_take_le step (content.drop p)
          rw [got] at short
          omega
        have split : n - vec.length = step + (n - (vec.length + step)) := by omega
        rw [whole] at after
        obtain ⟨bytes, after'⟩ := ih (vec ++ (content.drop p).take step) (p + step) _ after
          (by rw [List.length_append, whole]; omega)
        rw [List.length_append, whole, ← List.drop_drop] at bytes after'
        rw [got, split, List.take_add]
        refine ⟨by rw [bytes, List.append_assoc], ?_⟩
        rw [List.length_append, whole, ← Nat.add_assoc]
        exact after'
    · rw [if_neg more]
      have done : n - vec.length = 0 := by omega
      simpa [done] using stands

theorem read_chunk_stands (stands : Stands content p f) (n : Nat) :
    (f.read_chunk n).1 = (content.drop p).take n ∧
      Stands content (p + ((content.drop p).take n).length) (f.read_chunk n).2 := by
  unfold FileIo.read_chunk
  by_cases nothing : n = 0
  · subst nothing
    rw [if_pos rfl]
    exact ⟨rfl, stands⟩
  · have open_ : (!f.f_.opened || !f.readable_ || f.io_error_) = false := by
      rw [stands.feeds.stream.opened, stands.feeds.readable, show f.io_error_ = false from stands.quiet]
      rfl
    obtain ⟨bytes, ⟨clean, readable, window, flags, rest, calm⟩, placed⟩ :=
      read_steps_stands n n [] p f stands (Nat.sub_le _ _)
    rw [if_neg nothing, if_neg (by simp [open_])]
    exact ⟨bytes, ⟨clean, readable, window, flags, rest, calm⟩, placed⟩

/-- A positioned read moves to the position first. -/
theorem read_chunk_at_stands (stands : Stands content p f) (n : Nat) {q : Nat} (fits : q ≤ STREAMOFF_MAX) :
    (f.read_chunk_at n q).1 = (content.drop q).take n ∧
      Stands content (q + ((content.drop q).take n).length) (f.read_chunk_at n q).2 := by
  obtain ⟨⟨⟨opened, data, events, bad⟩, readable, _, _, _, _⟩, _⟩ := id stands
  have quiet : f.io_error_ = false := stands.quiet
  have sought : f.f_.clear.seekg q = { f.f_.clear with pos := q } := by
    simp [FStream.clear, FStream.seekg, FStream.fail, FStream.tick, events]
  have there : Stands content q { f.discard_read_buffer with f_ := { f.f_.clear with pos := q } } := by
    refine ⟨⟨⟨opened, data, events, bad⟩, readable, ⟨Nat.le_refl _, Nat.zero_le _⟩, fun _ => ⟨rfl, ?_, ?_⟩, ?_,
      fun _ => quiet⟩, rfl⟩
    all_goals simp [FStream.clear, buffered, FileIo.discard_read_buffer]
  have unfolded : f.read_chunk_at n q =
      FileIo.read_chunk n { f.discard_read_buffer with f_ := { f.f_.clear with pos := q } } := by
    unfold FileIo.read_chunk_at
    rw [if_neg (by simp [FileIo.discard_read_buffer, opened, readable, quiet, fits])]
    simp only [FileIo.discard_read_buffer, sought]
    exact if_neg (by simp [FStream.fail, FStream.clear])
  rw [unfolded]
  exact read_chunk_stands there n

/-- The end of the file is only reported where nothing is left. -/
theorem is_eof_stands (stands : Stands content p f) (ended : f.is_eof = true) : content.length ≤ p := by
  obtain ⟨drained, met⟩ : f.rpos_ = f.rlen_ ∧ f.f_.eofbit = true := by
    simpa [FileIo.is_eof] using ended
  have past := (stands.flags.eofbit met).1
  rw [stands.placed, drained, Nat.sub_self] at past
  exact past

/-! ### Writing -/

/-- Before a write the stream is put where the cursor stands, and it is ready. -/
theorem unread_stands (stands : Stands content p f) (before : f.is_eof = false) :
    ∃ s, f.unread_buffer = { f.discard_read_buffer with f_ := s } ∧ s.good = true ∧ s.pos = p ∧ s.data = content ∧
      s.events = [] ∧ s.opened = true ∧ s.badFrom = none := by
  have flags := stands.flags
  have quiet : f.io_error_ = false := stands.quiet
  obtain ⟨⟨⟨opened, data, events, bad⟩, _, ⟨le, _⟩, _, _, _⟩, placed⟩ := id stands
  have unbroken : f.f_.badFrom = none := by simpa using bad
  unfold FileIo.unread_buffer
  by_cases unread : f.rlen_ - f.rpos_ > 0
  · have sought : f.f_.clear.seekg (f.f_.pos - (f.rlen_ - f.rpos_)) = { f.f_.clear with pos := p } := by
      have back : f.f_.pos - (f.rlen_ - f.rpos_) = p := by omega
      rw [back]
      simp [FStream.clear, FStream.seekg, FStream.fail, FStream.tick, events]
    refine ⟨{ f.f_.clear with pos := p }, ?_, rfl, rfl, data, events, opened, unbroken⟩
    dsimp only
    rw [if_pos unread]
    simp only [FileIo.discard_read_buffer, sought]
    simp [quiet, FStream.fail, FStream.clear]
  · have drained : f.rpos_ = f.rlen_ := by omega
    have apart : f.f_.eofbit = false := by
      simpa [FileIo.is_eof, drained] using before
    have running : f.f_.failbit = false := by
      cases failed : f.f_.failbit with
      | false => rfl
      | true => rw [flags.failbit failed] at apart; cases apart
    refine ⟨f.f_, ?_, ?_, ?_, data, events, opened, unbroken⟩
    · dsimp only
      rw [if_neg unread]
      rfl
    · simp [FStream.good, apart, running, flags.badbit]
    · rw [placed, drained, Nat.sub_self]
      rfl

/-- A handle that is not at the end of its file writes at the cursor. -/
theorem write_chunk_stands (stands : Stands content p f) (before : f.is_eof = false) {chunk : List UInt8}
    (fits : chunk.length ≤ STREAMOFF_MAX) :
    (f.write_chunk chunk).1 = true ∧
      Stands (FStream.overwrite content p chunk) (p + chunk.length) (f.write_chunk chunk).2 := by
  have quiet : f.io_error_ = false := stands.quiet
  have readable : f.readable_ = true := stands.feeds.readable
  obtain ⟨s, unread, ready, there, dataIs, eventsIs, openedIs, badIs⟩ := unread_stands stands before
  have wrote : s.write chunk = { s with data := FStream.overwrite content p chunk, pos := p + chunk.length } := by
    simp [FStream.write, ready, openedIs, FStream.tick, eventsIs, dataIs, there]
  have good' : (s.write chunk).good = true := by
    rw [wrote]
    exact ready
  have tell : (s.write chunk).tellp = some (p + chunk.length) := by
    have running : (s.write chunk).fail = false := by
      simp only [FStream.good, Bool.and_eq_true, Bool.not_eq_true'] at good'
      simp [FStream.fail, good'.1.2, good'.2]
    rw [FStream.tellp, running, wrote]
    rfl
  have result : f.write_chunk chunk = (true, { f.discard_read_buffer with
      f_ := s.write chunk, io_error_ := false, size_ := max f.size_ (p + chunk.length) }) := by
    unfold FileIo.write_chunk
    rw [if_neg (by simp [quiet]), unread]
    simp [FileIo.discard_read_buffer, quiet, fits, good', readable, tell]
  rw [result]
  have good'' := good'
  simp only [FStream.good, Bool.and_eq_true, Bool.not_eq_true'] at good''
  refine ⟨rfl, ⟨⟨?_, ?_, ?_, ?_⟩, readable, ⟨Nat.le_refl _, Nat.zero_le _⟩, fun _ => ⟨good''.2, ?_, ?_⟩, ?_, fun _ => rfl⟩, ?_⟩
  · rw [wrote]; exact openedIs
  · rw [wrote]
  · rw [wrote]; exact eventsIs
  · rw [wrote]; simpa using badIs
  · intro failed
    rw [good''.1.2] at failed
    cases failed
  · intro met
    rw [good''.1.1] at met
    cases met
  · rw [wrote]
    simp [buffered, FileIo.discard_read_buffer]
  · rw [wrote]
    simp [FileIo.discard_read_buffer]

/-- At the end of the file a write is refused. -/
theorem write_chunk_refused (stands : Stands content p f) (ended : f.is_eof = true) (chunk : List UInt8) :
    (f.write_chunk chunk).1 = false := by
  obtain ⟨drained, met⟩ : f.rpos_ = f.rlen_ ∧ f.f_.eofbit = true := by
    simpa [FileIo.is_eof] using ended
  have quiet : f.io_error_ = false := stands.quiet
  have unread : f.unread_buffer = f.discard_read_buffer := by
    simp [FileIo.unread_buffer, drained]
  have refused : f.f_.write chunk = { f.f_ with failbit := true } := if_pos (by simp [FStream.good, met])
  unfold FileIo.write_chunk
  rw [if_neg (by simp [quiet]), unread]
  by_cases large : chunk.length > STREAMOFF_MAX
  · rw [if_pos (by simp [large])]
  · rw [if_neg (by simp [FileIo.discard_read_buffer, quiet, Nat.le_of_not_lt large])]
    simp [FileIo.discard_read_buffer, refused, FStream.good]

end

/-! ### Runs -/

section
variable {f : FileIo} {q : Plain}

/-- A call that is no write at the end of the file does what the cursor does. -/
theorem perform_stands (stands : Stands q.content q.position f) {c : Call} (fits : c.Fits)
    (before : c.stores.isSome → f.is_eof = false) :
    Agrees (perform f c).1 (q.perform c).1 ∧ Stands (q.perform c).2.content (q.perform c).2.position (perform f c).2 := by
  cases c with
  | read_byte =>
    obtain ⟨result, after⟩ := read_byte_stands stands
    exact ⟨congrArg Answer.byte result, after⟩
  | peek_byte =>
    obtain ⟨result, after⟩ := peek_byte_stands stands
    exact ⟨congrArg Answer.byte result, after⟩
  | read_chunk n =>
    obtain ⟨result, after⟩ := read_chunk_stands stands n
    exact ⟨congrArg Answer.bytes result, after⟩
  | read_chunk_at n position =>
    obtain ⟨result, after⟩ := read_chunk_at_stands stands n fits
    exact ⟨congrArg Answer.bytes result, after⟩
  | is_eof => exact ⟨fun ended => decide_eq_true (is_eof_stands stands ended), stands⟩
  | write_byte byte =>
    have small : [byte].length ≤ STREAMOFF_MAX := (by decide : 1 ≤ STREAMOFF_MAX)
    obtain ⟨result, after⟩ := write_chunk_stands stands (before rfl) small
    exact ⟨congrArg Answer.written result, after⟩
  | write_chunk chunk =>
    obtain ⟨result, after⟩ := write_chunk_stands stands (before rfl) fits
    exact ⟨congrArg Answer.written result, after⟩

/-- A write at the end of the file does not. -/
theorem perform_refused (stands : Stands q.content q.position f) {c : Call} (stores : c.stores.isSome)
    (ended : f.is_eof = true) : ¬ Agrees (perform f c).1 (q.perform c).1 := by
  intro agrees
  cases c with
  | write_byte byte =>
    have same : Answer.written (f.write_chunk [byte]).1 = .written true := agrees
    rw [write_chunk_refused stands ended [byte]] at same
    cases same
  | write_chunk chunk =>
    have same : Answer.written (f.write_chunk chunk).1 = .written true := agrees
    rw [write_chunk_refused stands ended chunk] at same
    cases same
  | _ => cases stores

theorem follows_iff : ∀ (calls : List Call) (f : FileIo) (q : Plain), Stands q.content q.position f →
    (∀ c ∈ calls, c.Fits) → (Follows f q calls ↔ WritesBeforeEnd f calls) := by
  intro calls
  induction calls with
  | nil =>
    intro f q _ _
    exact Iff.rfl
  | cons c calls ih =>
    intro f q stands fits
    have rest : ∀ c ∈ calls, c.Fits := fun c member => fits c (List.mem_cons_of_mem _ member)
    have first : c.Fits := fits c List.mem_cons_self
    constructor
    · rintro ⟨agrees, _, _, follows⟩
      have before : c.stores.isSome → f.is_eof = false := by
        intro stores
        cases ended : f.is_eof with
        | false => rfl
        | true => exact absurd agrees (perform_refused stands stores ended)
      exact ⟨before, (ih _ _ (perform_stands stands first before).2 rest).mp follows⟩
    · rintro ⟨before, writes⟩
      obtain ⟨agrees, after⟩ := perform_stands stands first before
      exact ⟨agrees, after.quiet, after.feeds.stream.data, (ih _ _ after rest).mpr writes⟩

theorem reads_before_end : ∀ (calls : List Call) (f : FileIo), (∀ c ∈ calls, c.stores = none) → WritesBeforeEnd f calls := by
  intro calls
  induction calls with
  | nil =>
    intro f _
    trivial
  | cons c calls ih =>
    intro f reads
    refine ⟨?_, ih _ fun c member => reads c (List.mem_cons_of_mem _ member)⟩
    rw [reads c List.mem_cons_self]
    exact fun impossible => by cases impossible

end

/-- A file that nobody changes and that never fails is read through its handle
    as by a plain cursor, whatever the calls are. -/
theorem read_ahead_is_invisible {env : Environment} (quiet : env.Quiet) {s : System} {path : Path} {content : List UInt8}
    (holds : s.Holds env path content) (calm : env.media path = {}) {calls : List Call}
    (reads : ∀ c ∈ calls, c.stores = none) (fits : ∀ c ∈ calls, c.Fits) :
    ∃ f s', FileIo.open_in env path s = (true, f, s') ∧ Follows f { content } calls := by
  refine ⟨_, _, open_in_quiet quiet holds (by rw [calm]), ?_⟩
  rw [calm]
  exact (follows_iff calls _ { content } (stands_opened content true) fits).mpr (reads_before_end calls _ reads)

/-- Reads, across the end of a file of three bytes. -/
theorem read_ahead_is_invisible_three : ∃ f s', FileIo.open_in {} ⟨"", "f"⟩ { fs := .holding [((0, "f"), [1, 2, 3])] } =
    (true, f, s') ∧ Follows f { content := [1, 2, 3] } [.peek_byte, .read_chunk 2, .read_byte, .read_byte, .is_eof,
      .read_chunk_at 5 1] :=
  read_ahead_is_invisible (fun _ => rfl) ⟨0, rfl, rfl⟩ rfl (by decide) (by simp [Call.Fits, STREAMOFF_MAX])

/-- A file opened for reading and writing is used through its handle as with a
    plain cursor exactly as long as no write is made at the end of the file. -/
theorem writes_at_cursor_iff {env : Environment} (quiet : env.Quiet) {s : System} {path : Path} {content : List UInt8}
    (holds : s.Holds env path content) (calm : env.media path = {}) {calls : List Call} (fits : ∀ c ∈ calls, c.Fits) :
    ∃ f s', FileIo.open_inout env path s = (true, f, s') ∧ (Follows f { content } calls ↔ WritesBeforeEnd f calls) := by
  refine ⟨_, _, open_in_quiet quiet holds (by rw [calm]), ?_⟩
  rw [calm]
  exact follows_iff calls _ { content } (stands_opened content true) fits

/-- `writes_at_cursor_iff` for a write between two reads. -/
theorem writes_at_cursor_between : ∃ f s', FileIo.open_inout {} ⟨"", "f"⟩ { fs := .holding [((0, "f"), [1, 2, 3])] } =
    (true, f, s') ∧ (Follows f { content := [1, 2, 3] } [.read_byte, .write_byte 7, .read_chunk 2] ↔
      WritesBeforeEnd f [.read_byte, .write_byte 7, .read_chunk 2]) :=
  writes_at_cursor_iff (fun _ => rfl) ⟨0, rfl, rfl⟩ rfl (by simp [Call.Fits])

/-- A byte that is read from a file of one byte keeps the next one from being
    written. -/
theorem write_after_last_byte : ¬ Follows (FileIo.open_inout {} ⟨"", "f"⟩ { fs := .holding [((0, "f"), [1])] }).2.1
    { content := [1] } [.read_byte, .write_byte 2] := by
  rintro ⟨_, _, _, agrees, _⟩
  have same : Answer.written ((FileIo.open_inout {} ⟨"", "f"⟩ { fs := .holding [((0, "f"), [1])] }).2.1.read_byte.2.write_byte
      2).1 = .written true := agrees
  revert same
  decide

end Roll.LogicalCursor
