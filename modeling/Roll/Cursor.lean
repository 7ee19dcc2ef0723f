import Roll.FileIo

/-!
Reading through `FileIo` is reading at a plain cursor.

`Feeds content f rest faulty` says that the handle `f` stands in a file of
bytes `content` that nobody changes, with `rest` still to be delivered; a
faulty file breaks with a stream error somewhere in `rest` or right after it.
Every read either does what a cursor over `rest` does, or the file is faulty
and the sticky error is set.
-/
namespace Roll.Cursor

/-- Bytes pulled from the stream that the caller has not consumed. -/
def buffered (f : FileIo) : List UInt8 := (f.rbuf_.drop f.rpos_).take (f.rlen_ - f.rpos_)

/-- A stream over `content` without an error so far. -/
structure Clean (content : List UInt8) (faulty : Bool) (s : FStream) : Prop where
  opened : s.opened = true
  data : s.data = content
  events : s.events = []
  badFrom : if faulty then ∃ k, s.badFrom = some k ∧ s.pos ≤ k ∧ k ≤ content.length else s.badFrom = none

/-- The state flags of a stream that met at most the end of its file. -/
structure Flags (content : List UInt8) (faulty : Bool) (s : FStream) : Prop where
  badbit : s.badbit = false
  failbit : s.failbit = true → s.eofbit = true
  eofbit : s.eofbit = true → content.length ≤ s.pos ∧ faulty = false

structure Feeds (content : List UInt8) (f : FileIo) (rest : List UInt8) (faulty : Bool) : Prop where
  stream : Clean content faulty f.f_
  readable : f.readable_ = true
  window : f.rpos_ ≤ f.rlen_ ∧ f.rlen_ ≤ f.rbuf_.length
  flags : f.io_error_ = false → Flags content faulty f.f_
  rest : rest = buffered f ++ content.drop f.f_.pos
  calm : faulty = false → f.io_error_ = false

/-- An operation failed on a faulty file. -/
def Failed (faulty : Bool) (f : FileIo) : Prop := faulty = true ∧ f.io_error_ = true

/-! ### The stream -/

/-- A read of a stream without error delivers the next bytes, or breaks off
    with an error after a part of them. -/
theorem stream_read {content : List UInt8} {faulty : Bool} {s : FStream} (clean : Clean content faulty s)
    (flags : Flags content faulty s) {n : Nat} (positive : 0 < n) :
    Clean content faulty (s.read n).2 ∧
      (s.read n).2.pos = s.pos + (s.read n).1.length ∧
      ((s.read n).1 = (content.drop s.pos).take n ∧ Flags content faulty (s.read n).2 ∧
          (faulty = true → (s.read n).1.length = n) ∨
        faulty = true ∧ (s.read n).2.badbit = true ∧ (s.read n).1 <+: content.drop s.pos ∧ (s.read n).1.length < n) := by
  obtain ⟨opened, data, events, bad⟩ := clean
  obtain ⟨badbit, failbit, eofbit⟩ := flags
  by_cases ended : s.eofbit = true
  · obtain ⟨finished, calm⟩ := eofbit ended
    subst calm
    have nothing : content.drop s.pos = [] := List.drop_eq_nil_iff.mpr finished
    have result : s.read n = ([], { s with failbit := true }) := by simp [FStream.read, FStream.good, ended]
    rw [result]
    refine ⟨⟨opened, data, events, bad⟩, by simp, .inl ⟨by simp [nothing], ⟨badbit, fun _ => ended, fun _ => ⟨finished, rfl⟩⟩, by simp⟩⟩
  · have running : s.failbit = false := by
      cases h : s.failbit with
      | false => rfl
      | true => exact absurd (failbit h) ended
    have good : s.good = true := by simp [FStream.good, ended, running, badbit]
    cases faulty with
    | false =>
      have unbroken : s.badFrom = none := by simpa using bad
      have result : s.read n = ((content.drop s.pos).take n, { s with
          pos := s.pos + ((content.drop s.pos).take n).length
          eofbit := ((content.drop s.pos).take n).length < n
          failbit := ((content.drop s.pos).take n).length < n }) := by
        simp [FStream.read, good, FStream.tick, events, FStream.stopsAt, unbroken, data]
      rw [result]
      refine ⟨⟨opened, data, events, by simpa using unbroken⟩, rfl, .inl ⟨rfl, ⟨badbit, fun h => h, fun h => ⟨?_, rfl⟩⟩, by simp⟩⟩
      simp only [decide_eq_true_eq, List.length_take, List.length_drop] at h ⊢
      omega
    | true =>
      obtain ⟨k, broken, before, inside⟩ : ∃ k, s.badFrom = some k ∧ s.pos ≤ k ∧ k ≤ content.length := by
        simpa using bad
      by_cases reaches : k < s.pos + n
      · have result : s.read n =
            (((content.drop s.pos).take n).take (if s.handsOver then k - s.pos else 0), { s with
              pos := s.pos + (((content.drop s.pos).take n).take (if s.handsOver then k - s.pos else 0)).length
              badbit := true }) := by
          simp [FStream.read, good, FStream.tick, events, FStream.stopsAt, broken, data, reaches, inside]
        rw [result]
        refine ⟨⟨opened, data, events, ?_⟩, rfl, .inr ⟨rfl, rfl, ?_, ?_⟩⟩
        · simp only [if_true]
          refine ⟨k, broken, ?_, inside⟩
          simp only [List.length_take, List.length_drop]
          split <;> omega
        · exact (List.take_prefix _ _).trans (List.take_prefix _ _)
        · simp only [List.length_take, List.length_drop]
          split <;> omega
      · have whole : ((content.drop s.pos).take n).length = n := by
          simp only [List.length_take, List.length_drop]; omega
        have result : s.read n = ((content.drop s.pos).take n, { s with
            pos := s.pos + ((content.drop s.pos).take n).length
            eofbit := ((content.drop s.pos).take n).length < n
            failbit := ((content.drop s.pos).take n).length < n }) := by
          simp [FStream.read, good, FStream.tick, events, FStream.stopsAt, broken, data, reaches]
        rw [result]
        refine ⟨⟨opened, data, events, ?_⟩, rfl, .inl ⟨rfl, ⟨badbit, ?_, ?_⟩, fun _ => whole⟩⟩
        · simp only [if_true]
          exact ⟨k, broken, by rw [whole]; omega, inside⟩
        · intro h; simpa using h
        · intro h; simp [whole] at h

/-! ### The read-ahead -/

theorem buffered_length {f : FileIo} {rest content : List UInt8} {faulty : Bool} (feeds : Feeds content f rest faulty) :
    (buffered f).length = f.rlen_ - f.rpos_ := by
  have inside := feeds.window.2
  simp only [buffered, List.length_take, List.length_drop]
  omega

/-- What `pull` hands over is the front of what the stream had left. -/
theorem pull_spec {content : List UInt8} {faulty : Bool} {f : FileIo} (clean : Clean content faulty f.f_)
    (flags : Flags content faulty f.f_) {n : Nat} (positive : 0 < n) :
    ∃ got s e, f.pull n = (got, { f with f_ := s, io_error_ := e }) ∧ Clean content faulty s ∧
      content.drop f.f_.pos = got ++ content.drop s.pos ∧
      (got = (content.drop f.f_.pos).take n ∧ e = false ∧ Flags content faulty s ∧ (faulty = true → got.length = n) ∨
        faulty = true ∧ e = true ∧ got.length < n) := by
  obtain ⟨clean', moved, outcome⟩ := stream_read clean flags positive
  refine ⟨(f.f_.read n).1, (f.f_.read n).2, (f.f_.read n).2.badbit || ((f.f_.read n).2.fail && !(f.f_.read n).2.eofbit),
    rfl, clean', ?_, ?_⟩
  · have front : (f.f_.read n).1 <+: content.drop f.f_.pos := by
      rcases outcome with ⟨whole, _⟩ | ⟨_, _, part, _⟩
      · rw [whole]; exact List.take_prefix _ _
      · exact part
    obtain ⟨tail, split⟩ := front
    rw [moved, ← List.drop_drop, ← split, List.drop_left]
  · rcases outcome with ⟨whole, flags', full⟩ | ⟨broken, bad, _, short⟩
    · refine .inl ⟨whole, ?_, flags', full⟩
      cases failed : (f.f_.read n).2.failbit with
      | false => simp [FStream.fail, flags'.badbit, failed]
      | true => simp [FStream.fail, flags'.badbit, failed, flags'.failbit failed]
    · exact .inr ⟨broken, by simp [bad], short⟩

theorem refill_spec {content rest : List UInt8} {faulty : Bool} {f : FileIo} (feeds : Feeds content f rest faulty)
    (drained : f.rpos_ = f.rlen_) :
    (∃ g, f.refill = (true, g) ∧ Feeds content g rest faulty ∧ g.rpos_ < g.rlen_) ∨
      ∃ g, f.refill = (false, g) ∧ (Failed faulty g ∨ rest = [] ∧ faulty = false ∧ Feeds content g [] faulty) := by
  obtain ⟨clean, readable, window, flags, restIs, calm⟩ := feeds
  have emptied : buffered f = [] := by simp [buffered, drained]
  rw [emptied, List.nil_append] at restIs
  by_cases errored : f.io_error_ = true
  · refine .inr ⟨{ f with rpos_ := 0, rlen_ := 0, io_error_ := true }, ?_, .inl ⟨?_, rfl⟩⟩
    · simp [FileIo.refill, FileIo.discard_read_buffer, errored]
    · cases faulty with
      | true => rfl
      | false => simp [calm rfl] at errored
  · have flags := flags (by simpa using errored)
    obtain ⟨got, s, e, pulled, clean', split, outcome⟩ :=
      pull_spec (f := f.discard_read_buffer) clean flags (n := FileIo.READ_BUFFER_SIZE) (by decide)
    have unfolded : f.refill =
        if got.length = 0 then (false, { f.discard_read_buffer with f_ := s, io_error_ := e })
        else (true, { f.discard_read_buffer with f_ := s, io_error_ := e, rbuf_ := got, rlen_ := got.length }) := by
      unfold FileIo.refill
      simp only [pulled]
      simp [FileIo.discard_read_buffer, errored, clean.opened, readable]
    rw [unfolded]
    have quiet : faulty = false → e = false := by
      intro calmFile
      rcases outcome with ⟨_, quiet, _⟩ | ⟨broken, _⟩
      · exact quiet
      · simp [calmFile] at broken
    by_cases nothing : got.length = 0
    · refine .inr ⟨_, if_pos nothing, ?_⟩
      rcases outcome with ⟨whole, quiet, flags', full⟩ | ⟨broken, sticky, _⟩
      · right
        have calmFile : faulty = false := by
          cases faulty with
          | false => rfl
          | true => simp [full rfl, FileIo.READ_BUFFER_SIZE] at nothing
        have ended : content.drop f.f_.pos = [] := by
          have taken : (content.drop f.f_.pos).take FileIo.READ_BUFFER_SIZE = [] := by
            rw [← List.length_eq_zero_iff, ← nothing, whole]; rfl
          simpa [FileIo.READ_BUFFER_SIZE] using taken
        refine ⟨restIs.trans ended, calmFile, clean', readable, ⟨Nat.le_refl _, Nat.zero_le _⟩, fun _ => flags', ?_, fun _ => quiet⟩
        have after : content.drop s.pos = [] := by
          have nil : got ++ content.drop s.pos = [] := split.symm.trans ended
          exact (List.append_eq_nil_iff.mp nil).2
        simp [buffered, FileIo.discard_read_buffer, after]
      · exact .inl ⟨broken, sticky⟩
    · refine .inl ⟨_, if_neg nothing, ⟨clean', readable, ⟨Nat.zero_le _, Nat.le_refl _⟩, ?_, ?_, quiet⟩, by
        simp [FileIo.discard_read_buffer]; omega⟩
      · intro noError
        rcases outcome with ⟨_, _, flags', _⟩ | ⟨_, sticky, _⟩
        · exact flags'
        · simp [sticky] at noError
      · rw [restIs]
        simpa [buffered, FileIo.discard_read_buffer] using split

/-- The first buffered byte is the next byte of the cursor. -/
theorem front_byte {content rest : List UInt8} {faulty : Bool} {f : FileIo} (feeds : Feeds content f rest faulty)
    (more : f.rpos_ < f.rlen_) :
    ∃ b tail, rest = b :: tail ∧ f.rbuf_[f.rpos_]? = some b ∧
      Feeds content { f with rpos_ := f.rpos_ + 1 } tail faulty := by
  obtain ⟨clean, readable, ⟨le, inside⟩, flags, restIs, calm⟩ := feeds
  have here : f.rpos_ < f.rbuf_.length := by omega
  have split : buffered f = f.rbuf_[f.rpos_] :: buffered { f with rpos_ := f.rpos_ + 1 } := by
    simp only [buffered]
    rw [List.drop_eq_getElem_cons here, show f.rlen_ - f.rpos_ = (f.rlen_ - (f.rpos_ + 1)) + 1 by omega,
      List.take_succ_cons]
  refine ⟨f.rbuf_[f.rpos_], _, ?_, List.getElem?_eq_getElem here, clean, readable, ⟨more, inside⟩, flags, rfl, calm⟩
  rw [restIs, split, List.cons_append]

/-- The read-ahead as both byte reads use it: it is full, or the file is at
    its end or broken. -/
theorem ahead_spec {content rest : List UInt8} {faulty : Bool} {f : FileIo} (feeds : Feeds content f rest faulty) :
    (∃ g, f.ahead = (true, g) ∧ Feeds content g rest faulty ∧
        g.rpos_ < g.rlen_) ∨
      ∃ g, f.ahead = (false, g) ∧
        (Failed faulty g ∨ rest = [] ∧ faulty = false ∧ Feeds content g [] faulty) := by
  by_cases drained : f.rpos_ = f.rlen_
  · simpa [FileIo.ahead, drained] using refill_spec feeds drained
  · have le := feeds.window.1
    exact .inl ⟨f, if_neg drained, feeds, by omega⟩

theorem read_byte_spec {content rest : List UInt8} {faulty : Bool} {f : FileIo} (feeds : Feeds content f rest faulty) :
    Failed faulty f.read_byte.2 ∨ f.read_byte.1 = rest.head? ∧ Feeds content f.read_byte.2 rest.tail faulty := by
  rcases ahead_spec feeds with ⟨g, full, feeds', more⟩ | ⟨g, ended, outcome⟩
  · obtain ⟨b, tail, restIs, here, after⟩ := front_byte feeds' more
    right
    simp only [FileIo.read_byte, full, restIs, here]
    exact ⟨rfl, after⟩
  · simp only [FileIo.read_byte, ended]
    rcases outcome with failed | ⟨restIs, _, feeds'⟩
    · exact .inl failed
    · right
      rw [restIs]
      exact ⟨rfl, feeds'⟩

/-- A look ahead; that of a faulty file never meets the end. -/
theorem peek_byte_spec {content rest : List UInt8} {faulty : Bool} {f : FileIo} (feeds : Feeds content f rest faulty) :
    Failed faulty f.peek_byte.2 ∨
      f.peek_byte.1 = rest.head? ∧ Feeds content f.peek_byte.2 rest faulty ∧ (faulty = true → rest ≠ []) := by
  rcases ahead_spec feeds with ⟨g, full, feeds', more⟩ | ⟨g, ended, outcome⟩
  · obtain ⟨b, tail, restIs, here, _⟩ := front_byte feeds' more
    right
    simp only [FileIo.peek_byte, full, restIs, here]
    exact ⟨rfl, restIs ▸ feeds', fun _ => List.cons_ne_nil b tail⟩
  · simp only [FileIo.peek_byte, ended]
    rcases outcome with failed | ⟨restIs, calm, feeds'⟩
    · exact .inl failed
    · right
      rw [restIs, calm]
      exact ⟨rfl, calm ▸ feeds', by simp⟩

/-! ### Chunks -/

/-- Taking `n` bytes out of the buffer moves the cursor by `n`. -/
theorem buffer_taken {content rest : List UInt8} {faulty : Bool} {f : FileIo} (feeds : Feeds content f rest faulty)
    {n : Nat} (le : n ≤ f.rlen_ - f.rpos_) :
    (f.rbuf_.drop f.rpos_).take n = rest.take n ∧
      Feeds content { f with rpos_ := f.rpos_ + n } (rest.drop n) faulty := by
  have length := buffered_length feeds
  obtain ⟨clean, readable, ⟨_, inside⟩, flags, restIs, calm⟩ := feeds
  refine ⟨?_, clean, readable, ⟨by simp; omega, inside⟩, flags, ?_, calm⟩
  · rw [restIs, List.take_append_of_le_length (by omega), buffered, List.take_take, Nat.min_eq_left le]
  · rw [restIs, List.drop_append_of_le_length (by omega)]
    simp only [buffered]
    rw [← List.drop_drop, List.drop_take]
    congr 2
    omega

/-- A stream read with a drained buffer moves the cursor by what it delivers. -/
theorem pull_drained {content rest : List UInt8} {faulty : Bool} {f : FileIo} (feeds : Feeds content f rest faulty)
    (drained : f.rpos_ = f.rlen_) (noError : f.io_error_ = false) {n : Nat} (positive : 0 < n) :
    Failed faulty (f.pull n).2 ∧ (f.pull n).1.length < n ∨
      (f.pull n).1 = rest.take n ∧ Feeds content (f.pull n).2 (rest.drop n) faulty ∧ (f.pull n).2.io_error_ = false ∧
        (f.pull n).2.rpos_ = (f.pull n).2.rlen_ ∧ (faulty = true → (f.pull n).1.length = n) := by
  obtain ⟨clean, readable, window, flags, restIs, calm⟩ := feeds
  have emptied : ∀ s e, buffered { f with f_ := s, io_error_ := e } = [] := by simp [buffered, drained]
  rw [show buffered f = [] from emptied f.f_ f.io_error_, List.nil_append] at restIs
  obtain ⟨got, s, e, pulled, clean', split, outcome⟩ := pull_spec clean (flags noError) positive
  rw [pulled]
  rcases outcome with ⟨whole, quiet, flags', full⟩ | ⟨broken, sticky, short⟩
  · refine .inr ⟨by rw [whole, restIs], ⟨clean', readable, window, fun _ => flags', ?_, fun _ => quiet⟩, quiet, drained, full⟩
    rw [emptied, List.nil_append]
    refine List.append_cancel_left (?_ : got ++ _ = got ++ _)
    rw [← split, whole, ← restIs, List.take_append_drop]
  · exact .inl ⟨⟨broken, sticky⟩, short⟩

theorem read_step_spec {content rest : List UInt8} {faulty : Bool} {f : FileIo} (feeds : Feeds content f rest faulty)
    (noError : f.io_error_ = false) (step : Nat) :
    Failed faulty (f.read_step step).2 ∧ (f.read_step step).1.length < step ∨
      (f.read_step step).1 = rest.take step ∧ Feeds content (f.read_step step).2 (rest.drop step) faulty ∧
        (f.read_step step).2.io_error_ = false ∧ (faulty = true → (f.read_step step).1.length = step) := by
  obtain ⟨front, feeds'⟩ := buffer_taken feeds (Nat.min_le_right step (f.rlen_ - f.rpos_))
  have length := buffered_length feeds
  have enough : (rest.take (min step (f.rlen_ - f.rpos_))).length = min step (f.rlen_ - f.rpos_) := by
    rw [List.length_take, feeds.rest, List.length_append]; omega
  simp only [FileIo.read_step, front]
  by_cases direct : min step (f.rlen_ - f.rpos_) < step
  · rw [if_pos direct]
    have drained : f.rpos_ + min step (f.rlen_ - f.rpos_) = f.rlen_ := by
      have := feeds.window.1
      omega
    generalize min step (f.rlen_ - f.rpos_) = taken at *
    have whole : step = taken + (step - taken) := by omega
    rcases pull_drained feeds' drained noError (n := step - taken) (by omega) with
      ⟨failed, short⟩ | ⟨got, after, quiet, _, full⟩
    · refine .inl ⟨failed, ?_⟩
      rw [List.length_append, enough]
      omega
    · refine .inr ⟨?_, ?_, quiet, ?_⟩
      · rw [got, whole, List.take_add, Nat.add_sub_cancel_left]
      · rw [List.drop_drop, ← whole] at after
        exact after
      · intro broken
        rw [List.length_append, enough, full broken]
        omega
  · rw [if_neg direct]
    have covered : min step (f.rlen_ - f.rpos_) = step := by omega
    rw [covered] at feeds' enough ⊢
    exact .inr ⟨rfl, feeds', noError, fun _ => enough⟩

theorem read_steps_spec {content : List UInt8} {faulty : Bool} (n : Nat) :
    ∀ (fuel : Nat) (vec rest : List UInt8) (f : FileIo), Feeds content f rest faulty → f.io_error_ = false →
      n - vec.length ≤ fuel →
      Failed faulty (FileIo.read_steps n fuel vec f).2 ∧ (FileIo.read_steps n fuel vec f).1.length < n ∨
        (FileIo.read_steps n fuel vec f).1 = vec ++ rest.take (n - vec.length) ∧
          Feeds content (FileIo.read_steps n fuel vec f).2 (rest.drop (n - vec.length)) faulty := by
  intro fuel
  induction fuel with
  | zero =>
    intro vec rest f feeds _ enough
    have done : n - vec.length = 0 := by omega
    right
    simpa [FileIo.read_steps, done] using feeds
  | succ fuel ih =>
    intro vec rest f feeds noError enough
    unfold FileIo.read_steps
    by_cases more : vec.length < n
    · simp only [more, if_true]
      have le : min (n - vec.length) FileIo.READ_BUFFER_SIZE ≤ n - vec.length := Nat.min_le_left _ _
      have positive : 0 < min (n - vec.length) FileIo.READ_BUFFER_SIZE := by
        simp only [FileIo.READ_BUFFER_SIZE]; omega
      generalize min (n - vec.length) FileIo.READ_BUFFER_SIZE = step at *
      rcases read_step_spec feeds noError step with ⟨failed, short⟩ | ⟨got, after, quiet, full⟩
      · left
        simp only [failed.2, Bool.or_true, if_true]
        refine ⟨failed, ?_⟩
        rw [List.length_append]
        omega
      · by_cases short : (f.read_step step).1.length < step
        · -- A short step is the end of the file.
          right
          simp only [short, decide_true, Bool.true_or, if_true]
          have ended : rest.length < step := by
            rw [got, List.length_take] at short; omega
          rw [got, List.take_of_length_le (by omega), List.take_of_length_le (by omega)]
          rw [List.drop_of_length_le (by omega)] at after ⊢
          exact ⟨rfl, after⟩
        · simp only [short, decide_false, quiet, Bool.or_self, Bool.false_eq_true, if_false]
          have gotLength : (rest.take step).length = step := by
            have := List.length_take_le step rest
            rw [got] at short; omega
          have split : n - vec.length = step + (n - (vec.length + step)) := by omega
          rw [got]
          rcases ih (vec ++ rest.take step) (rest.drop step) _ after quiet
            (by rw [List.length_append, gotLength]; omega) with failed | ⟨bytes, feeds''⟩
          · exact .inl failed
          · right
            rw [List.length_append, gotLength] at bytes feeds''
            rw [List.drop_drop, ← split] at feeds''
            refine ⟨?_, feeds''⟩
            rw [bytes, List.append_assoc, split, List.take_add]
    · rw [if_neg more]
      have done : n - vec.length = 0 := by omega
      right
      simpa [done] using feeds

theorem read_chunk_spec {content rest : List UInt8} {faulty : Bool} {f : FileIo} (feeds : Feeds content f rest faulty)
    (n : Nat) :
    Failed faulty (f.read_chunk n).2 ∧ (f.read_chunk n).1.length < n ∨
      (f.read_chunk n).1 = rest.take n ∧ Feeds content (f.read_chunk n).2 (rest.drop n) faulty := by
  unfold FileIo.read_chunk
  by_cases nothing : n = 0
  · subst nothing
    exact .inr ⟨rfl, feeds⟩
  · rw [if_neg nothing]
    cases errored : f.io_error_ with
    | true =>
      left
      refine ⟨⟨?_, by simp⟩, by simpa using Nat.pos_of_ne_zero nothing⟩
      cases faulty with
      | true => rfl
      | false => simp [feeds.calm rfl] at errored
    | false =>
      simp only [feeds.stream.opened, feeds.readable, Bool.not_true, Bool.or_self, Bool.false_eq_true, if_false]
      rcases read_steps_spec n n [] rest f feeds errored (by simp) with failed | ⟨bytes, after⟩
      · exact .inl failed
      · right
        simp only [List.nil_append, List.length_nil, Nat.sub_zero] at bytes after
        obtain ⟨clean, readable, window, flags, restIs, calm⟩ := after
        exact ⟨bytes, clean, readable, window, flags, restIs, calm⟩

/-! ### The size

The size taken at open stays until the handle is closed or written. -/

theorem refill_size (f : FileIo) : f.refill.2.size_ = f.size_ := by
  have kept : f.discard_read_buffer.size_ = f.size_ := rfl
  rw [← kept]
  unfold FileIo.refill
  generalize f.discard_read_buffer = g
  have size : (g.pull FileIo.READ_BUFFER_SIZE).2.size_ = g.size_ := rfl
  rcases g.pull FileIo.READ_BUFFER_SIZE with ⟨got, h⟩
  simp only
  split
  · rfl
  · split <;> exact size

theorem ahead_size (f : FileIo) : f.ahead.2.size_ = f.size_ := by
  unfold FileIo.ahead
  split
  · exact refill_size f
  · rfl

theorem read_byte_size (f : FileIo) : f.read_byte.2.size_ = f.size_ := by
  have kept := ahead_size f
  unfold FileIo.read_byte
  split <;> simp_all only

theorem read_step_size (step : Nat) (f : FileIo) : (f.read_step step).2.size_ = f.size_ := by
  unfold FileIo.read_step FileIo.pull
  simp only
  split <;> rfl

theorem read_steps_size (n : Nat) : ∀ (fuel : Nat) (vec : List UInt8) (f : FileIo),
    (FileIo.read_steps n fuel vec f).2.size_ = f.size_ := by
  intro fuel
  induction fuel with
  | zero =>
    intro vec f
    rfl
  | succ fuel ih =>
    intro vec f
    unfold FileIo.read_steps
    simp only
    split
    · split
      · exact read_step_size _ f
      · rw [ih]
        exact read_step_size _ f
    · rfl

theorem read_chunk_size (n : Nat) (f : FileIo) : (f.read_chunk n).2.size_ = f.size_ := by
  unfold FileIo.read_chunk
  split
  · rfl
  · split
    · rfl
    · exact read_steps_size n n [] f

theorem read_chunk_at_size (n p : Nat) (f : FileIo) : (f.read_chunk_at n p).2.size_ = f.size_ := by
  have kept : f.discard_read_buffer.size_ = f.size_ := rfl
  rw [← kept]
  unfold FileIo.read_chunk_at
  generalize f.discard_read_buffer = g
  simp only
  split
  · rfl
  · split
    · rfl
    · exact read_chunk_size n _

/-! ### A failure stays -/

theorem refill_sticky {f : FileIo} (errored : f.io_error_ = true) :
    f.refill = (false, { f with rpos_ := 0, rlen_ := 0, io_error_ := true }) := by
  simp [FileIo.refill, FileIo.discard_read_buffer, errored]

theorem ahead_sticky {f : FileIo} (errored : f.io_error_ = true) : f.ahead.2.io_error_ = true := by
  unfold FileIo.ahead
  split
  · rw [refill_sticky errored]
  · exact errored

theorem read_byte_sticky {f : FileIo} (errored : f.io_error_ = true) : f.read_byte.2.io_error_ = true := by
  have stays := ahead_sticky errored
  unfold FileIo.read_byte
  split <;> simp_all only

theorem peek_byte_sticky {f : FileIo} (errored : f.io_error_ = true) : f.peek_byte.2.io_error_ = true := by
  have stays := ahead_sticky errored
  unfold FileIo.peek_byte
  split <;> simp_all only

theorem read_chunk_sticky {f : FileIo} (errored : f.io_error_ = true) (n : Nat) :
    (f.read_chunk n).2.io_error_ = true := by
  unfold FileIo.read_chunk
  split
  · exact errored
  · simp [errored]

/-! ### Positioned reads -/

/-- A readable handle on a file of bytes `content` that nobody changes and
    that never fails. -/
structure Steady (content : List UInt8) (f : FileIo) : Prop where
  stream : Clean content false f.f_
  readable : f.readable_ = true
  quiet : f.io_error_ = false
  unharmed : f.f_.badbit = false

theorem Feeds.steady {content rest : List UInt8} {f : FileIo} (feeds : Feeds content f rest false) :
    Steady content f := ⟨feeds.stream, feeds.readable, feeds.calm rfl, (feeds.flags (feeds.calm rfl)).badbit⟩

/-- A positioned read puts the cursor at the position first. -/
theorem read_chunk_at_spec {content : List UInt8} {f : FileIo} (steady : Steady content f) (n : Nat) {p : Nat}
    (fits : p ≤ STREAMOFF_MAX) :
    (f.read_chunk_at n p).1 = (content.drop p).take n ∧
      Feeds content (f.read_chunk_at n p).2 (content.drop (p + n)) false := by
  obtain ⟨⟨opened, data, events, bad⟩, readable, quiet, _⟩ := steady
  have unbroken : f.f_.badFrom = none := by simpa using bad
  set s := (f.discard_read_buffer.f_.clear.seekg p) with sIs
  have sought : s = { f.f_.clear with pos := p } := by
    simp [sIs, FileIo.discard_read_buffer, FStream.clear, FStream.seekg, FStream.fail, FStream.tick, events]
  have unfolded : f.read_chunk_at n p = FileIo.read_chunk n { f.discard_read_buffer with f_ := s } := by
    unfold FileIo.read_chunk_at
    rw [if_neg (by simp [FileIo.discard_read_buffer, opened, readable, quiet, fits])]
    simp only [← sIs]
    rw [if_neg (by simp [sought, FStream.fail, FStream.clear])]
  have feeds : Feeds content { f.discard_read_buffer with f_ := s } (content.drop p) false := by
    refine ⟨⟨?_, ?_, ?_, ?_⟩, readable, ⟨Nat.le_refl _, Nat.zero_le _⟩, fun _ => ⟨?_, ?_, ?_⟩, ?_, fun _ => quiet⟩
    all_goals simp [sought, FStream.clear, opened, data, events, unbroken, buffered, FileIo.discard_read_buffer]
  rw [unfolded]
  rcases read_chunk_spec feeds n with ⟨⟨broken, _⟩, _⟩ | ⟨bytes, after⟩
  · cases broken
  · rw [List.drop_drop] at after
    exact ⟨bytes, after⟩

/-! ### Writing -/

/-- A write-only handle that has stored `content` from the start of its file,
    and that nothing disturbs. -/
structure Appends (content : List UInt8) (f : FileIo) : Prop where
  opened : f.f_.opened = true
  data : f.f_.data = content
  pos : f.f_.pos = content.length
  good : f.f_.good = true
  events : f.f_.events = []
  quiet : f.io_error_ = false
  drained : f.rpos_ = f.rlen_
  write_only : f.readable_ = false

theorem write_chunk_spec {content : List UInt8} {f : FileIo} (appends : Appends content f) {chunk : List UInt8}
    (fits : chunk.length ≤ STREAMOFF_MAX) :
    (f.write_chunk chunk).1 = true ∧ Appends (content ++ chunk) (f.write_chunk chunk).2 := by
  obtain ⟨opened, data, pos, good, events, quiet, drained, write_only⟩ := appends
  have unread : f.unread_buffer = f.discard_read_buffer := by
    simp [FileIo.unread_buffer, drained]
  have wrote : f.f_.write chunk = { f.f_ with data := content ++ chunk, pos := content.length + chunk.length } := by
    simp [FStream.write, good, opened, FStream.tick, events, data, pos, FStream.overwrite]
  have good' : (f.f_.write chunk).good = true := by
    rw [wrote]
    exact good
  have result : f.write_chunk chunk = (true, { f.discard_read_buffer with
      f_ := f.f_.write chunk, io_error_ := false, size_ := f.size_ + chunk.length }) := by
    unfold FileIo.write_chunk
    rw [if_neg (by simp [quiet]), unread]
    simp [FileIo.discard_read_buffer, quiet, fits, good', write_only]
  rw [result]
  refine ⟨rfl, ?_, ?_, ?_, good', ?_, rfl, rfl, write_only⟩
  · rw [wrote]; exact opened
  · rw [wrote]
  · rw [wrote]; exact List.length_append.symm
  · rw [wrote]; exact events

/-- Closing such a handle succeeds and keeps what was stored. -/
theorem close_appends {content : List UInt8} {f : FileIo} (appends : Appends content f) :
    f.close.1 = true ∧ f.close.2.f_.data = content ∧ f.close.2.io_error_ = false := by
  obtain ⟨opened, data, _, good, events, quiet, _, _⟩ := appends
  have bad : f.f_.badbit = false := by
    simp only [FStream.good, Bool.and_eq_true, Bool.not_eq_true'] at good
    exact good.2
  simp [FileIo.close, FileIo.discard_read_buffer, opened, FStream.clear, FStream.close, FStream.tick, events,
    FStream.fail, bad, quiet, data]

/-- Closing a handle that was only read succeeds. -/
theorem close_steady {content : List UInt8} {f : FileIo} (steady : Steady content f) : f.close.1 = true := by
  obtain ⟨⟨opened, _, events, _⟩, _, quiet, unharmed⟩ := steady
  simp [FileIo.close, FileIo.discard_read_buffer, opened, FStream.clear, FStream.close, FStream.tick, events,
    FStream.fail, unharmed, quiet]

/-! ### Storing -/

/-- Nobody replaces the file of this stream. -/
def Alone (s : FStream) : Prop := ∀ e ∈ s.events, e.replaced = none

theorem tick_alone {s : FStream} (alone : Alone s) : s.tick.2 = { s with events := s.events.tail } ∧ Alone s.tick.2 := by
  unfold FStream.tick
  split
  · next none => exact ⟨by rw [none, List.tail_nil, ← none], alone⟩
  · next e rest some =>
    have kept : e.replaced = none := alone e (by simp [some])
    refine ⟨by rw [kept, some]; rfl, ?_⟩
    intro e' member
    exact alone e' (by simp [some, show e' ∈ rest from member])

/-- A write-only handle on a file that nobody else writes to: as long as no
    operation on it fails, it has stored `content` from the start of the file. -/
structure Stores (content : List UInt8) (f : FileIo) : Prop where
  opened : f.f_.opened = true
  alone : Alone f.f_
  drained : f.rpos_ = f.rlen_
  write_only : f.readable_ = false
  within : f.f_.data.length ≤ content.length
  stored : f.io_error_ = false → f.f_.data = content ∧ f.f_.pos = content.length ∧ f.f_.good = true

theorem Appends.stores {content : List UInt8} {f : FileIo} (appends : Appends content f) : Stores content f where
  opened := appends.opened
  alone := by simp [Alone, appends.events]
  drained := appends.drained
  write_only := appends.write_only
  within := Nat.le_of_eq (congrArg List.length appends.data)
  stored _ := ⟨appends.data, appends.pos, appends.good⟩

/-- A write stores a first part of its bytes, and all of them unless it fails. -/
theorem write_alone {s : FStream} (opened : s.opened = true) (alone : Alone s) (good : s.good = true) (bytes : List UInt8) :
    (s.write bytes).opened = true ∧ Alone (s.write bytes) ∧
      (∃ k, (s.write bytes).data = FStream.overwrite s.data s.pos (bytes.take k)) ∧
      ((s.write bytes).good = true →
        (s.write bytes).data = FStream.overwrite s.data s.pos bytes ∧ (s.write bytes).pos = s.pos + bytes.length) := by
  obtain ⟨ticked, alone'⟩ := tick_alone alone
  unfold FStream.write
  rw [if_neg (by simp [good]), if_neg (by simp [opened])]
  generalize s.tick = r at ticked alone' ⊢
  obtain ⟨e, s'⟩ := r
  dsimp only at ticked alone' ⊢
  subst ticked
  cases e.fault with
  | some j => exact ⟨opened, alone', ⟨j, rfl⟩, fun good' => by simp [FStream.good] at good'⟩
  | none => exact ⟨opened, alone', ⟨bytes.length, by rw [List.take_length]⟩, fun _ => ⟨rfl, rfl⟩⟩

/-- A write appends its bytes, or sets the sticky error. -/
theorem write_chunk_stores {content : List UInt8} {f : FileIo} (stores : Stores content f) (chunk : List UInt8) :
    Stores (content ++ chunk) (f.write_chunk chunk).2 ∧
      (f.write_chunk chunk).1 = !(f.write_chunk chunk).2.io_error_ := by
  obtain ⟨opened, alone, drained, write_only, within, stored⟩ := stores
  have more : f.f_.data.length ≤ (content ++ chunk).length := by
    rw [List.length_append]
    omega
  have unread : f.unread_buffer = f.discard_read_buffer := by
    simp [FileIo.unread_buffer, drained]
  by_cases failed : f.io_error_ = true
  · have result : f.write_chunk chunk = (false, f) := if_pos failed
    rw [result]
    exact ⟨⟨opened, alone, drained, write_only, more, by simp [failed]⟩, by simp [failed]⟩
  · have quiet : f.io_error_ = false := by simpa using failed
    obtain ⟨data, pos, good⟩ := stored quiet
    by_cases large : chunk.length > STREAMOFF_MAX
    · have result : f.write_chunk chunk = (false, { f.discard_read_buffer with io_error_ := true }) := by
        unfold FileIo.write_chunk
        rw [if_neg failed, unread]
        simp [large]
      rw [result]
      exact ⟨⟨opened, alone, rfl, write_only, more, by simp⟩, rfl⟩
    · have fits : chunk.length ≤ STREAMOFF_MAX := Nat.le_of_not_lt large
      obtain ⟨opened', alone', ⟨k, part⟩, stored'⟩ := write_alone opened alone good chunk
      have within' : (f.f_.write chunk).data.length ≤ (content ++ chunk).length := by
        rw [part, data, pos]
        simp only [FStream.overwrite, List.take_length, Nat.sub_self, List.replicate_zero, List.append_nil,
          List.length_append, List.length_take, List.length_drop]
        omega
      cases good' : (f.f_.write chunk).good with
      | false =>
        have result : f.write_chunk chunk =
            (false, { f.discard_read_buffer with f_ := f.f_.write chunk, io_error_ := true }) := by
          unfold FileIo.write_chunk
          rw [if_neg failed, unread, if_neg (by simp [FileIo.discard_read_buffer, quiet, fits])]
          simp [FileIo.discard_read_buffer, good']
        rw [result]
        exact ⟨⟨opened', alone', rfl, write_only, within', by simp⟩, rfl⟩
      | true =>
        have result : f.write_chunk chunk = (true, { f.discard_read_buffer with
            f_ := f.f_.write chunk, io_error_ := false, size_ := f.size_ + chunk.length }) := by
          unfold FileIo.write_chunk
          rw [if_neg failed, unread, if_neg (by simp [FileIo.discard_read_buffer, quiet, fits])]
          simp [FileIo.discard_read_buffer, good', write_only]
        obtain ⟨data', pos'⟩ := stored' good'
        rw [result]
        refine ⟨⟨opened', alone', rfl, write_only, within', fun _ => ⟨?_, ?_, good'⟩⟩, rfl⟩
        · rw [← data]
          exact data'.trans (by simp [FStream.overwrite, pos, data])
        · rw [List.length_append, ← pos]
          exact pos'

/-- A handle on a file that nobody else writes to is closed with what the file
    has, and successfully only without an error. -/
theorem close_alone {f : FileIo} (alone : Alone f.f_) : f.close.2.f_.opened = false ∧ Alone f.close.2.f_ ∧
    f.close.2.f_.data = f.f_.data ∧ (f.close.1 = true → f.f_.opened = true → f.io_error_ = false) := by
  unfold FileIo.close
  by_cases opened : f.f_.opened = true
  · rw [if_neg (by simp [FileIo.discard_read_buffer, opened])]
    have alone' : Alone f.f_.clear := alone
    obtain ⟨ticked, alone''⟩ := tick_alone alone'
    rw [ticked] at alone''
    refine ⟨rfl, ?_, ?_, ?_⟩
    · simp only [FileIo.discard_read_buffer, FStream.close, ticked]
      exact alone''
    · simp only [FileIo.discard_read_buffer, FStream.close, ticked]
      rfl
    · intro closed _
      simp only [FileIo.discard_read_buffer, Bool.not_eq_true', Bool.or_eq_false_iff] at closed
      exact closed.1.1
  · rw [if_pos (by simp [FileIo.discard_read_buffer, opened])]
    refine ⟨by simpa [FileIo.discard_read_buffer] using opened, alone, rfl, ?_⟩
    intro _ isOpen
    exact absurd isOpen opened

end Roll.Cursor
