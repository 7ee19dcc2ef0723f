import Roll.Framing
import Roll.Interpreting

/-!
What becomes of an application whose delta breaks off with a stream error.

The run is compared with the one that the same delta has when it is read to
its end: the two are twins until a read fails, and every failed read ends the
broken run with an I/O error, except where the test for one more opcode takes
it for the end of the diff.
-/
namespace Roll.Failing
open Roll.Parsing Roll.Outcome Roll.Reading Roll.Grammar Roll.Cursor Roll.Applying Roll.Interpreting

/-! ### Careful methods -/

variable {content : List UInt8} {n : Nat} {α γ : Type} {m : ReadM α} {f : α → ReadM γ} {p : Parser UInt8 α}

/-- What the file has before `rest` was pulled from the stream, without an error. -/
def Ahead (content : List UInt8) (r : DeltaReader) (rest : List UInt8) : Prop :=
  r.in_.io_error_ = false ∧ content.length ≤ r.in_.f_.pos + rest.length

/-- On a broken source that still delivers, a success is that of the parser, and
    a failure that is not the parser's leaves the stream error. Within the read-ahead
    there is no such failure, and the stream stays where it is. -/
structure Careful {α : Type} (content : List UInt8) (n : Nat) (m : ReadM α) (p : Parser UInt8 α) : Prop where
  shrinks : ∀ s a t, p s = some (a, t) → t.length ≤ s.length
  step : ∀ r rest, (source content n).feeds r rest true →
    match m r with
    | .ok a r' => ∃ rest', p rest = some (a, rest') ∧ (source content n).feeds r' rest' true ∧
        (Ahead content r rest' → r'.in_.f_ = r.in_.f_ ∧ r'.in_.io_error_ = false)
    | .error _ r' => (source content n).failed r' ∧ (∀ a rest', p rest = some (a, rest') → ¬ Ahead content r rest') ∨
        p rest = none

theorem careful_pure (a : α) : Careful content n (pure a : ReadM α) (pure a) where
  shrinks s b t parsed := by
    obtain ⟨rfl, rfl⟩ : a = b ∧ s = t := by simpa [pure_run] using parsed
    exact Nat.le_refl _
  step _ rest feeds := ⟨rest, rfl, feeds, fun ahead => ⟨rfl, ahead.1⟩⟩

theorem careful_throw (message : String) : Careful content n (throw message : ReadM α) reject where
  shrinks _ _ _ parsed := by cases parsed
  step _ _ _ := .inr rfl

theorem careful_bind {q : α → Parser UInt8 γ} (first : Careful content n m p)
    (second : ∀ a, Careful content n (f a) (q a)) : Careful content n (m >>= f) (p >>= q) where
  shrinks s c t parsed := by
    rw [bind_run] at parsed
    obtain ⟨⟨a, s'⟩, here, there⟩ := Option.bind_eq_some_iff.mp parsed
    exact Nat.le_trans ((second a).shrinks s' c t there) (first.shrinks s a s' here)
  step := by
    intro r rest feeds
    have outcome := first.step r rest feeds
    cases run : m r with
    | ok a r' =>
      simp only [run] at outcome
      obtain ⟨rest', parsed, feeds', still⟩ := outcome
      rw [bind_ok run, bind_run, parsed, Option.bind_some]
      -- What is ahead of the end of both is ahead of the end of the first.
      have before : ∀ c rest'', q a rest' = some (c, rest'') → Ahead content r rest'' →
          Ahead content r' rest'' ∧ r'.in_.f_ = r.in_.f_ := by
        intro c rest'' there ahead
        have shorter := (second a).shrinks rest' c rest'' there
        obtain ⟨same, quiet⟩ := still ⟨ahead.1, by have := ahead.2; omega⟩
        exact ⟨⟨quiet, by rw [same]; exact ahead.2⟩, same⟩
      have after := (second a).step r' rest' feeds'
      cases run' : f a r' with
      | ok c r'' =>
        simp only [run'] at after
        obtain ⟨rest'', there, feeds'', still'⟩ := after
        refine ⟨rest'', there, feeds'', fun ahead => ?_⟩
        obtain ⟨ahead', same⟩ := before c rest'' there ahead
        obtain ⟨same', quiet⟩ := still' ahead'
        exact ⟨same'.trans same, quiet⟩
      | error e r'' =>
        simp only [run'] at after
        rcases after with ⟨failed, pulled⟩ | rejected
        · exact .inl ⟨failed, fun c rest'' there ahead => pulled c rest'' there (before c rest'' there ahead).1⟩
        · exact .inr rejected
    | error e r' =>
      simp only [run] at outcome
      rw [bind_error run, bind_run]
      rcases outcome with ⟨failed, pulled⟩ | rejected
      · refine .inl ⟨failed, fun c rest'' parsed ahead => ?_⟩
        obtain ⟨⟨a, rest'⟩, here, there⟩ := Option.bind_eq_some_iff.mp parsed
        have shorter := (second a).shrinks rest' c rest'' there
        exact pulled a rest' here ⟨ahead.1, by have := ahead.2; omega⟩
      · right
        rw [rejected]
        rfl

theorem careful_ite {condition : Prop} [Decidable condition] {m m' : ReadM α} {p p' : Parser UInt8 α}
    (yes : Careful content n m p) (no : Careful content n m' p') :
    Careful content n (if condition then m else m') (if condition then p else p') := by
  by_cases holds : condition
  · rw [if_pos holds, if_pos holds]
    exact yes
  · rw [if_neg holds, if_neg holds]
    exact no

theorem careful_fail_if (condition : Bool) (message : String) :
    Careful content n (DeltaReader.fail_if condition message) (refuse condition) := by
  cases condition with
  | true => exact careful_throw message
  | false => exact careful_pure ()

/-- What was decoded is recorded. -/
theorem careful_after (item : Decoded) {m : ReadM γ} {p : Parser UInt8 γ}
    (rest : Careful content n m p) : Careful content n (DeltaReader.record item >>= fun _ => m) p where
  shrinks := rest.shrinks
  step r t feeds := rest.step { r with decoded := r.decoded ++ [(r.in_.position, item)] } t feeds

/-- No read-ahead is left of a handle with an error. -/
def Dead (f : FileIo) : Prop := f.io_error_ = true ∧ f.rpos_ = f.rlen_

theorem refill_drained {f g : FileIo} (failed : f.refill = (false, g)) : g.rpos_ = g.rlen_ := by
  unfold FileIo.refill at failed
  dsimp only at failed
  split at failed
  · obtain rfl := (Prod.mk.inj failed).2
    rfl
  · split at failed
    · obtain rfl := (Prod.mk.inj failed).2
      rfl
    · cases (Prod.mk.inj failed).1

/-- A broken file has a byte ahead, at once where the read-ahead is not drained; or its handle
    is dead. -/
theorem ahead_broken {rest : List UInt8} {f : FileIo} (feeds : Feeds content f rest true) :
    (∃ g, f.ahead = (true, g) ∧ Feeds content g rest true ∧ g.rpos_ < g.rlen_ ∧ (f.rpos_ ≠ f.rlen_ → g = f)) ∨
      ∃ g, f.ahead = (false, g) ∧ Dead g ∧ f.rpos_ = f.rlen_ := by
  rcases ahead_spec feeds with ⟨g, full, feeds', more⟩ | ⟨g, ended, failed | ⟨_, impossible, _⟩⟩
  · refine .inl ⟨g, full, feeds', more, fun some => ?_⟩
    rw [FileIo.ahead, if_neg some] at full
    exact (Prod.mk.inj full).2.symm
  · right
    by_cases drained : f.rpos_ = f.rlen_
    · rw [FileIo.ahead, if_pos drained] at ended
      exact ⟨g, by rw [FileIo.ahead, if_pos drained, ended], ⟨failed.2, refill_drained ended⟩, drained⟩
    · rw [FileIo.ahead, if_neg drained] at ended
      cases (Prod.mk.inj ended).1
  · cases impossible

variable {r : DeltaReader} {rest : List UInt8}

theorem feeds_length {f : FileIo} (feeds : Feeds content f rest true) :
    rest.length = f.rlen_ - f.rpos_ + (content.length - f.f_.pos) := by
  have front := buffered_length feeds
  have whole := congrArg List.length feeds.rest
  rw [List.length_append, List.length_drop, front] at whole
  exact whole

/-- The bytes up to what is ahead are in the read-ahead. -/
theorem ahead_buffered {rest' : List UInt8} (feeds : (source content n).feeds r rest true) (ahead : Ahead content r rest') :
    rest.length - rest'.length ≤ r.in_.rlen_ - r.in_.rpos_ := by
  have length := feeds_length feeds.1
  have := ahead.2
  omega

theorem read_byte_broken (feeds : (source content n).feeds r rest true) :
    (∃ r', DeltaReader.read_byte r = .ok none r' ∧ Dead r'.in_ ∧ r.in_.rpos_ = r.in_.rlen_) ∨
      ∃ b tail r', rest = b :: tail ∧ DeltaReader.read_byte r = .ok (some b) r' ∧
        (source content n).feeds r' tail true ∧
        (r.in_.rpos_ ≠ r.in_.rlen_ → r'.in_ = { r.in_ with rpos_ := r.in_.rpos_ + 1 }) := by
  unfold DeltaReader.read_byte FileIo.read_byte
  rcases ahead_broken feeds.1 with ⟨g, full, feeds', more, same⟩ | ⟨g, ended, dead, drained⟩
  · obtain ⟨b, tail, restIs, here, after⟩ := front_byte feeds' more
    rw [full]
    refine .inr ⟨b, tail, { r with in_ := { g with rpos_ := g.rpos_ + 1 } }, restIs, ?_, ⟨after, feeds.2⟩, fun some => ?_⟩
    · simp only [here]
    · rw [same some]
  · rw [ended]
    exact .inl ⟨_, rfl, dead, drained⟩

theorem peek_byte_broken (feeds : (source content n).feeds r rest true) :
    (∃ r', DeltaReader.peek_byte r = .ok none r' ∧ Dead r'.in_) ∨
      ∃ b tail r', rest = b :: tail ∧ DeltaReader.peek_byte r = .ok (some b) r' ∧ (source content n).feeds r' rest true := by
  unfold DeltaReader.peek_byte FileIo.peek_byte
  rcases ahead_broken feeds.1 with ⟨g, full, feeds', more, _⟩ | ⟨g, ended, dead, _⟩
  · obtain ⟨b, tail, restIs, here, _⟩ := front_byte feeds' more
    rw [full]
    refine .inr ⟨b, tail, { r with in_ := g }, restIs, ?_, feeds', feeds.2⟩
    simp only [here]
  · rw [ended]
    exact .inl ⟨_, rfl, dead⟩

/-- A byte that is required. -/
theorem careful_next {f : Option UInt8 → ReadM γ} {q : UInt8 → Parser UInt8 γ} {message : String}
    (none : f none = throw message) (some : ∀ b, Careful content n (f (some b)) (q b)) :
    Careful content n (DeltaReader.read_byte >>= f) (nextThen q) where
  shrinks s c t parsed := by
    cases s with
    | nil => cases parsed
    | cons b s =>
      rw [nextThen_cons] at parsed
      exact Nat.le_succ_of_le ((some b).shrinks s c t parsed)
  step := by
    intro r rest feeds
    -- The byte before what is ahead is in the read-ahead.
    have held : ∀ b tail c rest', rest = b :: tail → q b tail = Option.some (c, rest') → Ahead content r rest' →
        r.in_.rpos_ ≠ r.in_.rlen_ := by
      rintro b tail c rest' rfl there ahead
      have shorter := (some b).shrinks tail c rest' there
      have inside := ahead_buffered feeds ahead
      rw [List.length_cons] at inside
      omega
    rcases read_byte_broken feeds with ⟨r', run, dead, drained⟩ | ⟨b, tail, r', restIs, run, feeds', same⟩
    · rw [bind_ok run, none]
      refine .inl ⟨dead.1, fun c rest' parsed ahead => ?_⟩
      cases rest with
      | nil => cases parsed
      | cons b tail =>
        rw [nextThen_cons] at parsed
        exact held b tail c rest' rfl parsed ahead drained
    · rw [bind_ok run]
      have after := (some b).step r' tail feeds'
      have moved : ∀ c rest', q b tail = Option.some (c, rest') → Ahead content r rest' →
          Ahead content r' rest' ∧ r'.in_.f_ = r.in_.f_ := by
        intro c rest' there ahead
        have kept := same (held b tail c rest' restIs there ahead)
        exact ⟨⟨by rw [kept]; exact ahead.1, by rw [kept]; exact ahead.2⟩, by rw [kept]⟩
      subst restIs
      rw [nextThen_cons]
      cases run' : f (Option.some b) r' with
      | ok c r'' =>
        simp only [run'] at after
        obtain ⟨rest', there, feeds'', still⟩ := after
        refine ⟨rest', there, feeds'', fun ahead => ?_⟩
        obtain ⟨ahead', kept⟩ := moved c rest' there ahead
        obtain ⟨kept', quiet⟩ := still ahead'
        exact ⟨kept'.trans kept, quiet⟩
      | error e r'' =>
        simp only [run'] at after
        rcases after with ⟨failed, pulled⟩ | rejected
        · exact .inl ⟨failed, fun c rest' there ahead => pulled c rest' there (moved c rest' there ahead).1⟩
        · exact .inr rejected

/-- Bytes of the read-ahead are taken without the stream. -/
theorem read_steps_ahead (count : Nat) : ∀ (fuel : Nat) (vec : List UInt8) (f : FileIo),
    count - vec.length ≤ f.rlen_ - f.rpos_ →
      (FileIo.read_steps count fuel vec f).2.f_ = f.f_ ∧ (FileIo.read_steps count fuel vec f).2.io_error_ = f.io_error_ := by
  intro fuel
  induction fuel with
  | zero =>
    intro vec f _
    exact ⟨rfl, rfl⟩
  | succ fuel ih =>
    intro vec f held
    unfold FileIo.read_steps
    by_cases more : vec.length < count
    · rw [if_pos more]
      set step := min (count - vec.length) FileIo.READ_BUFFER_SIZE with stepIs
      have inside : min step (f.rlen_ - f.rpos_) = step := by omega
      have stepped : f.read_step step = ((f.rbuf_.drop f.rpos_).take step, { f with rpos_ := f.rpos_ + step }) := by
        unfold FileIo.read_step
        simp only [inside, Nat.lt_irrefl, if_false]
      simp only [stepped]
      split
      · exact ⟨rfl, rfl⟩
      · next whole =>
        have length : ((f.rbuf_.drop f.rpos_).take step).length = step := by
          have := List.length_take_le step (f.rbuf_.drop f.rpos_)
          simp only [Bool.or_eq_true, decide_eq_true_eq, not_or] at whole
          omega
        apply ih (vec ++ (f.rbuf_.drop f.rpos_).take step) { f with rpos_ := f.rpos_ + step }
        rw [List.length_append, length]
        show _ ≤ f.rlen_ - (f.rpos_ + step)
        omega
    · rw [if_neg more]
      exact ⟨rfl, rfl⟩

theorem read_chunk_ahead {f : FileIo} {count : Nat} (held : count ≤ f.rlen_ - f.rpos_) (quiet : f.io_error_ = false)
    (feeds : Feeds content f rest true) :
    (f.read_chunk count).2.f_ = f.f_ ∧ (f.read_chunk count).2.io_error_ = false := by
  unfold FileIo.read_chunk
  by_cases nothing : count = 0
  · rw [if_pos nothing]
    exact ⟨rfl, quiet⟩
  · rw [if_neg nothing]
    simp only [feeds.stream.opened, feeds.readable, quiet, Bool.not_true, Bool.or_self, Bool.false_eq_true, if_false]
    obtain ⟨same, silent⟩ := read_steps_ahead count count [] f (by simpa using held)
    exact ⟨same, silent.trans quiet⟩

theorem upTo_refuse {count : Nat} {q : List UInt8 → Parser UInt8 γ} {s : List UInt8} {c : γ} {t : List UInt8}
    (parsed : (upTo count >>= fun buf => refuse (buf.length ≠ count) >>= fun _ => q buf) s = some (c, t)) :
    count ≤ s.length ∧ q (s.take count) (s.drop count) = some (c, t) := by
  rw [bind_run] at parsed
  simp only [upTo, Option.bind_some, refuse_run] at parsed
  split at parsed
  · cases parsed
  · next whole =>
    simp only [decide_eq_true_eq, ne_eq, Decidable.not_not, List.length_take] at whole
    exact ⟨by omega, parsed⟩

/-- Bytes whose number is checked. -/
theorem careful_chunk (count : Nat) (message : String) {f : List UInt8 → ReadM γ} {q : List UInt8 → Parser UInt8 γ}
    (checked : ∀ buf, Careful content n (f buf) (q buf)) :
    Careful content n (DeltaReader.read_chunk count >>= fun buf => DeltaReader.fail_if (buf.length ≠ count) message >>=
      fun _ => f buf) (upTo count >>= fun buf => refuse (buf.length ≠ count) >>= fun _ => q buf) where
  shrinks s c t parsed := by
    obtain ⟨_, there⟩ := upTo_refuse parsed
    have shorter := (checked (s.take count)).shrinks (s.drop count) c t there
    rw [List.length_drop] at shorter
    omega
  step := by
    intro r rest feeds
    have ran : DeltaReader.read_chunk count r =
        .ok (r.in_.read_chunk count).1 { r with in_ := (r.in_.read_chunk count).2 } := rfl
    -- The bytes before what is ahead are in the read-ahead.
    have kept : ∀ c rest', q (rest.take count) (rest.drop count) = some (c, rest') → count ≤ rest.length →
        Ahead content r rest' → (r.in_.read_chunk count).2.f_ = r.in_.f_ ∧ (r.in_.read_chunk count).2.io_error_ = false := by
      intro c rest' there inside ahead
      have shorter := (checked (rest.take count)).shrinks (rest.drop count) c rest' there
      have held := ahead_buffered feeds ahead
      rw [List.length_drop] at shorter
      exact read_chunk_ahead (by omega) ahead.1 feeds.1
    rw [bind_ok ran]
    rcases read_chunk_spec feeds.1 count with ⟨failed, short⟩ | ⟨whole, feeds'⟩
    · have other : (r.in_.read_chunk count).1.length ≠ count := Nat.ne_of_lt short
      have stopped : DeltaReader.fail_if ((r.in_.read_chunk count).1.length ≠ count) message
          { r with in_ := (r.in_.read_chunk count).2 } = .error message { r with in_ := (r.in_.read_chunk count).2 } := by
        simp only [DeltaReader.fail_if, other, ne_eq, not_false_eq_true, decide_true, if_true]
        rfl
      rw [bind_error stopped]
      refine .inl ⟨failed.2, fun c rest' parsed ahead => ?_⟩
      obtain ⟨inside, there⟩ := upTo_refuse parsed
      have quiet := (kept c rest' there inside ahead).2
      cases failed.2.symm.trans quiet
    · rw [whole]
      have passed := careful_bind (careful_fail_if (decide ((rest.take count).length ≠ count)) message) fun _ =>
        checked (rest.take count)
      have after := passed.step { r with in_ := (r.in_.read_chunk count).2 } (rest.drop count) ⟨feeds', feeds.2⟩
      have moved : ∀ c rest', (upTo count >>= fun buf => refuse (buf.length ≠ count) >>= fun _ => q buf) rest =
          some (c, rest') → Ahead content r rest' →
          Ahead content { r with in_ := (r.in_.read_chunk count).2 } rest' ∧ (r.in_.read_chunk count).2.f_ = r.in_.f_ := by
        intro c rest' parsed ahead
        obtain ⟨inside, there⟩ := upTo_refuse parsed
        obtain ⟨same, quiet⟩ := kept c rest' there inside ahead
        exact ⟨⟨quiet, by rw [same]; exact ahead.2⟩, same⟩
      generalize (DeltaReader.fail_if (decide ((rest.take count).length ≠ count)) message >>= fun _ => f (rest.take count))
        { r with in_ := (r.in_.read_chunk count).2 } = outcome at after ⊢
      cases outcome with
      | ok c r' =>
        obtain ⟨rest', there, feeds'', still⟩ := after
        refine ⟨rest', there, feeds'', fun ahead => ?_⟩
        obtain ⟨ahead', same⟩ := moved c rest' there ahead
        obtain ⟨same', quiet⟩ := still ahead'
        exact ⟨same'.trans same, quiet⟩
      | error e r' =>
        rcases after with ⟨failed, pulled⟩ | rejected
        · exact .inl ⟨failed, fun c rest' there ahead => pulled c rest' there (moved c rest' there ahead).1⟩
        · exact .inr rejected

theorem careful_exact (count : Nat) (message : String) :
    Careful content n (DeltaReader.read_exact count message) (exactly count) :=
  careful_chunk count message fun _ => careful_pure _

theorem careful_groups (what : String) : ∀ (left : Nat) (value : UInt64),
    Careful content n (DeltaReader.read_groups what left value) (Grammar.groups left value) := by
  intro left
  induction left with
  | zero =>
    intro value
    exact careful_throw _
  | succ left ih =>
    intro value
    refine careful_next rfl (fun byte => ?_)
    exact careful_ite (careful_throw _) (careful_ite (careful_pure _) (ih _))

theorem careful_varint (what : String) : Careful content n (DeltaReader.read_varint what) Grammar.varint :=
  careful_groups what VARINT_MAX_BYTES 0

theorem careful_size : Careful content n DeltaReader.read_size Grammar.size :=
  careful_bind (careful_varint _) fun _ => careful_bind (careful_fail_if _ _) fun _ => careful_pure _

theorem careful_fields (type : EntryType) : Careful content n (DeltaReader.read_fields type) (Grammar.fields type) := by
  cases type with
  | ORIGINAL_CHUNK =>
    apply careful_bind (careful_varint _)
    intro _
    apply careful_bind (careful_pure 0)
    intro _
    exact careful_bind (careful_exact _ _) fun _ => careful_pure _
  | ADDED_CHUNK =>
    apply careful_bind (careful_pure 0)
    intro _
    apply careful_bind careful_size
    intro _
    exact careful_bind (careful_exact _ _) fun _ => careful_pure _
  | MODIFIED_CHUNK =>
    apply careful_bind (careful_varint _)
    intro _
    apply careful_bind careful_size
    intro _
    exact careful_bind (careful_exact _ _) fun _ => careful_pure _

/-- What is recorded and returned is what was read. -/
theorem careful_recorded (item : α → Decoded) (first : Careful content n m p) :
    Careful content n (m >>= fun out => DeltaReader.record (item out) >>= fun _ => pure out) p := by
  have both := careful_bind first fun out => careful_after (item out) (careful_pure out)
  rwa [bind_pure] at both

theorem careful_entry_header : Careful content n DeltaReader.read_entry_header Grammar.entryHeader := by
  refine careful_next rfl (fun tag => ?_)
  apply careful_bind (careful_fail_if _ _)
  intro _
  exact careful_recorded .entry (careful_fields _)

theorem careful_payload (count : Nat) : Careful content n (DeltaReader.read_payload count) (exactly count) :=
  careful_recorded .payload (careful_exact _ _)

theorem careful_operands (op : UInt8) : Careful content n (DeltaReader.read_operands op) (Grammar.operands op) := by
  unfold DeltaReader.read_operands Grammar.operands
  apply careful_bind (careful_exact _ _)
  intro pos
  apply careful_ite
  · exact careful_bind (careful_exact _ _) fun _ => careful_pure _
  · refine careful_next rfl (fun count => ?_)
    exact careful_bind (careful_exact _ _) fun _ => careful_pure _

theorem careful_diff_opcode : Careful content n DeltaReader.read_diff_opcode Grammar.opcode := by
  refine careful_next rfl (fun tag => ?_)
  apply careful_bind (careful_fail_if _ _)
  intro _
  exact careful_recorded .opcode (careful_operands _)

theorem careful_header : Careful content n DeltaReader.read_header Grammar.header := by
  apply careful_chunk
  intro buf
  apply careful_bind (careful_fail_if _ _)
  intro _
  apply careful_bind (careful_fail_if _ _)
  intro _
  exact careful_after .header (careful_pure ())

/-! ### Two runs -/

section
variable {U : StrongHash} {delta : List UInt8} {s s' t : ApplyState U} {α γ : Type} {m : ApplyM U α} {f : α → ApplyM U γ}

/-- The same state, where the second reader has as much left of the broken delta
    as the first one of the whole delta. -/
structure Twins (delta : List UInt8) (s s' : ApplyState U) : Prop where
  reads : ∃ rest, (source delta U.get_hash_size).feeds s.reader rest false ∧
    (source delta U.get_hash_size).feeds s'.reader rest true
  only : s' = { s with reader := s'.reader }

/-- Twins, or the second reader is past its failure. -/
def Alike (delta : List UInt8) (s s' : ApplyState U) : Prop :=
  Twins delta s s' ∨ Dead s'.reader.in_ ∧ s' = { s with reader := s'.reader }

/-- The error is an I/O error. -/
def IsIo (e : DeltaError) : Prop := e.code = .io_error

/-- Where the whole delta lets `m` succeed, the broken one does so with the same
    result, or there is an I/O error. -/
def Mirrors (delta : List UInt8) (m : ApplyM U α) : Prop :=
  ∀ s s' a t, Twins delta s s' → m s = .ok a t → Reports m s' (fun a' t' => a' = a ∧ Twins delta t t') IsIo

theorem category_failed {r : DeltaReader} (failed : r.in_.io_error_ = true) : Apply.category r = .io_error := if_pos failed

theorem reading_ok {code : DeltaReader → DeltaErrc} {m : ReadM α} {a : α} (run : Apply.reading code m s = .ok a t) :
    ∃ r, m s.reader = .ok a r ∧ t = { s with reader := r } := by
  unfold Apply.reading at run
  cases ran : m s.reader with
  | ok b r =>
    rw [ran] at run
    obtain ⟨rfl, rfl⟩ := EStateM.Result.ok.inj run
    exact ⟨r, rfl, rfl⟩
  | error message r =>
    rw [ran] at run
    cases run

theorem mirrors_reading {m : ReadM α} {p : Parser UInt8 α} (sim : Simulates (source delta U.get_hash_size) m p)
    (careful : Careful delta U.get_hash_size m p) : Mirrors delta (Apply.reading Apply.category m : ApplyM U α) := by
  rintro s s' a t ⟨⟨rest, calm, broken⟩, only⟩ run
  obtain ⟨r, ran, rfl⟩ := reading_ok run
  have whole := sim.step _ _ _ calm
  simp only [ran, Bool.false_eq_true, false_and, false_or] at whole
  obtain ⟨rest', parsed, calm'⟩ := whole
  have outcome := careful.step _ _ broken
  cases ran' : m s'.reader with
  | ok a' r' =>
    simp only [ran', parsed] at outcome
    obtain ⟨rest'', same, broken', _⟩ := outcome
    obtain ⟨rfl, rfl⟩ : a = a' ∧ rest' = rest'' := by simpa using same
    have run' : Apply.reading Apply.category m s' = .ok a { s' with reader := r' } := by simp only [Apply.reading, ran']
    apply reports_ok run'
    exact ⟨rfl, ⟨rest', calm', broken'⟩, by rw [only]⟩
  | error message r' =>
    simp only [ran', parsed] at outcome
    have run' : Apply.reading Apply.category m s' = .error ⟨Apply.category r', message⟩ { s' with reader := r' } := by
      simp only [Apply.reading, ran']
    apply reports_error run'
    exact category_failed (outcome.resolve_right (Option.some_ne_none _)).1

/-- What is ahead is read from the broken delta too, and the stream stays where it is. -/
theorem reading_ahead {m : ReadM α} {p : Parser UInt8 α} (careful : Careful delta U.get_hash_size m p) {a : α}
    {rest rest' : List UInt8} (feeds : (source delta U.get_hash_size).feeds s.reader rest true)
    (parsed : p rest = some (a, rest')) (ahead : Ahead delta s.reader rest') :
    ∃ r, Apply.reading Apply.category m s = .ok a { s with reader := r } ∧
      (source delta U.get_hash_size).feeds r rest' true ∧ r.in_.f_ = s.reader.in_.f_ ∧ Ahead delta r rest' := by
  have outcome := careful.step _ _ feeds
  cases ran : m s.reader with
  | ok b r =>
    simp only [ran, parsed] at outcome
    obtain ⟨rest'', same, feeds', still⟩ := outcome
    obtain ⟨rfl, rfl⟩ : a = b ∧ rest' = rest'' := by simpa using same
    obtain ⟨kept, quiet⟩ := still ahead
    refine ⟨r, by simp only [Apply.reading, ran], feeds', kept, quiet, ?_⟩
    rw [kept]
    exact ahead.2
  | error message r =>
    simp only [ran, parsed] at outcome
    rcases outcome with ⟨_, pulled⟩ | impossible
    · exact absurd ahead (pulled a rest' rfl)
    · cases impossible

/-- A method that never succeeds on a broken source, where the whole delta lets it succeed. -/
theorem reading_fails {m : ReadM α} {p : Parser UInt8 α} (sim : Simulates (source delta U.get_hash_size) m p)
    (fails : Fails delta U.get_hash_size m) (twins : Twins delta s s') {a : α}
    (run : Apply.reading Apply.category m s = .ok a t) :
    ∃ e t', Apply.reading Apply.category m s' = .error e t' ∧ IsIo e := by
  obtain ⟨⟨rest, calm, broken⟩, _⟩ := twins
  obtain ⟨r, ran, rfl⟩ := reading_ok run
  have whole := sim.step _ _ _ calm
  simp only [ran, Bool.false_eq_true, false_and, false_or] at whole
  obtain ⟨rest', parsed, _⟩ := whole
  obtain ⟨message, r', stopped⟩ := fails s'.reader (.inr ⟨rest, broken⟩)
  have outcome := sim.step _ _ _ broken
  simp only [stopped, parsed, true_and, Option.some_ne_none, false_and, or_false] at outcome
  exact ⟨⟨Apply.category r', message⟩, { s' with reader := r' }, by simp only [Apply.reading, stopped],
    category_failed outcome⟩

/-- A computation that does not look at the reader. -/
def Blind (m : ApplyM U α) : Prop := ∀ s r, m { s with reader := r } =
  match m s with
  | .ok a t => .ok a { t with reader := r }
  | .error e t => .error e { t with reader := r }

theorem blind_pure (a : α) : Blind (pure a : ApplyM U α) := fun _ _ => rfl

theorem blind_throw (e : DeltaError) : Blind (throw e : ApplyM U α) := fun _ _ => rfl

theorem blind_bind (first : Blind m) (second : ∀ a, Blind (f a)) : Blind (m >>= f) := by
  intro s r
  have begun := first s r
  cases run : m s with
  | ok a t =>
    rw [run] at begun
    rw [bind_ok begun, bind_ok run]
    exact second a t r
  | error e t =>
    rw [run] at begun
    rw [bind_error begun, bind_error run]

theorem Blind.runs (blind : Blind m) {a : α} (run : m s = .ok a t) (r : DeltaReader) :
    m { s with reader := r } = .ok a { t with reader := r } ∧ t.reader = s.reader := by
  have same := blind s r
  have own := blind s s.reader
  rw [run] at same own
  exact ⟨same, (congrArg ApplyState.reader (EStateM.Result.ok.inj own).2).trans rfl⟩

/-- It does the same in both runs. -/
theorem Blind.twins (blind : Blind m) {a : α} (twins : Twins delta s s') (run : m s = .ok a t) :
    ∃ t', m s' = .ok a t' ∧ Twins delta t t' := by
  obtain ⟨⟨rest, calm, broken⟩, only⟩ := twins
  obtain ⟨same, kept⟩ := blind.runs run s'.reader
  rw [← only] at same
  exact ⟨_, same, ⟨rest, kept ▸ calm, broken⟩, rfl⟩

theorem Blind.alike (blind : Blind m) {a : α} (alike : Alike delta s s') (run : m s = .ok a t) :
    ∃ t', m s' = .ok a t' ∧ Alike delta t t' := by
  rcases alike with twins | ⟨dead, only⟩
  · obtain ⟨t', run', twins'⟩ := blind.twins twins run
    exact ⟨t', run', .inl twins'⟩
  · obtain ⟨same, _⟩ := blind.runs run s'.reader
    rw [← only] at same
    exact ⟨_, same, .inr ⟨dead, rfl⟩⟩

/-! ### What is blind -/

theorem fail_if_blind (condition : Bool) (code : DeltaErrc) (message : String) :
    Blind (Apply.fail_if condition code message : ApplyM U Unit) := by
  cases condition with
  | true => exact blind_throw _
  | false => exact blind_pure ()

theorem patching_blind (result : Except String α) : Blind (Apply.patching result : ApplyM U α) := by
  cases result with
  | ok a => exact blind_pure a
  | error message => exact blind_throw _

theorem finish_diff_blind (seen : Nat) :
    Blind (Apply.reading (fun _ => .corrupt_delta) (DeltaReader.finish_diff seen) : ApplyM U Unit) := by
  intro s r
  unfold Apply.reading DeltaReader.finish_diff DeltaReader.fail_if
  cases decide (seen = 0) with
  | true => rfl
  | false => rfl

theorem find_source_blind (chunks : List SignedChunk) (header : DeltaEntryHeader) :
    Blind (Apply.find_source chunks header : ApplyM U SignedChunk) := by
  unfold Apply.find_source
  cases chunks[header.old_index.toNat]? with
  | some source => exact blind_pure source
  | none => exact blind_throw _

theorem read_source_blind (source : SignedChunk) (message : String) :
    Blind (Apply.read_source source message : ApplyM U (List UInt8)) := by
  intro s r
  simp only [Apply.read_source]
  generalize s.old_file.read_chunk_at source.chunk_size source.start_offset = read
  obtain ⟨data, file⟩ := read
  dsimp only
  split <;> rfl

theorem deliver_blind (max_output_bytes : Nat) (produced : List UInt8) :
    Blind (Apply.deliver max_output_bytes produced : ApplyM U Unit) := by
  intro s r
  simp only [Apply.deliver]
  split
  · rfl
  · generalize s.transaction.file_.write_chunk produced = wrote
    obtain ⟨done, file⟩ := wrote
    cases done with
    | true => rfl
    | false => rfl

theorem sign_old_blind (T : RollingHash) (p : Path) : Blind (Apply.sign_old T p : ApplyM U (List SignedChunk)) := by
  intro s r
  simp only [Apply.sign_old]
  generalize Signature.generate_signatures T U s.old_file .Skip = signed
  obtain ⟨done, sig, file⟩ := signed
  cases done with
  | true => rfl
  | false => rfl

/-! ### The test for an opcode -/

/-- A test for one more opcode: the entry and its old bytes, the opcodes seen and
    the locals of `applyDiff`, and the state before the test. -/
structure Test (U : StrongHash) where
  header : DeltaEntryHeader
  old_data : List UInt8
  seen : Nat
  locals : DiffState
  state : ApplyState U

/-- No byte can be read ahead for this test, where the delta has an opcode. -/
def Test.Cut (delta : List UInt8) (test : Test U) : Prop :=
  test.state.reader.in_.peek_byte.1 = none ∧ is_diff_opcode delta[test.state.reader.in_.position]? = true

/-- The opcodes before this test rebuild a chunk that passes for that of the entry. -/
def Test.Accepted (test : Test U) : Prop :=
  test.seen ≠ 0 ∧ ∃ out, Apply.copy_tail test.old_data test.header.out_size.toNat test.locals = .ok out ∧
    Apply.verifyDigest U out test.header.digest = true

/-- The loop of `applyDiff` gets to its test. -/
inductive Gets (old_data : List UInt8) (target_size : Nat) : Nat → Nat → DiffState → ApplyState U →
    Nat → DiffState → ApplyState U → Prop
  | here {fuel seen : Nat} {d : DiffState} {s : ApplyState U} : Gets old_data target_size (fuel + 1) seen d s seen d s
  | again {fuel seen seen' : Nat} {d d' d'' : DiffState} {s s₁ s₂ s' : ApplyState U} {o : DiffOpcode}
      (more : Apply.reading Apply.category DeltaReader.at_diff_opcode s = .ok true s₁)
      (read : Apply.reading Apply.category DeltaReader.read_diff_opcode s₁ = .ok o s₂)
      (went : Apply.apply_opcode old_data target_size d o = .ok d')
      (later : Gets old_data target_size fuel (seen + 1) d' s₂ seen' d'' s') :
      Gets old_data target_size (fuel + 1) seen d s seen' d'' s'

/-- The loop of `apply_delta_impl` gets to a test for an opcode. -/
inductive Tests (fuel : Nat) (chunks : List SignedChunk) (max_output_bytes : Nat) : Nat → ApplyState U → Test U → Prop
  | here {left seen : Nat} {d : DiffState} {s s₁ s₂ s₃ s₄ s' : ApplyState U} {header : DeltaEntryHeader}
      {source : SignedChunk} {old_data : List UInt8}
      (item : Apply.reading Apply.category DeltaReader.next_item s = .ok .Entry s₁)
      (read : Apply.reading Apply.category DeltaReader.read_entry_header s₁ = .ok header s₂)
      (modified : header.type = .MODIFIED_CHUNK)
      (found : Apply.find_source chunks header s₂ = .ok source s₃)
      (data : Apply.read_source source "Failed to read MODIFIED source chunk" s₃ = .ok old_data s₄)
      (gets : Gets old_data header.out_size.toNat fuel 0 {} s₄ seen d s') :
      Tests fuel chunks max_output_bytes (left + 1) s ⟨header, old_data, seen, d, s'⟩
  | again {left : Nat} {s s₁ s₂ s₃ s₄ : ApplyState U} {header : DeltaEntryHeader} {out : List UInt8} {test : Test U}
      (item : Apply.reading Apply.category DeltaReader.next_item s = .ok .Entry s₁)
      (read : Apply.reading Apply.category DeltaReader.read_entry_header s₁ = .ok header s₂)
      (produced : Apply.produce fuel chunks header s₂ = .ok out s₃)
      (delivered : Apply.deliver max_output_bytes out s₃ = .ok () s₄)
      (later : Tests fuel chunks max_output_bytes left s₄ test) : Tests fuel chunks max_output_bytes (left + 1) s test

/-- Where nothing can be read ahead, the cursor is at the end of the read-ahead. -/
theorem peek_none {content rest : List UInt8} {f : FileIo} (feeds : Feeds content f rest true)
    (none : f.peek_byte.1 = none) : Dead f.peek_byte.2 ∧ rest = content.drop f.position := by
  unfold FileIo.peek_byte at none ⊢
  rcases ahead_broken feeds with ⟨g, full, feeds', more, _⟩ | ⟨g, ended, dead, drained⟩
  · obtain ⟨b, _, _, here, _⟩ := front_byte feeds' more
    rw [full] at none
    simp only [here] at none
    cases none
  · rw [ended]
    refine ⟨dead, ?_⟩
    rw [feeds.rest]
    simp [buffered, FileIo.position, drained]

/-- For a test in this state no byte can be read ahead, because of the failure, where the
    delta has an opcode. -/
structure CutOff (delta : List UInt8) (s : ApplyState U) : Prop where
  none : s.reader.in_.peek_byte.1 = none
  opcode : is_diff_opcode delta[s.reader.in_.position]? = true
  dead : Dead s.reader.in_.peek_byte.2

/-- The test for an opcode in both runs. -/
theorem at_diff_opcode_twins {more : Bool} (twins : Twins delta s s')
    (run : Apply.reading Apply.category DeltaReader.at_diff_opcode s = .ok more t) :
    (∃ t', Apply.reading Apply.category DeltaReader.at_diff_opcode s' = .ok more t' ∧ Alike delta t t' ∧
        (more = true → Twins delta t t')) ∨
      more = true ∧ CutOff delta s' := by
  obtain ⟨⟨rest, calm, broken⟩, only⟩ := twins
  obtain ⟨r, ran, rfl⟩ := reading_ok run
  obtain ⟨r₁, calmly, calm'⟩ := at_diff_opcode_calm calm
  obtain ⟨rfl, rfl⟩ := EStateM.Result.ok.inj (ran.symm.trans calmly)
  have ran' : DeltaReader.at_diff_opcode s'.reader =
      .ok (is_diff_opcode s'.reader.in_.peek_byte.1) { s'.reader with in_ := s'.reader.in_.peek_byte.2 } := rfl
  have run' : Apply.reading Apply.category DeltaReader.at_diff_opcode s' =
      .ok (is_diff_opcode s'.reader.in_.peek_byte.1)
        { s' with reader := { s'.reader with in_ := s'.reader.in_.peek_byte.2 } } := by
    simp only [Apply.reading, ran']
  cases byte : s'.reader.in_.peek_byte.1 with
  | none =>
    obtain ⟨dead, restIs⟩ := peek_none broken.1 byte
    have next : rest.head? = delta[s'.reader.in_.position]? := by
      rw [restIs, List.head?_drop]
    cases more : is_diff_opcode rest.head? with
    | true => exact .inr ⟨rfl, byte, next ▸ more, dead⟩
    | false =>
      rw [byte] at run'
      exact .inl ⟨_, run', .inr ⟨dead, by rw [only]⟩, fun impossible => by cases impossible⟩
  | some b =>
    rcases peek_byte_broken broken with ⟨r', peeked, _⟩ | ⟨b', tail, r', rfl, peeked, broken'⟩
    · have none : s'.reader.in_.peek_byte.1 = none := (EStateM.Result.ok.inj peeked).1
      rw [byte] at none
      cases none
    · obtain ⟨same, rfl⟩ := EStateM.Result.ok.inj peeked
      rw [same] at run'
      have twins' : Twins delta { s with reader := r } { s' with reader := { s'.reader with in_ := s'.reader.in_.peek_byte.2 } } :=
        ⟨⟨b' :: tail, calm', broken'⟩, by rw [only]⟩
      exact .inl ⟨_, run', .inl twins', fun _ => twins'⟩

/-- The loop over opcodes in both runs: they end alike, or an I/O error is met, or a
    test is cut off. -/
theorem apply_opcodes_twins {old_data : List UInt8} {target_size : Nat} : ∀ (fuel seen : Nat) (d d' : DiffState)
    (s s' t : ApplyState U), Twins delta s s' → Apply.apply_opcodes old_data target_size fuel seen d s = .ok d' t →
    Reports (Apply.apply_opcodes old_data target_size fuel seen d) s' (fun a t' => a = d' ∧ Alike delta t t') IsIo ∨
      ∃ seen₁ d₁ s₁, Gets old_data target_size fuel seen d s' seen₁ d₁ s₁ ∧ CutOff delta s₁ := by
  intro fuel
  induction fuel with
  | zero =>
    intro seen d d' s s' t _ run
    cases run
  | succ fuel ih =>
    intro seen d d' s s' t twins run
    unfold Apply.apply_opcodes at run
    cases tested : Apply.reading Apply.category DeltaReader.at_diff_opcode s with
    | error e s₁ =>
      rw [bind_error tested] at run
      cases run
    | ok more s₁ =>
      rw [bind_ok tested] at run
      rcases at_diff_opcode_twins twins tested with ⟨s₁', tested', alike, twins'⟩ | ⟨rfl, cut⟩
      · cases more with
        | false =>
          simp only [Bool.false_eq_true, if_false] at run
          have blind := blind_bind (finish_diff_blind (U := U) seen) fun _ => blind_pure d
          obtain ⟨t', run', alike'⟩ := blind.alike alike run
          left
          unfold Apply.apply_opcodes
          apply reports_ok ((bind_ok tested').trans run')
          exact ⟨rfl, alike'⟩
        | true =>
          simp only [if_true] at run
          cases read : Apply.reading Apply.category DeltaReader.read_diff_opcode s₁ with
          | error e s₂ =>
            rw [bind_error read] at run
            cases run
          | ok o s₂ =>
            rw [bind_ok read] at run
            have mirrored := mirrors_reading read_diff_opcode_sim careful_diff_opcode s₁ s₁' o s₂ (twins' rfl) read
            cases read' : Apply.reading Apply.category DeltaReader.read_diff_opcode s₁' with
            | error e s₂' =>
              left
              unfold Apply.apply_opcodes
              rw [Reports, bind_ok tested']
              simp only [if_true]
              rw [bind_error read']
              exact mirrored.of_error read'
            | ok o' s₂' =>
              obtain ⟨rfl, twins₂⟩ := mirrored.of_ok read'
              cases went : Apply.apply_opcode old_data target_size d o' with
              | error message =>
                rw [went] at run
                cases run
              | ok d₁ =>
                rw [went] at run
                have unfolded : Apply.apply_opcodes old_data target_size (fuel + 1) seen d s' =
                    Apply.apply_opcodes old_data target_size fuel (seen + 1) d₁ s₂' := by
                  rw [Apply.apply_opcodes, bind_ok tested']
                  simp only [if_true]
                  rw [bind_ok read', went]
                  rfl
                rcases ih (seen + 1) d₁ d' s₂ s₂' t twins₂ run with same | ⟨seen₁, d₂, s₃, gets, cut⟩
                · left
                  rw [Reports, unfolded]
                  exact same
                · exact .inr ⟨seen₁, d₂, s₃, .again tested' read' went gets, cut⟩
      · exact .inr ⟨seen, d, s', .here, cut⟩

/-- What does not look at the reader goes the same way after both runs. -/
theorem reports_blind {a : α} {b : γ} {s₁ : ApplyState U} (first : Reports m s' (fun a' t' => a' = a ∧ Alike delta s₁ t') IsIo)
    (blind : Blind (f a)) (run : f a s₁ = .ok b t) :
    Reports (m >>= f) s' (fun b' t' => b' = b ∧ Alike delta t t') IsIo := by
  apply reports_bind first (fun _ io => io)
  rintro _ s₁' ⟨rfl, alike⟩
  obtain ⟨t', run', alike'⟩ := blind.alike alike run
  exact reports_ok run' ⟨rfl, alike'⟩

/-- A MODIFIED entry in both runs. -/
theorem applyDiff_twins {fuel target_size : Nat} {old_data out : List UInt8} (twins : Twins delta s s')
    (run : Apply.applyDiff fuel old_data target_size s = .ok out t) :
    out.length = target_size ∧
    (Reports (Apply.applyDiff fuel old_data target_size) s' (fun a t' => a = out ∧ Alike delta t t') IsIo ∨
      ∃ seen d s₁, Gets old_data target_size fuel 0 {} s' seen d s₁ ∧ CutOff delta s₁) := by
  obtain ⟨d, s₁, looped, filled⟩ := bind_success run
  have blind : Blind (U := U) (Apply.patching (Apply.copy_tail old_data target_size d) >>= fun output =>
      if output.length = target_size then pure output else throw {}) := by
    apply blind_bind (patching_blind _)
    intro output
    by_cases whole : output.length = target_size
    · simp only [if_pos whole]
      exact blind_pure output
    · simp only [if_neg whole]
      exact blind_throw {}
  constructor
  · obtain ⟨output, s₂, _, checked⟩ := bind_success filled
    by_cases whole : output.length = target_size
    · rw [if_pos whole] at checked
      obtain ⟨rfl, _⟩ := EStateM.Result.ok.inj checked
      exact whole
    · rw [if_neg whole] at checked
      cases checked
  · rcases apply_opcodes_twins fuel 0 {} d s s' s₁ twins looped with same | cut
    · exact .inl (reports_blind same blind filled)
    · exact .inr cut

/-- The test for an opcode in an entry, which is about to be produced. -/
structure Met (fuel : Nat) (chunks : List SignedChunk) (header : DeltaEntryHeader) (s : ApplyState U) (test : Test U) :
    Prop where
  modified : header.type = .MODIFIED_CHUNK
  same : test.header = header
  gets : ∃ source s₁ s₂, Apply.find_source chunks header s = .ok source s₁ ∧
    Apply.read_source source "Failed to read MODIFIED source chunk" s₁ = .ok test.old_data s₂ ∧
    Gets test.old_data header.out_size.toNat fuel 0 {} s₂ test.seen test.locals test.state

/-- An entry in both runs: it is produced alike, or an I/O error is met, or a test for
    an opcode is cut off. -/
theorem produce_twins {fuel : Nat} {chunks : List SignedChunk} {header : DeltaEntryHeader} {out : List UInt8}
    (twins : Twins delta s s') (run : Apply.produce fuel chunks header s = .ok out t) :
    Reports (Apply.produce fuel chunks header) s' (fun a t' => a = out ∧ Alike delta t t') IsIo ∨
      out.length = header.out_size.toNat ∧ ∃ test, Met fuel chunks header s' test ∧ CutOff delta test.state := by
  unfold Apply.produce at run ⊢
  cases type : header.type with
  | ORIGINAL_CHUNK =>
    rw [type] at run
    have blind : Blind (U := U) (Apply.find_source chunks header >>= fun source =>
        Apply.fail_if (source.hash ≠ header.digest) .integrity_mismatch "ORIGINAL entry digest does not match the old chunk" >>=
          fun _ => Apply.read_source source "Failed to read old chunk") := by
      apply blind_bind (find_source_blind chunks header)
      intro source
      exact blind_bind (fail_if_blind _ _ _) fun _ => read_source_blind _ _
    obtain ⟨t', run', alike⟩ := blind.alike (.inl twins) run
    exact .inl (reports_ok run' ⟨rfl, alike⟩)
  | ADDED_CHUNK =>
    rw [type] at run
    obtain ⟨payload, s₁, read, checked⟩ := bind_success run
    have first := (mirrors_reading (read_payload_sim _) (careful_payload _) s s' payload s₁ twins read).mono
      (fun a t' both => (⟨both.1, .inl both.2⟩ : a = payload ∧ Alike delta s₁ t')) (fun _ io => io)
    have blind := blind_bind (fail_if_blind (U := U) (!Apply.verifyDigest U payload header.digest) .integrity_mismatch
      "ADDED entry hash mismatch") fun _ => blind_pure payload
    exact .inl (reports_blind first blind checked)
  | MODIFIED_CHUNK =>
    rw [type] at run
    obtain ⟨source, s₁, found, run⟩ := bind_success run
    obtain ⟨old_data, s₂, data, run⟩ := bind_success run
    obtain ⟨produced, s₃, patched, checked⟩ := bind_success run
    have blind := blind_bind (fail_if_blind (U := U) (!Apply.verifyDigest U produced header.digest) .integrity_mismatch
      "MODIFIED entry hash mismatch") fun _ => blind_pure produced
    obtain ⟨s₁', found', twins₁⟩ := (find_source_blind chunks header).twins twins found
    obtain ⟨s₂', data', twins₂⟩ := (read_source_blind source _).twins twins₁ data
    obtain ⟨length, outcome⟩ := applyDiff_twins twins₂ patched
    rcases outcome with same | ⟨seen, d, s₃', gets, cut⟩
    · left
      dsimp only
      rw [Reports, bind_ok found', bind_ok data']
      exact reports_blind same blind checked
    · right
      have kept : produced = out := by
        obtain ⟨_, _, _, last⟩ := bind_success checked
        exact (EStateM.Result.ok.inj last).1
      exact ⟨kept ▸ length, ⟨header, old_data, seen, d, s₃'⟩, ⟨type, rfl, source, s₁', s₂', found', data', gets⟩, cut⟩

/-! ### A test that is cut off -/

/-- The state after a test that found nothing to read. -/
def Test.after (test : Test U) : ApplyState U :=
  { test.state with reader := { test.state.reader with in_ := test.state.reader.in_.peek_byte.2 } }

/-- How a test that is not accepted ends the application. -/
def Test.report (test : Test U) : DeltaError :=
  if test.seen = 0 then ⟨.corrupt_delta, "MODIFIED entry has no diff opcodes"⟩
  else match Apply.copy_tail test.old_data test.header.out_size.toNat test.locals with
    | .error message => ⟨.corrupt_delta, message⟩
    | .ok _ => ⟨.integrity_mismatch, "MODIFIED entry hash mismatch"⟩

theorem report_other (test : Test U) : ¬ IsIo test.report := by
  unfold IsIo Test.report
  split
  · nofun
  · split
    · nofun
    · nofun

theorem gets_patched {old_data : List UInt8} {target_size fuel seen seen' : Nat} {d d' : DiffState}
    (gets : Gets old_data target_size fuel seen d s seen' d' s') (patched : Patched old_data target_size d) :
    Patched old_data target_size d' := by
  induction gets with
  | here => exact patched
  | again _ _ went _ ih => exact ih (apply_opcode_patched patched went)

/-- The loop takes such a test for the end of the diff. -/
theorem gets_cut {old_data : List UInt8} {target_size fuel seen seen' : Nat} {d d' : DiffState}
    (gets : Gets old_data target_size fuel seen d s seen' d' s') (none : s'.reader.in_.peek_byte.1 = none) :
    Apply.apply_opcodes old_data target_size fuel seen d s =
      (Apply.reading (fun _ => .corrupt_delta) (DeltaReader.finish_diff seen') >>= fun _ => pure d')
        { s' with reader := { s'.reader with in_ := s'.reader.in_.peek_byte.2 } } := by
  induction gets with
  | @here fuel seen d s =>
    have tested : Apply.reading Apply.category DeltaReader.at_diff_opcode s =
        .ok false { s with reader := { s.reader with in_ := s.reader.in_.peek_byte.2 } } := by
      have ran : DeltaReader.at_diff_opcode s.reader =
          .ok (is_diff_opcode s.reader.in_.peek_byte.1) { s.reader with in_ := s.reader.in_.peek_byte.2 } := rfl
      simp only [Apply.reading, ran, none]
      rfl
    rw [Apply.apply_opcodes, bind_ok tested]
    rfl
  | again more read went _ ih =>
    rw [Apply.apply_opcodes, bind_ok more]
    simp only [if_true]
    rw [bind_ok read, went]
    exact ih none

/-- It is accepted when the opcodes so far rebuild a chunk that passes, and otherwise refused
    without a word of the I/O error. -/
theorem produce_cut {fuel : Nat} {chunks : List SignedChunk} {header : DeltaEntryHeader} {test : Test U}
    (met : Met fuel chunks header s test) (none : test.state.reader.in_.peek_byte.1 = none) :
    (test.Accepted → ∃ out, Apply.produce fuel chunks header s = .ok out test.after ∧ out.length = header.out_size.toNat) ∧
      (¬ test.Accepted → Apply.produce fuel chunks header s = .error test.report test.after) := by
  obtain ⟨modified, rfl, source, s₁, s₂, found, data, gets⟩ := met
  have unfolded : Apply.produce fuel chunks test.header s =
      (Apply.applyDiff fuel test.old_data test.header.out_size.toNat >>= fun produced =>
        Apply.fail_if (!Apply.verifyDigest U produced test.header.digest) .integrity_mismatch "MODIFIED entry hash mismatch" >>=
          fun _ => pure produced) s₂ := by
    unfold Apply.produce
    rw [modified]
    dsimp only
    rw [bind_ok found, bind_ok data]
  have looped : Apply.apply_opcodes test.old_data test.header.out_size.toNat fuel 0 {} s₂ =
      (Apply.reading (fun _ => .corrupt_delta) (DeltaReader.finish_diff test.seen) >>= fun _ => pure test.locals)
        test.after := gets_cut gets none
  rw [unfolded]
  by_cases zero : test.seen = 0
  · have stopped : Apply.apply_opcodes test.old_data test.header.out_size.toNat fuel 0 {} s₂ =
        .error ⟨.corrupt_delta, "MODIFIED entry has no diff opcodes"⟩ test.after := by
      rw [looped, zero]
      rfl
    constructor
    · rintro ⟨some, _⟩
      exact absurd zero some
    · intro _
      rw [Test.report, if_pos zero]
      exact bind_error (bind_error stopped)
  · have passed : Apply.apply_opcodes test.old_data test.header.out_size.toNat fuel 0 {} s₂ =
        .ok test.locals test.after := by
      rw [looped]
      have finished : Apply.reading (U := U) (fun _ => .corrupt_delta) (DeltaReader.finish_diff test.seen) test.after =
          .ok () test.after := by
        simp only [Apply.reading, DeltaReader.finish_diff, DeltaReader.fail_if, zero, decide_false, Bool.false_eq_true, if_false]
        rfl
      rw [bind_ok finished]
      rfl
    have tail := copy_tail_spec (gets_patched gets (patched_start _ _))
    cases copied : Apply.copy_tail test.old_data test.header.out_size.toNat test.locals with
    | error message =>
      have stopped : Apply.applyDiff fuel test.old_data test.header.out_size.toNat s₂ =
          .error ⟨.corrupt_delta, message⟩ test.after := by
        rw [Apply.applyDiff, bind_ok passed, copied]
        rfl
      constructor
      · rintro ⟨_, out, rebuilt, _⟩
        rw [copied] at rebuilt
        cases rebuilt
      · intro _
        rw [Test.report, if_neg zero, copied]
        exact bind_error stopped
    | ok out =>
      rw [copied] at tail
      have rebuilt : Apply.applyDiff fuel test.old_data test.header.out_size.toNat s₂ = .ok out test.after := by
        rw [Apply.applyDiff, bind_ok passed, copied]
        show (if out.length = _ then pure out else throw {} : ApplyM U (List UInt8)) test.after = _
        rw [if_pos tail.2]
        rfl
      rw [bind_ok rebuilt]
      constructor
      · rintro ⟨_, out', copied', verified⟩
        obtain rfl : out = out' := by simpa using copied.symm.trans copied'
        refine ⟨out, ?_, tail.2⟩
        rw [verified]
        rfl
      · intro refused
        have mismatch : Apply.verifyDigest U out test.header.digest = false := by
          cases verified : Apply.verifyDigest U out test.header.digest with
          | true => exact absurd ⟨zero, out, copied, verified⟩ refused
          | false => rfl
        rw [Test.report, if_neg zero, copied, mismatch]
        rfl

/-! ### The whole run -/

/-- The loop over the items ended without a trailer, past the failure, or with an I/O
    error. -/
def Ends (result : EStateM.Result DeltaError (ApplyState U) Bool) : Prop :=
  match result with
  | .ok saw t => saw = false ∧ Dead t.reader.in_
  | .error e _ => IsIo e

theorem next_item_run (s : ApplyState U) : Apply.reading Apply.category DeltaReader.next_item s =
    .ok (itemOf s.reader.in_.peek_byte.1) { s with reader := { s.reader with in_ := s.reader.in_.peek_byte.2 } } := by
  have ran : DeltaReader.next_item s.reader =
      .ok (itemOf s.reader.in_.peek_byte.1) { s.reader with in_ := s.reader.in_.peek_byte.2 } := by
    have peeked : DeltaReader.peek_byte s.reader =
        .ok s.reader.in_.peek_byte.1 { s.reader with in_ := s.reader.in_.peek_byte.2 } := rfl
    unfold DeltaReader.next_item
    rw [bind_ok peeked]
    cases s.reader.in_.peek_byte.1 with
    | none => rfl
    | some byte =>
      by_cases tag : byte = DELTA_TRAILER_TAG
      · simp only [itemOf, if_pos tag]
        rfl
      · simp only [itemOf, if_neg tag]
        rfl
  simp only [Apply.reading, ran]

theorem peek_dead {f : FileIo} (dead : Dead f) : f.peek_byte.1 = none ∧ Dead f.peek_byte.2 := by
  obtain ⟨errored, drained⟩ := dead
  have ahead : f.ahead = (false, { f with rpos_ := 0, rlen_ := 0, io_error_ := true }) := by
    rw [FileIo.ahead, if_pos drained, refill_sticky errored]
  unfold FileIo.peek_byte
  rw [ahead]
  exact ⟨rfl, rfl, rfl⟩

variable {fuel : Nat} {chunks : List SignedChunk} {max_output_bytes : Nat}

/-- Where the loop finds nothing ahead, it ends. -/
theorem apply_items_end (none : s.reader.in_.peek_byte.1 = none) (dead : Dead s.reader.in_.peek_byte.2) (left : Nat) :
    Ends (Apply.apply_items fuel chunks max_output_bytes left s) := by
  cases left with
  | zero => rfl
  | succ left =>
    unfold Apply.apply_items
    rw [bind_ok (next_item_run s), none]
    exact ⟨rfl, dead⟩

/-- The next item in both runs. -/
theorem next_item_twins {item : DeltaReader.Item} (twins : Twins delta s s')
    (run : Apply.reading Apply.category DeltaReader.next_item s = .ok item t) :
    s'.reader.in_.peek_byte.1 = none ∧ Dead s'.reader.in_.peek_byte.2 ∨
      ∃ t', Apply.reading Apply.category DeltaReader.next_item s' = .ok item t' ∧ Twins delta t t' ∧ item ≠ .End := by
  obtain ⟨⟨rest, calm, broken⟩, only⟩ := twins
  rcases peek_byte_broken broken with ⟨r', peeked, dead⟩ | ⟨b, tail, r', rfl, peeked, broken'⟩
  · obtain ⟨none, rfl⟩ := EStateM.Result.ok.inj peeked
    exact .inl ⟨none, dead⟩
  · right
    obtain ⟨some, rfl⟩ := EStateM.Result.ok.inj peeked
    obtain ⟨r, ran, rfl⟩ := reading_ok run
    obtain ⟨r₁, calmly, calm'⟩ := next_item_calm calm
    obtain ⟨rfl, rfl⟩ := EStateM.Result.ok.inj (ran.symm.trans calmly)
    have run' := next_item_run s'
    rw [some] at run'
    refine ⟨_, run', ⟨⟨b :: tail, calm', broken'⟩, by rw [only]⟩, ?_⟩
    show itemOf (Option.some b) ≠ .End
    by_cases tag : b = DELTA_TRAILER_TAG
    · simp [itemOf, tag]
    · simp [itemOf, tag]

/-- An output of the same length is delivered, unless writing it fails. -/
theorem deliver_length {out out' : List UInt8} (same : out'.length = out.length) {s₁ : ApplyState U}
    (stats : s'.stats = s.stats) (run : Apply.deliver max_output_bytes out s = .ok () s₁) :
    Reports (Apply.deliver max_output_bytes out') s' (fun _ t => t.reader = s'.reader) IsIo := by
  unfold Apply.deliver at run ⊢
  have small : ¬ out.length > size_sub max_output_bytes s.stats.bytes_written := by
    intro large
    rw [if_pos large] at run
    cases run
  unfold Reports
  dsimp only
  rw [same, stats, if_neg small]
  generalize s'.transaction.file_.write_chunk out' = wrote
  obtain ⟨done, file⟩ := wrote
  cases done with
  | true => rfl
  | false => rfl

/-- Past the failure, the loop ends after an output as long as one that was delivered. -/
theorem deliver_ends {out out' : List UInt8} (same : out'.length = out.length) {s₁ : ApplyState U}
    (stats : s'.stats = s.stats) (run : Apply.deliver max_output_bytes out s = .ok () s₁) (dead : Dead s'.reader.in_)
    (left : Nat) :
    Ends ((Apply.deliver max_output_bytes out' >>= fun _ => Apply.apply_items fuel chunks max_output_bytes left) s') := by
  have delivers := deliver_length same stats run
  cases delivered : Apply.deliver max_output_bytes out' s' with
  | error e t =>
    rw [bind_error delivered]
    exact delivers.of_error delivered
  | ok _ t =>
    rw [bind_ok delivered]
    have reader : t.reader = s'.reader := delivers.of_ok delivered
    rw [← reader] at dead
    obtain ⟨none, dead'⟩ := peek_dead dead
    exact apply_items_end none dead' left

theorem produced_stats {header : DeltaEntryHeader} {out : List UInt8} {t : ApplyState U}
    (run : Apply.produce fuel chunks header s = .ok out t) : t.stats = s.stats := by
  have kept := Framing.frames_produce fuel chunks header s
  rw [run] at kept
  exact congrArg (fun q => q.2.2.2) kept

/-- The loop over the items of a broken delta, where every test that is cut off is
    accepted. -/
theorem apply_items_twins : ∀ (left : Nat) (s s' t : ApplyState U) (saw : Bool), Alike delta s s' →
    Apply.apply_items fuel chunks max_output_bytes left s = .ok saw t →
    (∀ test, Tests fuel chunks max_output_bytes left s' test → test.Cut delta → test.Accepted) →
    Ends (Apply.apply_items fuel chunks max_output_bytes left s') := by
  intro left
  induction left with
  | zero =>
    intro s s' t saw _ run
    cases run
  | succ left ih =>
    intro s s' t saw alike run accepted
    rcases alike with twins | ⟨dead, _⟩
    · unfold Apply.apply_items at run
      obtain ⟨item, s₁, next, run⟩ := bind_success run
      rcases next_item_twins twins next with ⟨none, dead⟩ | ⟨s₁', next', twins₁, more⟩
      · exact apply_items_end none dead _
      · unfold Apply.apply_items
        rw [bind_ok next']
        cases item with
        | End => exact absurd rfl more
        | Trailer =>
          -- The trailer is not read to its end.
          dsimp only at run ⊢
          obtain ⟨digest, s₂, read, _⟩ := bind_success run
          obtain ⟨e, t', run', io⟩ := reading_fails read_trailer_sim read_trailer_fails twins₁ read
          rw [bind_error run']
          exact io
        | Entry =>
          dsimp only at run ⊢
          obtain ⟨header, s₂, read, afterHeader⟩ := bind_success run
          obtain ⟨out, s₃, produced, afterOutput⟩ := bind_success afterHeader
          obtain ⟨_, s₄, delivered, others⟩ := bind_success afterOutput
          have mirrored := mirrors_reading read_entry_header_sim careful_entry_header s₁ s₁' header s₂ twins₁ read
          cases read' : Apply.reading Apply.category DeltaReader.read_entry_header s₁' with
          | error e s₂' =>
            rw [bind_error read']
            exact mirrored.of_error read'
          | ok header' s₂' =>
            obtain ⟨rfl, twins₂⟩ := mirrored.of_ok read'
            rw [bind_ok read']
            rcases produce_twins twins₂ produced with same | ⟨length, test, met, cut⟩
            · cases produced' : Apply.produce fuel chunks header' s₂' with
              | error e s₃' =>
                rw [bind_error produced']
                exact same.of_error produced'
              | ok out' s₃' =>
                obtain ⟨rfl, alike₃⟩ := same.of_ok produced'
                obtain ⟨s₄', delivered', alike₄⟩ := (deliver_blind max_output_bytes out').alike alike₃ delivered
                rw [bind_ok produced', bind_ok delivered']
                apply ih s₄ s₄' t saw alike₄ others
                intro test reached
                exact accepted test (.again next' read' produced' delivered' reached)
            · have tested : Tests fuel chunks max_output_bytes (left + 1) s' test := by
                obtain ⟨modified, rfl, source, s₃', s₄', found, data, gets⟩ := met
                exact .here next' read' modified found data gets
              obtain ⟨out', produced', length'⟩ := (produce_cut met cut.none).1 (accepted test tested ⟨cut.none, cut.opcode⟩)
              rw [bind_ok produced']
              have stats : test.after.stats = s₃.stats := by
                rw [produced_stats produced', produced_stats produced, twins₂.only]
              exact deliver_ends (length'.trans length.symm) stats delivered cut.dead left
    · obtain ⟨none, dead'⟩ := peek_dead dead
      exact apply_items_end none dead' _

/-- A test that is cut off and not accepted ends the loop with its own report. -/
theorem tests_refused {left : Nat} {test : Test U} (tests : Tests fuel chunks max_output_bytes left s test)
    (none : test.state.reader.in_.peek_byte.1 = none) (refused : ¬ test.Accepted) :
    ∃ t, Apply.apply_items fuel chunks max_output_bytes left s = .error test.report t := by
  induction tests with
  | here item read modified found data gets =>
    have met := (Met.mk modified rfl ⟨_, _, _, found, data, gets⟩ : Met fuel chunks _ _ ⟨_, _, _, _, _⟩)
    have stopped := (produce_cut met none).2 refused
    unfold Apply.apply_items
    rw [bind_ok item]
    dsimp only
    rw [bind_ok read, bind_error stopped]
    exact ⟨_, rfl⟩
  | again item read produced delivered _ ih =>
    obtain ⟨t, stopped⟩ := ih none refused
    refine ⟨t, ?_⟩
    unfold Apply.apply_items
    rw [bind_ok item]
    dsimp only
    rw [bind_ok read, bind_ok produced, bind_ok delivered]
    exact stopped

end

end Roll.Failing
