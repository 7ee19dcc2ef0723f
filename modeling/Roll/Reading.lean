import Roll.Cursor
import Roll.Grammar

/-!
Every method of `DeltaReader` simulates its parser.

The source behind a reader is its handle: it feeds what the cursor has left,
and it has failed when the sticky error is set.
-/
namespace Roll.Reading
open Roll.Parsing Roll.Cursor

/-- The reader as a source over `content`, with trailers of `n` bytes. -/
def source (content : List UInt8) (n : Nat) : Source DeltaReader UInt8 where
  feeds r rest faulty := Feeds content r.in_ rest faulty ∧ r.trailer_digest_size_ = n
  failed r := r.in_.io_error_ = true
  calm _ _ feeds := by
    rw [feeds.1.calm rfl]
    exact Bool.false_ne_true

variable {content : List UInt8} {n : Nat}

/-! ### Primitive methods -/

/-- A method that runs one operation of the handle. -/
theorem simulates_handle {α : Type} (op : FileIo → α × FileIo) {p : Parser UInt8 α}
    (sticky : ∀ f : FileIo, f.io_error_ = true → (op f).2.io_error_ = true)
    (step : ∀ f rest faulty, Feeds content f rest faulty →
      Failed faulty (op f).2 ∨ ∃ rest', p rest = some ((op f).1, rest') ∧ Feeds content (op f).2 rest' faulty) :
    Simulates (source content n) (fun r => .ok (op r.in_).1 { r with in_ := (op r.in_).2 } : ReadM α) p where
  sticky r failed := sticky r.in_ failed
  step r rest faulty feeds := by
    rcases step r.in_ rest faulty feeds.1 with failed | ⟨rest', parsed, feeds'⟩
    · exact .inl failed
    · exact .inr ⟨rest', parsed, feeds', feeds.2⟩

theorem read_byte_sim : Simulates (source content n) DeltaReader.read_byte next := by
  refine simulates_handle FileIo.read_byte (fun f failed => read_byte_sticky failed) ?_
  intro f rest faulty feeds
  rcases read_byte_spec feeds with failed | ⟨result, feeds'⟩
  · exact .inl failed
  · exact .inr ⟨rest.tail, by rw [result]; rfl, feeds'⟩

theorem peek_byte_sim : Simulates (source content n) DeltaReader.peek_byte peek := by
  refine simulates_handle FileIo.peek_byte (fun f failed => peek_byte_sticky failed) ?_
  intro f rest faulty feeds
  rcases peek_byte_spec feeds with failed | ⟨result, feeds', _⟩
  · exact .inl failed
  · exact .inr ⟨rest, by rw [result]; rfl, feeds'⟩

theorem read_chunk_sim (count : Nat) : Simulates (source content n) (DeltaReader.read_chunk count) (upTo count) := by
  refine simulates_handle (FileIo.read_chunk count) (fun f failed => read_chunk_sticky failed count) ?_
  intro f rest faulty feeds
  rcases read_chunk_spec feeds count with ⟨failed, _⟩ | ⟨result, feeds'⟩
  · exact .inl failed
  · exact .inr ⟨rest.drop count, by rw [result]; rfl, feeds'⟩

theorem record_sim (item : Decoded) : Simulates (source content n) (DeltaReader.record item) (pure ()) :=
  simulates_silent (fun _ => ⟨_, rfl, fun _ _ feeds => feeds, fun failed => failed⟩)

theorem trailer_digest_size_sim : Simulates (source content n) DeltaReader.trailer_digest_size (pure n) where
  sticky _ failed := failed
  step r rest faulty feeds := .inr ⟨rest, by rw [feeds.2]; rfl, feeds⟩

theorem fail_if_sim (condition : Bool) (message : String) :
    Simulates (source content n) (DeltaReader.fail_if condition message) (refuse condition) :=
  simulates_refuse condition message

/-- The check for a stream error passes unless the source has failed. -/
theorem fail_if_error_sim (message : String) :
    Simulates (source content n) (DeltaReader.fail_if_error message) (pure ()) where
  sticky _ failed := by
    have errored : DeltaReader.io_error _ = true := failed
    rw [DeltaReader.fail_if_error, if_pos errored]
    exact failed
  step r rest faulty feeds := by
    cases errored : r.io_error with
    | true =>
      have broken : faulty = true := by
        cases faulty with
        | true => rfl
        | false => exact absurd errored ((source content n).calm r rest feeds)
      simp only [DeltaReader.fail_if_error, errored, if_true]
      exact .inl ⟨broken, errored⟩
    | false =>
      simp only [DeltaReader.fail_if_error, errored, Bool.false_eq_true, if_false]
      exact .inr ⟨rest, rfl, feeds⟩

/-! ### Methods -/

theorem read_exact_sim (count : Nat) (message : String) :
    Simulates (source content n) (DeltaReader.read_exact count message) (exactly count) :=
  simulates_bind (read_chunk_sim count) fun _ => simulates_bind (fail_if_sim _ _) fun _ => simulates_pure _

theorem read_groups_sim (what : String) : ∀ (left : Nat) (value : UInt64),
    Simulates (source content n) (DeltaReader.read_groups what left value) (Grammar.groups left value) := by
  intro left
  induction left with
  | zero =>
    intro value
    exact simulates_throw _
  | succ left ih =>
    intro value
    refine simulates_nextThen read_byte_sim (simulates_throw _) (fun byte => ?_)
    exact simulates_ite (simulates_throw _) (simulates_ite (simulates_pure _) (ih _))

theorem read_varint_sim (what : String) :
    Simulates (source content n) (DeltaReader.read_varint what) Grammar.varint :=
  read_groups_sim what VARINT_MAX_BYTES 0

theorem read_header_sim : Simulates (source content n) DeltaReader.read_header Grammar.header :=
  simulates_bind (read_chunk_sim _) fun _ => simulates_bind (fail_if_sim _ _) fun _ =>
    simulates_bind (fail_if_sim _ _) fun _ => simulates_bind (fail_if_sim _ _) fun _ => record_sim _

theorem read_size_sim : Simulates (source content n) DeltaReader.read_size Grammar.size :=
  simulates_bind (read_varint_sim _) fun _ => simulates_bind (fail_if_sim _ _) fun _ => simulates_pure _

/-- What was decoded is recorded and returned. -/
theorem recorded {α : Type} (item : Decoded) (a : α) :
    Simulates (source content n) (DeltaReader.record item >>= fun _ => pure a) (pure a) :=
  simulates_bind (record_sim item) fun _ => simulates_pure a

theorem read_fields_sim (type : EntryType) :
    Simulates (source content n) (DeltaReader.read_fields type) (Grammar.fields type) := by
  cases type with
  | ORIGINAL_CHUNK =>
    refine simulates_bind (read_varint_sim _) (fun _ => simulates_bind (simulates_pure 0) fun _ => ?_)
    exact simulates_bind (read_exact_sim _ _) fun _ => simulates_pure _
  | ADDED_CHUNK =>
    refine simulates_bind (simulates_pure 0) (fun _ => simulates_bind read_size_sim fun _ => ?_)
    exact simulates_bind (read_exact_sim _ _) fun _ => simulates_pure _
  | MODIFIED_CHUNK =>
    refine simulates_bind (read_varint_sim _) (fun _ => simulates_bind read_size_sim fun _ => ?_)
    exact simulates_bind (read_exact_sim _ _) fun _ => simulates_pure _

theorem read_entry_header_sim :
    Simulates (source content n) DeltaReader.read_entry_header Grammar.entryHeader := by
  refine simulates_nextThen read_byte_sim (simulates_throw _) (fun tag => ?_)
  refine simulates_bind (fail_if_sim _ _) (fun _ => ?_)
  exact simulates_after (read_fields_sim _) fun out => recorded (.entry out) out

theorem read_payload_sim (count : Nat) :
    Simulates (source content n) (DeltaReader.read_payload count) (exactly count) :=
  simulates_after (read_exact_sim _ _) fun out => recorded (.payload out) out

theorem at_diff_opcode_sim :
    Simulates (source content n) DeltaReader.at_diff_opcode (peek >>= fun byte => pure (is_diff_opcode byte)) :=
  simulates_bind peek_byte_sim fun _ => simulates_pure _

theorem read_operands_sim (op : UInt8) :
    Simulates (source content n) (DeltaReader.read_operands op) (Grammar.operands op) := by
  unfold DeltaReader.read_operands Grammar.operands
  refine simulates_bind (read_exact_sim _ _) (fun pos => ?_)
  refine simulates_ite (simulates_bind (read_exact_sim _ _) fun _ => simulates_pure _) ?_
  refine simulates_nextThen read_byte_sim (simulates_throw _) (fun count => ?_)
  exact simulates_bind (read_exact_sim _ _) fun _ => simulates_pure _

theorem read_diff_opcode_sim : Simulates (source content n) DeltaReader.read_diff_opcode Grammar.opcode := by
  refine simulates_nextThen read_byte_sim (simulates_throw _) (fun tag => ?_)
  refine simulates_bind (fail_if_sim _ _) (fun _ => ?_)
  exact simulates_after (read_operands_sim _) fun out => recorded (.opcode out) out

theorem read_trailer_sim : Simulates (source content n) DeltaReader.read_trailer (Grammar.trailer n) := by
  refine simulates_bind read_byte_sim (fun tag => simulates_bind (fail_if_sim _ _) fun _ => ?_)
  have rest := simulates_bind (trailer_digest_size_sim : Simulates (source content n) _ _) fun size =>
    simulates_bind (read_exact_sim size "Truncated delta: short trailer") fun digest =>
      simulates_bind peek_byte_sim fun more =>
        simulates_bind (fail_if_sim more.isSome "Unexpected bytes after delta trailer") fun _ =>
          simulates_bind (fail_if_error_sim "Failed to read delta trailer") fun _ => recorded (.trailer digest) digest
  rw [pure_bind] at rest
  exact rest

/-- The item that the next byte announces. -/
def itemOf : Option UInt8 → DeltaReader.Item
  | none => .End
  | some byte => if byte = DELTA_TRAILER_TAG then .Trailer else .Entry

theorem next_item_sim :
    Simulates (source content n) DeltaReader.next_item (peek >>= fun byte => pure (itemOf byte)) := by
  refine simulates_bind peek_byte_sim (fun byte => ?_)
  cases byte with
  | none => exact simulates_pure _
  | some byte =>
    by_cases tag : byte = DELTA_TRAILER_TAG
    · simp only [itemOf, if_pos tag]
      exact simulates_pure _
    · simp only [itemOf, if_neg tag]
      exact simulates_pure _

/-- Without a fault, the item is that of the next byte. -/
theorem next_item_calm {r : DeltaReader} {rest : List UInt8} (feeds : (source content n).feeds r rest false) :
    ∃ r', DeltaReader.next_item r = .ok (itemOf rest.head?) r' ∧ (source content n).feeds r' rest false :=
  next_item_sim.accepts feeds rfl

theorem at_diff_opcode_calm {r : DeltaReader} {rest : List UInt8} (feeds : (source content n).feeds r rest false) :
    ∃ r', DeltaReader.at_diff_opcode r = .ok (is_diff_opcode rest.head?) r' ∧ (source content n).feeds r' rest false :=
  at_diff_opcode_sim.accepts feeds rfl

/-! ### Faulty sources -/

/-- The source has failed, or it is faulty and will. -/
def Broken (content : List UInt8) (n : Nat) (r : DeltaReader) : Prop :=
  (source content n).failed r ∨ ∃ rest, (source content n).feeds r rest true

/-- A method that never succeeds on a broken source. -/
def Fails {α : Type} (content : List UInt8) (n : Nat) (m : ReadM α) : Prop :=
  ∀ r, Broken content n r → ∃ e r', m r = .error e r'

variable {α γ : Type} {m : ReadM α} {f : α → ReadM γ} {p : Parser UInt8 α}

theorem broken_ok (sim : Simulates (source content n) m p) {r r' : DeltaReader} {a : α} (broken : Broken content n r)
    (run : m r = .ok a r') : Broken content n r' := by
  rcases broken with failed | ⟨rest, feeds⟩
  · have kept := sim.sticky r failed
    rw [run] at kept
    exact .inl kept
  · have outcome := sim.step r rest true feeds
    simp only [run] at outcome
    rcases outcome with ⟨_, failed⟩ | ⟨rest', _, feeds'⟩
    · exact .inl failed
    · exact .inr ⟨rest', feeds'⟩

theorem fails_throw (message : String) : Fails content n (throw message : ReadM α) :=
  fun r _ => ⟨message, r, rfl⟩

theorem fails_first (first : Fails content n m) : Fails content n (m >>= f) := by
  intro r broken
  obtain ⟨e, r', run⟩ := first r broken
  exact ⟨e, r', bind_error run⟩

theorem fails_second (sim : Simulates (source content n) m p) (second : ∀ a, Fails content n (f a)) :
    Fails content n (m >>= f) := by
  intro r broken
  cases run : m r with
  | error e r' => exact ⟨e, r', bind_error run⟩
  | ok a r' =>
    rw [bind_ok run]
    exact second a r' (broken_ok sim broken run)

/-- On a broken source the end of the input is not met without an error. -/
theorem fails_at_end (message message' : String) (k : Unit → ReadM γ) :
    Fails content n (DeltaReader.peek_byte >>= fun next => DeltaReader.fail_if next.isSome message >>= fun _ =>
      DeltaReader.fail_if_error message' >>= k) := by
  have errs : ∀ (next : Option UInt8) (r : DeltaReader), r.in_.io_error_ = true ∨ next.isSome = true →
      ∃ e r', (DeltaReader.fail_if next.isSome message >>= fun _ => DeltaReader.fail_if_error message' >>= k) r =
        .error e r' := by
    intro next r reason
    cases some : next.isSome with
    | true => exact ⟨message, r, rfl⟩
    | false =>
      have failed : r.io_error = true := by simpa [some, DeltaReader.io_error, FileIo.has_error] using reason
      have stop : DeltaReader.fail_if_error message' r = .error message' r := by
        rw [DeltaReader.fail_if_error, if_pos failed]
      have stopped : (DeltaReader.fail_if_error message' >>= k) r = .error message' r := bind_error stop
      exact ⟨message', r, stopped⟩
  intro r broken
  have ran : DeltaReader.peek_byte r = .ok r.in_.peek_byte.1 { r with in_ := r.in_.peek_byte.2 } := rfl
  rw [bind_ok ran]
  apply errs
  rcases broken with failed | ⟨rest, feeds⟩
  · exact .inl (peek_byte_sticky failed)
  · rcases peek_byte_spec feeds.1 with failed | ⟨result, _, more⟩
    · exact .inl failed.2
    · right
      rw [result]
      cases rest with
      | nil => exact absurd rfl (more rfl)
      | cons b rest => rfl

theorem read_trailer_fails : Fails content n DeltaReader.read_trailer := by
  refine fails_second read_byte_sim (fun _ => fails_second (fail_if_sim _ _) fun _ => ?_)
  refine fails_second trailer_digest_size_sim (fun _ => fails_second (read_exact_sim _ _) fun _ => ?_)
  exact fails_at_end _ _ _

theorem finish_fails : Fails content n (DeltaReader.finish false) :=
  fails_second (fail_if_error_sim _) fun _ => fails_throw _

end Roll.Reading
