import Roll.Encoding
import Roll.Outcome

/-!
The sizes that `DeltaWriter` predicts and counts are those of the bytes it writes.
-/
namespace Roll.Counting
open Roll.Parsing Roll.Outcome Roll.Cursor Roll.Grammar Roll.Encoding

/-! ### The three spellings of a varint -/

theorem push_groups_eq : ∀ (fuel : Nat) (out : List UInt8) (value : UInt64),
    push_groups fuel out value = out ++ groupBytes fuel value := by
  intro fuel
  induction fuel with
  | zero =>
    intro out value
    rfl
  | succ fuel ih =>
    intro out value
    unfold push_groups groupBytes
    by_cases more : value ≥ 0x80
    · rw [if_pos more, if_pos more, ih, List.append_assoc]
      rfl
    · rw [if_neg more, if_neg more]

theorem count_groups_eq : ∀ (fuel n : Nat) (value : UInt64),
    count_groups fuel n value + 1 = n + (groupBytes fuel value).length := by
  intro fuel
  induction fuel with
  | zero =>
    intro n value
    rfl
  | succ fuel ih =>
    intro n value
    unfold count_groups groupBytes
    by_cases more : value ≥ 0x80
    · rw [if_pos more, if_pos more, ih, List.length_cons]
      omega
    · rw [if_neg more, if_neg more]
      rfl

theorem push_varint_eq (out : List UInt8) (value : UInt64) : push_varint out value = out ++ varintBytes value :=
  push_groups_eq VARINT_MAX_BYTES out value

theorem varint_length (value : UInt64) : (varintBytes value).length = varint_size value := by
  have count := count_groups_eq VARINT_MAX_BYTES 1 value
  rw [varint_size, varintBytes]
  omega

theorem varint_size_le (value : UInt64) : varint_size value ≤ VARINT_MAX_BYTES := by
  have bound : value.toNat < 2 ^ (7 * VARINT_MAX_BYTES) := Nat.lt_trans value.toNat_lt (by decide)
  obtain ⟨⟨init, last, split, short, _⟩, _⟩ := groupBytes_spec VARINT_MAX_BYTES value (by decide) bound
  have length := congrArg List.length split
  rw [← varint_length, varintBytes, length, List.length_append, List.length_singleton]
  omega

/-- The bytes that `emitRecord` has room for in its buffer. -/
def HEAD_BYTES : Nat := 1 + 2 * VARINT_MAX_BYTES + DELTA_DIGEST_BYTES

theorem recordHead_fits (type : EntryType) {fields : List UInt64} (few : fields.length ≤ 2) (digest : List UInt8) :
    (DeltaWriter.recordHead type fields digest).length ≤ HEAD_BYTES := by
  have group : ∀ value, (groupBytes VARINT_MAX_BYTES value).length ≤ VARINT_MAX_BYTES := by
    intro value
    rw [← varintBytes, varint_length]
    exact varint_size_le value
  have head := foldl_groups_length group fields [type.toByte]
  have more := Nat.mul_le_mul_left VARINT_MAX_BYTES few
  have tail : (digest.take DELTA_DIGEST_BYTES).length ≤ DELTA_DIGEST_BYTES := List.length_take_le _ _
  rw [DeltaWriter.recordHead, List.length_append, HEAD_BYTES]
  rw [List.length_singleton] at head
  omega

/-! ### Calls -/

/-- A call of a method of `DeltaWriter`. -/
inductive Call
  | header
  | original (old_index : UInt64) (digest : List UInt8)
  | added (digest payload : List UInt8)
  | modified (old_index out_size : UInt64) (digest opcodes : List UInt8)
  | trailer (digest : List UInt8)
deriving DecidableEq

namespace Call

def run : Call → WriteM Unit
  | header => DeltaWriter.write_header
  | original old_index digest => DeltaWriter.write_original old_index digest
  | added digest payload => DeltaWriter.write_added digest payload
  | modified old_index out_size digest opcodes => DeltaWriter.write_modified old_index out_size digest opcodes
  | trailer digest => DeltaWriter.write_trailer digest

/-- What the call adds to the file, its varints as `push_varint` spells them. -/
def bytes : Call → List UInt8
  | header => push_u32_be DELTA_MAGIC DELTA_FORMAT_VERSION
  | original old_index digest => push_varint [EntryType.ORIGINAL_CHUNK.toByte] old_index ++ digest
  | added digest payload => push_varint [EntryType.ADDED_CHUNK.toByte] (UInt64.ofNat payload.length) ++ digest ++ payload
  | modified old_index out_size digest opcodes =>
    push_varint (push_varint [EntryType.MODIFIED_CHUNK.toByte] old_index) out_size ++ digest ++ opcodes
  | trailer digest => DELTA_TRAILER_TAG :: digest

/-- The size of it that the writer predicts. -/
def size : Call → Nat
  | header => DELTA_HEADER_SIZE
  | original old_index _ => 17 + varint_size old_index
  | added _ payload => DeltaWriter.added_size payload.length
  | modified old_index out_size _ opcodes => DeltaWriter.modified_size old_index out_size.toNat opcodes.length
  | trailer digest => 1 + digest.length

/-- The digest of an entry. -/
def digest? : Call → Option (List UInt8)
  | header => none
  | original _ digest => some digest
  | added digest _ => some digest
  | modified _ _ digest _ => some digest
  | trailer _ => none

end Call

/-- The calls one after another, as long as they succeed. -/
def run_all : List Call → WriteM Unit
  | [] => pure ()
  | call :: rest => do
    call.run
    run_all rest

/-- A write-only handle without an error that holds `content`, `counted` bytes of
    which are not this writer's. -/
structure Counts (counted : Nat) (content : List UInt8) (w : DeltaWriter) : Prop where
  stores : Stores content w.out_
  quiet : w.out_.io_error_ = false
  count : counted + w.bytes_written_ = content.length

variable {counted : Nat} {content : List UInt8} {w : DeltaWriter}

theorem emit_counts (counts : Counts counted content w) (bytes : List UInt8) (what : String) :
    Yields (DeltaWriter.emit bytes what) w (fun _ w' => Counts counted (content ++ bytes) w') True := by
  obtain ⟨stores, agrees⟩ := write_chunk_stores counts.stores bytes
  unfold Yields Leaves DeltaWriter.emit
  generalize w.out_.write_chunk bytes = r at stores agrees ⊢
  obtain ⟨wrote, out⟩ := r
  cases wrote with
  | false => exact trivial
  | true =>
    have count := counts.count
    refine ⟨stores, by simpa using agrees.symm, ?_⟩
    rw [List.length_append]
    dsimp only
    omega

/-- A record is written with a digest of 16 bytes only. -/
theorem emitRecord_counts (counts : Counts counted content w) (type : EntryType) (fields : List UInt64)
    (digest body : List UInt8) (what : String) :
    Yields (DeltaWriter.emitRecord type fields digest body what) w (fun _ w' => digest.length = DELTA_DIGEST_BYTES ∧
      Counts counted (content ++ (DeltaWriter.recordHead type fields digest ++ body)) w') True := by
  unfold DeltaWriter.emitRecord
  by_cases invalid : fields.length > 2 ∨ digest.length ≠ DELTA_DIGEST_BYTES
  · rw [if_pos invalid]
    exact yields_throw trivial
  · have length : digest.length = DELTA_DIGEST_BYTES := not_not.mp fun wrong => invalid (.inr wrong)
    rw [if_neg invalid]
    refine yields_bind (emit_counts counts _ what) (fun any => any) ?_
    intro _ w₁ counts₁
    by_cases nothing : body = []
    · rw [if_pos nothing, nothing, List.append_nil]
      exact yields_pure ⟨length, counts₁⟩
    · rw [if_neg nothing]
      refine (emit_counts counts₁ body what).mono ?_ (fun any => any)
      intro _ w₂ counts₂
      rw [← List.append_assoc]
      exact ⟨length, counts₂⟩

/-- A call that succeeds adds its bytes, and they have the predicted size. -/
theorem call_counts (counts : Counts counted content w) (call : Call) :
    Yields call.run w (fun _ w' => Counts counted (content ++ call.bytes) w' ∧ call.bytes.length = call.size) True := by
  cases call with
  | header =>
    refine (emit_counts counts _ _).mono ?_ (fun any => any)
    exact fun _ w' counts' => ⟨counts', rfl⟩
  | original old_index digest =>
    refine (emitRecord_counts counts _ _ digest _ _).mono ?_ (fun any => any)
    rintro _ w' ⟨length, counts'⟩
    rw [recordHead_one _ _ length, List.append_nil] at counts'
    refine ⟨by simpa [Call.bytes, push_varint_eq] using counts', ?_⟩
    simp only [Call.bytes, Call.size, push_varint_eq, List.length_append, varint_length, length,
      DELTA_DIGEST_BYTES, List.length_singleton]
    omega
  | added digest payload =>
    refine (emitRecord_counts counts _ _ digest _ _).mono ?_ (fun any => any)
    rintro _ w' ⟨length, counts'⟩
    rw [recordHead_one _ _ length] at counts'
    refine ⟨by simpa [Call.bytes, push_varint_eq] using counts', ?_⟩
    simp only [Call.bytes, Call.size, DeltaWriter.added_size, push_varint_eq, List.length_append, varint_length, length,
      List.length_singleton]
  | modified old_index out_size digest opcodes =>
    refine (emitRecord_counts counts _ _ digest _ _).mono ?_ (fun any => any)
    rintro _ w' ⟨length, counts'⟩
    rw [recordHead_two _ _ _ length] at counts'
    refine ⟨by simpa [Call.bytes, push_varint_eq] using counts', ?_⟩
    simp only [Call.bytes, Call.size, DeltaWriter.modified_size, push_varint_eq, List.length_append, varint_length, length,
      List.length_singleton, UInt64.ofNat_toNat]
  | trailer digest =>
    unfold Call.run DeltaWriter.write_trailer
    refine yields_bind (emit_counts counts _ _) (fun any => any) ?_
    intro _ w₁ counts₁
    refine (emit_counts counts₁ _ _).mono ?_ (fun any => any)
    intro _ w₂ counts₂
    rw [List.append_assoc] at counts₂
    exact ⟨counts₂, by simp [Call.bytes, Call.size, Nat.add_comm]⟩

theorem run_all_counts : ∀ (calls : List Call) {content : List UInt8} {w : DeltaWriter}, Counts counted content w →
    Yields (run_all calls) w (fun _ w' => Counts counted (content ++ (calls.map Call.bytes).flatten) w' ∧
      ∀ call ∈ calls, call.bytes.length = call.size) True := by
  intro calls
  induction calls with
  | nil =>
    intro content w counts
    exact yields_pure ⟨by simpa using counts, by simp⟩
  | cons call calls ih =>
    intro content w counts
    unfold run_all
    refine yields_bind (call_counts counts call) (fun any => any) ?_
    rintro _ w₁ ⟨counts₁, size⟩
    refine (ih counts₁).mono ?_ (fun any => any)
    rintro _ w₂ ⟨counts₂, sizes⟩
    rw [List.append_assoc] at counts₂
    exact ⟨counts₂, List.forall_mem_cons.mpr ⟨size, sizes⟩⟩

/-- An entry whose digest does not have 16 bytes is refused, and nothing changes. -/
theorem refused {call : Call} {digest : List UInt8} (entry : call.digest? = some digest)
    (wrong : digest.length ≠ DELTA_DIGEST_BYTES) (w : DeltaWriter) : ∃ message, call.run w = .error message w := by
  have refuses : ∀ (type : EntryType) (fields : List UInt64) (body : List UInt8) (what : String),
      DeltaWriter.emitRecord type fields digest body what w = .error ("Invalid " ++ what) w := by
    intro type fields body what
    unfold DeltaWriter.emitRecord
    rw [if_pos (.inr wrong)]
    rfl
  cases call with
  | header => cases entry
  | original old_index d =>
    obtain rfl : d = digest := by simpa [Call.digest?] using entry
    exact ⟨_, refuses _ _ _ _⟩
  | added d payload =>
    obtain rfl : d = digest := by simpa [Call.digest?] using entry
    exact ⟨_, refuses _ _ _ _⟩
  | modified old_index out_size d opcodes =>
    obtain rfl : d = digest := by simpa [Call.digest?] using entry
    exact ⟨_, refuses _ _ _ _⟩
  | trailer d => cases entry

/-- Whatever calls succeed on a writer that was just made: the count is that of the
    bytes added, every record has the size predicted for it, the loop of
    `emitRecord` spells a varint as `push_varint` does and stays in its buffer, and
    an entry with a wrong digest is refused. -/
theorem writer_sizes_are_exact {content : List UInt8} {w w' : DeltaWriter} (stores : Stores content w.out_)
    (quiet : w.out_.io_error_ = false) (fresh : w.bytes_written_ = 0) {calls : List Call}
    (written : run_all calls w = .ok () w') :
    (w'.out_.f_.data = content ++ (calls.map Call.bytes).flatten ∧
      content.length + w'.bytes_written_ = w'.out_.f_.data.length ∧
      ∀ call ∈ calls, call.bytes.length = call.size) ∧
    (∀ (head : List UInt8) (value : UInt64),
      DeltaWriter.head_groups VARINT_MAX_BYTES head value = push_varint head value ∧
      (push_varint head value).length = head.length + varint_size value ∧ varint_size value ≤ 10) ∧
    (∀ (type : EntryType) (fields : List UInt64) (digest : List UInt8), fields.length ≤ 2 →
      (DeltaWriter.recordHead type fields digest).length ≤ HEAD_BYTES) ∧
    ∀ (call : Call) (digest : List UInt8) (w : DeltaWriter), call.digest? = some digest → digest.length ≠ 16 →
      ∃ message, call.run w = .error message w := by
  have counts : Counts content.length content w := ⟨stores, quiet, by rw [fresh, Nat.add_zero]⟩
  obtain ⟨counts', sizes⟩ := (run_all_counts calls counts).of_ok written
  have data := (counts'.stores.stored counts'.quiet).1
  refine ⟨⟨data, by rw [data]; exact counts'.count, sizes⟩, ?_, ?_, ?_⟩
  · intro head value
    rw [head_groups_eq, push_varint_eq, ← varintBytes, List.length_append, varint_length]
    exact ⟨rfl, rfl, varint_size_le value⟩
  · exact fun type fields digest few => recordHead_fits type few digest
  · exact fun call digest w entry wrong => refused entry wrong w

/-- A writer over an empty file that nothing disturbs. -/
private def fresh_writer : DeltaWriter := { out_ := { f_ := { opened := true } } }

/-- The header, and a reference whose index takes two bytes. -/
theorem writer_sizes_are_exact_reference :
    let digest : List UInt8 := [0, 1, 2, 3, 4, 5, 6, 7, 8, 9, 10, 11, 12, 13, 14, 15]
    let calls := [Call.header, Call.original 300 digest]
    (after (run_all calls fresh_writer)).out_.f_.data = (calls.map Call.bytes).flatten ∧
      (after (run_all calls fresh_writer)).bytes_written_ = 27 := by
  intro digest calls
  have stores : Stores [] fresh_writer.out_ :=
    ⟨rfl, fun _ impossible => (by cases impossible), rfl, rfl, Nat.le_refl 0, fun _ => ⟨rfl, rfl, rfl⟩⟩
  have written : run_all calls fresh_writer = .ok () (after (run_all calls fresh_writer)) := rfl
  obtain ⟨⟨data, count, _⟩, _⟩ := writer_sizes_are_exact stores rfl rfl written
  exact ⟨data, by decide +kernel⟩

end Roll.Counting
