import Roll.Cursor
import Roll.Grammar

/-!
What `DeltaWriter` writes is a word of the grammar.
-/
namespace Roll.Encoding
open Roll.Parsing Roll.Cursor Roll.Grammar

/-! ### Varints -/

/-- The groups of a value, the least significant first. -/
def groupBytes : Nat → UInt64 → List UInt8
  | 0, value => [value.toUInt8]
  | fuel + 1, value =>
    if value ≥ 0x80 then (value.toUInt8 ||| 0x80) :: groupBytes fuel (value >>> 7) else [value.toUInt8]

theorem head_groups_eq : ∀ (fuel : Nat) (head : List UInt8) (value : UInt64),
    DeltaWriter.head_groups fuel head value = head ++ groupBytes fuel value := by
  intro fuel
  induction fuel with
  | zero =>
    intro head value
    rfl
  | succ fuel ih =>
    intro head value
    unfold DeltaWriter.head_groups groupBytes
    split
    · rw [ih, List.append_assoc]
      rfl
    · rfl

/-- A group with the continuation bit keeps its seven bits. -/
theorem continued (b : UInt8) : (b ||| 0x80).toNat = b.toNat % 128 + 128 := by
  have all : ∀ i : Fin 256, (UInt8.ofNat i.val ||| 0x80).toNat = i.val % 128 + 128 := by decide +kernel
  have here := all ⟨b.toNat, b.toNat_lt⟩
  rwa [UInt8.ofNat_toNat] at here

theorem groupBytes_spec : ∀ (fuel : Nat) (value : UInt64), 0 < fuel → value.toNat < 2 ^ (7 * fuel) →
    TailGroups fuel (groupBytes fuel value) ∧ groupSum (groupBytes fuel value) = value.toNat := by
  intro fuel
  induction fuel with
  | zero =>
    intro value positive
    omega
  | succ fuel ih =>
    intro value _ small
    have low : value.toUInt8.toNat = value.toNat % 256 := rfl
    unfold groupBytes
    by_cases more : value ≥ 0x80
    · have big : 128 ≤ value.toNat := UInt64.le_iff_toNat_le.mp more
      have left : 0 < fuel := by
        cases fuel with
        | zero => omega
        | succ fuel => omega
      have shifted : (value >>> 7).toNat = value.toNat / 128 := by
        simp [UInt64.toNat_shiftRight, Nat.shiftRight_eq_div_pow]
      have small' : (value >>> 7).toNat < 2 ^ (7 * fuel) := by
        rw [shifted, Nat.div_lt_iff_lt_mul (by decide)]
        calc value.toNat < 2 ^ (7 * (fuel + 1)) := small
          _ = 2 ^ (7 * fuel) * 128 := by rw [Nat.mul_add, Nat.pow_add]
      obtain ⟨shape, sum⟩ := ih (value >>> 7) left small'
      have group := continued value.toUInt8
      rw [if_pos more]
      refine ⟨tailGroups_cons.mpr (.inr ⟨by omega, shape⟩), ?_⟩
      show (value.toUInt8 ||| 0x80).toNat % 128 + 128 * groupSum (groupBytes fuel (value >>> 7)) = _
      rw [sum, group, shifted, low]
      omega
    · have tiny : value.toNat < 128 := by
        have : ¬ 128 ≤ value.toNat := fun le => more (UInt64.le_iff_toNat_le.mpr le)
        omega
      rw [if_neg more]
      refine ⟨tailGroups_cons.mpr (.inl ⟨by omega, rfl⟩), ?_⟩
      show value.toUInt8.toNat % 128 + 128 * groupSum [] = _
      simp only [groupSum]
      omega

/-- The varint of a value, as the writer spells it. -/
def varintBytes (value : UInt64) : List UInt8 := groupBytes VARINT_MAX_BYTES value

theorem isVarint_bytes (value : UInt64) : IsVarint value (varintBytes value) := by
  have bound : value.toNat < 2 ^ (7 * VARINT_MAX_BYTES) := Nat.lt_trans value.toNat_lt (by decide)
  obtain ⟨⟨init, last, split, short, more, ends⟩, sum⟩ := groupBytes_spec VARINT_MAX_BYTES value (by decide) bound
  exact ⟨init, last, split, short, more, ends, sum⟩

/-! ### Opcodes -/

/-- An opcode in the documented layout. -/
def opcodeBytes (opcode : DiffOpcode) : List UInt8 :=
  if opcode.op = OP_DELETE then opcode.op :: push_u32_be [] opcode.pos ++ push_u32_be [] opcode.delete_length
  else opcode.op :: push_u32_be [] opcode.pos ++ UInt8.ofNat opcode.bytes.length :: opcode.bytes

def runBytes (opcodes : List DiffOpcode) : List UInt8 := (opcodes.map opcodeBytes).flatten

/-- An opcode that can be written: what its kind does not carry is empty. -/
inductive Writable : DiffOpcode → Prop
  | inline {op : UInt8} {pos : UInt32} {bytes : List UInt8} : op = OP_REPLACE ∨ op = OP_INSERT → bytes.length ≤ 255 →
      Writable { op, pos, bytes }
  | delete {pos delete_length : UInt32} : Writable { op := OP_DELETE, pos, delete_length }

theorem isOpcode_bytes {opcode : DiffOpcode} (writable : Writable opcode) : IsOpcode opcode (opcodeBytes opcode) := by
  cases writable with
  | @inline op _ _ kind short =>
    have other : ¬ op = OP_DELETE := by
      rcases kind with rfl | rfl
      · decide
      · decide
    rw [opcodeBytes, if_neg other]
    exact .inline kind (by omega)
  | delete =>
    rw [opcodeBytes, if_pos rfl]
    exact .delete

theorem isRun_bytes {opcodes : List DiffOpcode} (writable : ∀ o ∈ opcodes, Writable o) :
    Many IsOpcode opcodes (runBytes opcodes) := by
  induction opcodes with
  | nil => exact .nil
  | cons o rest ih =>
    exact .cons (isOpcode_bytes (writable o (by simp))) (ih fun o' member => writable o' (by simp [member]))

/-! ### Records -/

theorem recordHead_one (type : EntryType) (field : UInt64) {digest : List UInt8} (length : digest.length = DELTA_DIGEST_BYTES) :
    DeltaWriter.recordHead type [field] digest = type.toByte :: (varintBytes field ++ digest) := by
  rw [DeltaWriter.recordHead, List.take_of_length_le (by omega)]
  simp [head_groups_eq, varintBytes]

theorem recordHead_two (type : EntryType) (first second : UInt64) {digest : List UInt8}
    (length : digest.length = DELTA_DIGEST_BYTES) :
    DeltaWriter.recordHead type [first, second] digest =
      type.toByte :: (varintBytes first ++ varintBytes second ++ digest) := by
  rw [DeltaWriter.recordHead, List.take_of_length_le (by omega)]
  simp [head_groups_eq, varintBytes]

/-- The record of an ORIGINAL entry. -/
theorem isRecord_original (old_index : UInt64) {digest : List UInt8} (length : digest.length = DELTA_DIGEST_BYTES) :
    IsRecord { header := { type := .ORIGINAL_CHUNK, old_index, digest } }
      (DeltaWriter.recordHead .ORIGINAL_CHUNK [old_index] digest) := by
  rw [recordHead_one _ _ length]
  exact .original rfl (.original (isVarint_bytes old_index) length)

theorem ofNat_size {size : Nat} (small : size ≤ DELTA_MAX_CHUNK_SIZE) : (UInt64.ofNat size).toNat = size := by
  rw [UInt64.toNat_ofNat']
  apply Nat.mod_eq_of_lt
  have : DELTA_MAX_CHUNK_SIZE = 16384 := rfl
  omega

theorem isRecord_added {payload digest : List UInt8} (small : payload.length ≤ DELTA_MAX_CHUNK_SIZE)
    (length : digest.length = DELTA_DIGEST_BYTES) :
    IsRecord { header := { type := .ADDED_CHUNK, out_size := UInt64.ofNat payload.length, digest }, payload }
      (DeltaWriter.recordHead .ADDED_CHUNK [UInt64.ofNat payload.length] digest ++ payload) := by
  rw [recordHead_one _ _ length]
  have size := ofNat_size small
  exact .added rfl (.added (isVarint_bytes _) (by rw [size]; exact small) length) size.symm

theorem isRecord_modified (old_index out_size : UInt64) {digest run : List UInt8} {opcodes : List DiffOpcode}
    (small : out_size.toNat ≤ DELTA_MAX_CHUNK_SIZE) (length : digest.length = DELTA_DIGEST_BYTES) (some : opcodes ≠ [])
    (words : Many IsOpcode opcodes run) :
    IsRecord { header := { type := .MODIFIED_CHUNK, old_index, out_size, digest }, opcodes }
      (DeltaWriter.recordHead .MODIFIED_CHUNK [old_index, out_size] digest ++ run) := by
  rw [recordHead_two _ _ _ length]
  exact .modified rfl (.modified (isVarint_bytes _) (isVarint_bytes _) small length) some words

/-! ### The writer -/

/-- A writer that has written `content` and nothing else. -/
structure Writes (content : List UInt8) (w : DeltaWriter) : Prop where
  out : Appends content w.out_
  count : w.bytes_written_ = content.length

theorem emit_spec {content bytes : List UInt8} {w : DeltaWriter} (writes : Writes content w) (what : String)
    (fits : bytes.length ≤ STREAMOFF_MAX) :
    ∃ w', DeltaWriter.emit bytes what w = .ok () w' ∧ Writes (content ++ bytes) w' := by
  obtain ⟨wrote, appends⟩ := write_chunk_spec writes.out fits
  have result : DeltaWriter.emit bytes what w =
      .ok () { out_ := (w.out_.write_chunk bytes).2, bytes_written_ := w.bytes_written_ + bytes.length } := by
    unfold DeltaWriter.emit
    split
    · next fails => rw [fails] at wrote; cases wrote
    · next out run => rw [run]
  exact ⟨_, result, appends, by simp [writes.count]⟩

theorem groupBytes_length : ∀ (fuel : Nat) (value : UInt64), (groupBytes fuel value).length ≤ fuel + 1 := by
  intro fuel
  induction fuel with
  | zero =>
    intro value
    exact Nat.le_refl 1
  | succ fuel ih =>
    intro value
    unfold groupBytes
    split
    · have := ih (value >>> 7)
      simp only [List.length_cons]
      omega
    · simp

/-- Fields whose groups are bounded take up no more than the sum of the bounds. -/
theorem foldl_groups_length {b : Nat} (bound : ∀ value, (groupBytes VARINT_MAX_BYTES value).length ≤ b) :
    ∀ (fields : List UInt64) (head : List UInt8),
      (fields.foldl (DeltaWriter.head_groups VARINT_MAX_BYTES) head).length ≤ head.length + b * fields.length := by
  intro fields
  induction fields with
  | nil =>
    intro head
    simp
  | cons field rest ih =>
    intro head
    have group := bound field
    have later := ih (DeltaWriter.head_groups VARINT_MAX_BYTES head field)
    rw [head_groups_eq, List.length_append] at later
    rw [List.foldl_cons, List.length_cons, head_groups_eq, Nat.mul_succ]
    omega

theorem recordHead_length (type : EntryType) {fields : List UInt64} (few : fields.length ≤ 2) (digest : List UInt8) :
    (DeltaWriter.recordHead type fields digest).length ≤ STREAMOFF_MAX := by
  have head : (fields.foldl (DeltaWriter.head_groups VARINT_MAX_BYTES) [type.toByte]).length ≤ 1 + 11 * fields.length :=
    foldl_groups_length (groupBytes_length VARINT_MAX_BYTES) fields [type.toByte]
  have tail : (digest.take DELTA_DIGEST_BYTES).length ≤ 16 := List.length_take_le _ _
  have max : STREAMOFF_MAX = 2 ^ 63 - 1 := rfl
  rw [DeltaWriter.recordHead, List.length_append]
  omega

theorem emitRecord_spec {content : List UInt8} {w : DeltaWriter} (writes : Writes content w) (type : EntryType)
    (fields : List UInt64) (few : fields.length ≤ 2) {digest : List UInt8} (length : digest.length = DELTA_DIGEST_BYTES)
    (body : List UInt8) (fits : body.length ≤ STREAMOFF_MAX) (what : String) :
    ∃ w', DeltaWriter.emitRecord type fields digest body what w = .ok () w' ∧
      Writes (content ++ (DeltaWriter.recordHead type fields digest ++ body)) w' := by
  obtain ⟨w₁, run₁, writes₁⟩ := emit_spec writes what (recordHead_length type few digest)
  have valid : ¬ (fields.length > 2 ∨ digest.length ≠ DELTA_DIGEST_BYTES) := by
    rw [not_or]
    exact ⟨by omega, not_not.mpr length⟩
  unfold DeltaWriter.emitRecord
  rw [if_neg valid, bind_ok run₁]
  by_cases nothing : body = []
  · rw [if_pos nothing, nothing, List.append_nil]
    exact ⟨w₁, rfl, writes₁⟩
  · rw [if_neg nothing]
    obtain ⟨w₂, run₂, writes₂⟩ := emit_spec writes₁ what fits
    rw [List.append_assoc] at writes₂
    exact ⟨w₂, run₂, writes₂⟩

theorem write_header_spec {content : List UInt8} {w : DeltaWriter} (writes : Writes content w) :
    ∃ w', DeltaWriter.write_header w = .ok () w' ∧
      Writes (content ++ (DELTA_MAGIC ++ push_u32_be [] DELTA_FORMAT_VERSION)) w' :=
  emit_spec writes _ (by decide)

theorem write_trailer_spec {content digest : List UInt8} {w : DeltaWriter} (writes : Writes content w)
    (fits : digest.length ≤ STREAMOFF_MAX) :
    ∃ w', DeltaWriter.write_trailer digest w = .ok () w' ∧ Writes (content ++ DELTA_TRAILER_TAG :: digest) w' := by
  obtain ⟨w₁, run₁, writes₁⟩ := emit_spec writes "delta trailer"
    (by decide : [DELTA_TRAILER_TAG].length ≤ STREAMOFF_MAX)
  obtain ⟨w₂, run₂, writes₂⟩ := emit_spec writes₁ "delta trailer" fits
  rw [List.append_assoc] at writes₂
  exact ⟨w₂, by rw [DeltaWriter.write_trailer, bind_ok run₁]; exact run₂, writes₂⟩

end Roll.Encoding
