import Roll.Calm
import Roll.Encoding
import Roll.Reading

/-!
What the writer writes, the reader reads back.
-/
namespace Roll.Roundtrip
open Roll.Parsing Roll.Cursor Roll.Reading Roll.Grammar Roll.Encoding

/-- A record as it is handed to the writer. -/
inductive Written
  | original (old_index : UInt64) (digest : List UInt8)
  | added (digest payload : List UInt8)
  | modified (old_index out_size : UInt64) (digest : List UInt8) (opcodes : List DiffOpcode)

namespace Written

/-- The record the reader returns for it. -/
def record : Written → Record
  | original old_index digest => { header := { type := .ORIGINAL_CHUNK, old_index, digest } }
  | added digest payload =>
    { header := { type := .ADDED_CHUNK, out_size := UInt64.ofNat payload.length, digest }, payload }
  | modified old_index out_size digest opcodes =>
    { header := { type := .MODIFIED_CHUNK, old_index, out_size, digest }, opcodes }

def write : Written → WriteM Unit
  | original old_index digest => DeltaWriter.write_original old_index digest
  | added digest payload => DeltaWriter.write_added digest payload
  | modified old_index out_size digest opcodes =>
    DeltaWriter.write_modified old_index out_size digest (runBytes opcodes)

/-- A digest of 16 bytes, sizes up to the maximum, one or more opcodes; the
    bytes of a run are those of a vector. -/
inductive Valid : Written → Prop
  | original {old_index : UInt64} {digest : List UInt8} : digest.length = DELTA_DIGEST_BYTES →
      Valid (original old_index digest)
  | added {digest payload : List UInt8} : digest.length = DELTA_DIGEST_BYTES →
      payload.length ≤ DELTA_MAX_CHUNK_SIZE → Valid (added digest payload)
  | modified {old_index out_size : UInt64} {digest : List UInt8} {opcodes : List DiffOpcode} :
      digest.length = DELTA_DIGEST_BYTES → out_size.toNat ≤ DELTA_MAX_CHUNK_SIZE → opcodes ≠ [] →
      (∀ o ∈ opcodes, Writable o) → (runBytes opcodes).length ≤ STREAMOFF_MAX →
      Valid (modified old_index out_size digest opcodes)

/-- A valid record is written as a word of the grammar. -/
theorem write_spec {written : Written} (valid : written.Valid) {content : List UInt8} {w : DeltaWriter}
    (writes : Writes content w) :
    ∃ bytes w', written.write w = .ok () w' ∧ Writes (content ++ bytes) w' ∧ IsRecord written.record bytes := by
  cases valid with
  | @original old_index digest length =>
    obtain ⟨w', run, writes'⟩ := emitRecord_spec writes .ORIGINAL_CHUNK [old_index] (by simp) length [] (by simp)
      "ORIGINAL entry"
    rw [List.append_nil] at writes'
    exact ⟨_, w', run, writes', isRecord_original old_index length⟩
  | @added digest payload length small =>
    have fits : payload.length ≤ STREAMOFF_MAX := Nat.le_trans small (by decide)
    obtain ⟨w', run, writes'⟩ := emitRecord_spec writes .ADDED_CHUNK [UInt64.ofNat payload.length]
      (by simp) length payload fits "ADDED entry"
    exact ⟨_, w', run, writes', isRecord_added small length⟩
  | @modified old_index out_size digest opcodes length small some writable fits =>
    obtain ⟨w', run, writes'⟩ := emitRecord_spec writes .MODIFIED_CHUNK [old_index, out_size]
      (by simp) length (runBytes opcodes) fits "MODIFIED entry"
    exact ⟨_, w', run, writes', isRecord_modified old_index out_size small length some (isRun_bytes writable)⟩

end Written

def writeAll : List Written → WriteM Unit
  | [] => pure ()
  | written :: rest => do
    written.write
    writeAll rest

/-- A whole delta. -/
def writeDelta (records : List Written) (trailer : List UInt8) : WriteM Unit := do
  DeltaWriter.write_header
  writeAll records
  DeltaWriter.write_trailer trailer

theorem writeAll_spec : ∀ {records : List Written}, (∀ r ∈ records, r.Valid) → ∀ {content : List UInt8} {w : DeltaWriter},
    Writes content w → ∃ bytes w', writeAll records w = .ok () w' ∧ Writes (content ++ bytes) w' ∧
      Many IsRecord (records.map Written.record) bytes := by
  intro records
  induction records with
  | nil =>
    intro _ content w writes
    exact ⟨[], w, rfl, by rwa [List.append_nil], .nil⟩
  | cons written rest ih =>
    intro valid content w writes
    obtain ⟨u, w₁, run₁, writes₁, word⟩ := written.write_spec (valid written (by simp)) writes
    obtain ⟨v, w₂, run₂, writes₂, words⟩ := ih (fun r member => valid r (by simp [member])) writes₁
    rw [List.append_assoc] at writes₂
    exact ⟨u ++ v, w₂, by rw [writeAll, bind_ok run₁]; exact run₂, writes₂, .cons word words⟩

theorem writeDelta_spec {records : List Written} (valid : ∀ r ∈ records, r.Valid) {trailer : List UInt8}
    (fits : trailer.length ≤ STREAMOFF_MAX) {w : DeltaWriter} (writes : Writes [] w) :
    ∃ bytes w', writeDelta records trailer w = .ok () w' ∧ Writes bytes w' ∧
      IsDelta trailer.length (records.map Written.record) trailer bytes := by
  obtain ⟨w₁, run₁, writes₁⟩ := write_header_spec writes
  obtain ⟨u, w₂, run₂, writes₂, words⟩ := writeAll_spec valid writes₁
  obtain ⟨w₃, run₃, writes₃⟩ := write_trailer_spec writes₂ fits
  rw [List.nil_append, List.append_assoc] at writes₃
  have run : writeDelta records trailer w = .ok () w₃ := by
    rw [writeDelta, bind_ok run₁, bind_ok run₂]
    exact run₃
  exact ⟨_, w₃, run, writes₃, _, rfl, u, rfl, words, rfl⟩

/-! ### Reading back -/

def readOpcodes : Nat → ReadM (List DiffOpcode)
  | 0 => throw ""
  | fuel + 1 => do
    if ← DeltaReader.at_diff_opcode then
      let first ← DeltaReader.read_diff_opcode
      let rest ← readOpcodes fuel
      pure (first :: rest)
    else pure []

def readRecord (fuel : Nat) : ReadM Record := do
  let header ← DeltaReader.read_entry_header
  match header.type with
  | .ORIGINAL_CHUNK => pure { header }
  | .ADDED_CHUNK =>
    let payload ← DeltaReader.read_payload header.out_size.toNat
    pure { header, payload }
  | .MODIFIED_CHUNK =>
    let opcodes ← readOpcodes fuel
    pure { header, opcodes }

/-- The records up to the trailer, and the trailer. -/
def readAll (fuel : Nat) : Nat → ReadM (List Record × Option (List UInt8))
  | 0 => throw ""
  | left + 1 => do
    match ← DeltaReader.next_item with
    | .End => pure ([], none)
    | .Trailer =>
      let trailer ← DeltaReader.read_trailer
      pure ([], some trailer)
    | .Entry =>
      let first ← readRecord fuel
      let (rest, trailer) ← readAll fuel left
      pure (first :: rest, trailer)

/-- A whole delta, and the item after it. -/
def readDelta (fuel : Nat) : ReadM (List Record × Option (List UInt8) × DeltaReader.Item) := do
  DeltaReader.read_header
  let (records, trailer) ← readAll fuel fuel
  let item ← DeltaReader.next_item
  pure (records, trailer, item)

variable {content : List UInt8} {n : Nat}

theorem readOpcodes_sim : ∀ fuel, Simulates (source content n) (readOpcodes fuel) (run fuel) := by
  intro fuel
  induction fuel with
  | zero => exact simulates_throw _
  | succ fuel ih =>
    unfold readOpcodes run DeltaReader.at_diff_opcode
    rw [bind_assoc]
    refine simulates_bind peek_byte_sim (fun byte => ?_)
    rw [pure_bind]
    exact simulates_ite (simulates_bind read_diff_opcode_sim fun _ => simulates_bind ih fun _ => simulates_pure _)
      (simulates_pure _)

theorem readRecord_spec {fuel : Nat} {record : Record} {w t : List UInt8} (word : IsRecord record w)
    (follow : MayFollow record t) (short : (w ++ t).length < fuel) {r : DeltaReader}
    (feeds : (source content n).feeds r (w ++ t) false) :
    ∃ r', readRecord fuel r = .ok record r' ∧ (source content n).feeds r' t false := by
  have head : ∀ {header : DeltaEntryHeader} {u v : List UInt8}, IsEntry header u → w ++ t = u ++ v →
      ∃ r', DeltaReader.read_entry_header r = .ok header r' ∧ (source content n).feeds r' v false := by
    intro header u v entry split
    rw [split] at feeds short
    exact read_entry_header_sim.accepts feeds
      ((recognises_iff.mp recognises_entryHeader _ short header v).mpr ⟨u, rfl, entry⟩)
  cases word with
  | @original header w type entry =>
    obtain ⟨r₁, run₁, feeds₁⟩ := head entry rfl
    refine ⟨r₁, ?_, feeds₁⟩
    rw [readRecord, bind_ok run₁]
    simp only [type]
    rfl
  | @added header u payload type entry length =>
    obtain ⟨r₁, run₁, feeds₁⟩ := head entry (List.append_assoc u payload t)
    have taken : exactly header.out_size.toNat (payload ++ t) = some (payload, t) := by
      simp [exactly_run, ← length]
    obtain ⟨r₂, run₂, feeds₂⟩ := (read_payload_sim header.out_size.toNat).accepts feeds₁ taken
    refine ⟨r₂, ?_, feeds₂⟩
    rw [readRecord, bind_ok run₁]
    simp only [type]
    rw [bind_ok run₂]
    rfl
  | @modified header u v opcodes type entry some words =>
    obtain ⟨r₁, run₁, feeds₁⟩ := head entry (List.append_assoc u v t)
    have few : (v ++ t).length < fuel := by
      rw [List.append_assoc, List.length_append] at short
      omega
    obtain ⟨r₂, run₂, feeds₂⟩ := (readOpcodes_sim fuel).accepts feeds₁
      ((recognises_run fuel (v ++ t) few opcodes t).mpr ⟨v, rfl, words, follow type⟩)
    refine ⟨r₂, ?_, feeds₂⟩
    rw [readRecord, bind_ok run₁]
    simp only [type]
    rw [bind_ok run₂]
    rfl

theorem readAll_spec (fuel : Nat) {trailer : List UInt8} (size : trailer.length = n) {records : List Record}
    {u : List UInt8} (words : Many IsRecord records u) : ∀ (left : Nat) {r : DeltaReader},
      (u ++ DELTA_TRAILER_TAG :: trailer).length < fuel → records.length < left →
      (source content n).feeds r (u ++ DELTA_TRAILER_TAG :: trailer) false →
      ∃ r', readAll fuel left r = .ok (records, some trailer) r' ∧ (source content n).feeds r' [] false := by
  induction words with
  | nil =>
    intro left r _ enough feeds
    obtain ⟨left, rfl⟩ : ∃ k, left = k + 1 := ⟨left - 1, by omega⟩
    obtain ⟨r₁, run₁, feeds₁⟩ := next_item_calm feeds
    have parsed : Grammar.trailer n (DELTA_TRAILER_TAG :: trailer) = some (trailer, []) :=
      (trailer_run n _ trailer []).mpr ⟨rfl, size, rfl⟩
    obtain ⟨r₂, run₂, feeds₂⟩ := read_trailer_sim.accepts feeds₁ parsed
    refine ⟨r₂, ?_, feeds₂⟩
    rw [readAll, bind_ok run₁]
    simp only [itemOf, List.nil_append, List.head?_cons, if_true]
    rw [bind_ok run₂]
    rfl
  | @cons first rest w v word words ih =>
    intro left r short enough feeds
    obtain ⟨left, rfl⟩ : ∃ k, left = k + 1 := ⟨left - 1, by omega⟩
    obtain ⟨r₁, run₁, feeds₁⟩ := next_item_calm feeds
    obtain ⟨b, w', rfl, notTag, _⟩ := record_first word
    have follow : MayFollow first (v ++ DELTA_TRAILER_TAG :: trailer) := by
      intro _
      cases words with
      | nil => exact trailer_ends trailer
      | cons word' _ =>
        obtain ⟨b', v', rfl, _, notOp⟩ := record_first word'
        simp [OpcodeNext, notOp]
    rw [List.append_assoc] at short feeds₁
    obtain ⟨r₂, run₂, feeds₂⟩ := readRecord_spec word follow short feeds₁
    obtain ⟨r₃, run₃, feeds₃⟩ := ih left (by rw [List.length_append] at short; omega)
      (by simp at enough; omega) feeds₂
    refine ⟨r₃, ?_, feeds₃⟩
    rw [readAll, bind_ok run₁]
    simp only [itemOf, List.cons_append, List.head?_cons, if_neg notTag]
    rw [bind_ok run₂, bind_ok run₃]
    rfl

theorem records_length {records : List Record} {u : List UInt8} (words : Many IsRecord records u) :
    records.length ≤ u.length := by
  induction words with
  | nil => exact Nat.le_refl 0
  | cons word _ ih =>
    obtain ⟨b, w, rfl, _⟩ := record_first word
    simp only [List.length_cons, List.cons_append, List.length_append]
    omega

theorem readDelta_spec {records : List Record} {trailer : List UInt8} (delta : IsDelta n records trailer content)
    {r : DeltaReader} (feeds : (source content n).feeds r content false) :
    ∃ r', readDelta (content.length + 1) r = .ok (records, some trailer, .End) r' := by
  obtain ⟨body, split, u, rfl, words, size⟩ := delta
  have header := (header_run content _).mpr split
  obtain ⟨r₁, run₁, feeds₁⟩ := read_header_sim.accepts feeds header
  have le : (u ++ DELTA_TRAILER_TAG :: trailer).length ≤ content.length := by
    rw [split]
    simp only [List.length_append]
    omega
  have few := records_length words
  obtain ⟨r₂, run₂, feeds₂⟩ := readAll_spec (content.length + 1) size words (content.length + 1)
    (by omega) (by rw [List.length_append] at le; omega) feeds₁
  obtain ⟨r₃, run₃, _⟩ := next_item_calm feeds₂
  refine ⟨r₃, ?_⟩
  rw [readDelta, bind_ok run₁, bind_ok run₂]
  simp only
  rw [bind_ok run₃]
  rfl

/-- A handle on a new file that is written to. -/
def outHandle : FileIo := { f_ := { opened := true } }

theorem outHandle_appends : Appends [] outHandle := ⟨rfl, rfl, rfl, rfl, rfl, rfl, rfl, rfl⟩

/-- Writing a delta succeeds, and reading back the file that was written
    returns its records and its trailer, and then the end. -/
theorem codec_round_trip (records : List Written) (valid : ∀ r ∈ records, r.Valid) (trailer : List UInt8)
    (fits : trailer.length ≤ STREAMOFF_MAX) :
    ∃ w, writeDelta records trailer { out_ := outHandle } = .ok () w ∧
      ∃ r, readDelta (w.out_.f_.data.length + 1)
          { in_ := FileIo.opened w.out_.f_.data none true, trailer_digest_size_ := trailer.length } =
        .ok (records.map Written.record, some trailer, .End) r := by
  obtain ⟨bytes, w, run, writes, delta⟩ := writeDelta_spec valid fits (w := { out_ := outHandle })
    ⟨outHandle_appends, rfl⟩
  refine ⟨w, run, ?_⟩
  rw [writes.out.data]
  exact readDelta_spec delta ⟨Calm.opened_feeds true, rfl⟩

/-- `codec_round_trip` for one record of each kind. -/
theorem codec_round_trip_three :
    ∃ w, writeDelta [.original 7 (List.replicate 16 1), .added (List.replicate 16 2) [0xFF, 3],
        .modified 0 4 (List.replicate 16 5) [{ op := OP_DELETE, pos := 1, delete_length := 2 }]]
        (List.replicate 64 9) { out_ := outHandle } = .ok () w ∧
      ∃ r, readDelta (w.out_.f_.data.length + 1)
          { in_ := FileIo.opened w.out_.f_.data none true, trailer_digest_size_ := (List.replicate 64 (9 : UInt8)).length } =
        .ok ([.original 7 (List.replicate 16 1), .added (List.replicate 16 2) [0xFF, 3],
          .modified 0 4 (List.replicate 16 5) [{ op := OP_DELETE, pos := 1, delete_length := 2 }]].map Written.record,
          some (List.replicate 64 9), .End) r := by
  refine codec_round_trip _ ?_ _ (by decide)
  intro r member
  simp only [List.mem_cons, List.not_mem_nil, or_false] at member
  rcases member with rfl | rfl | rfl
  · exact .original rfl
  · exact .added rfl (by decide)
  · refine .modified rfl (by decide) (by simp) ?_ (by decide)
    intro o member
    obtain rfl := List.mem_singleton.mp member
    exact .delete

end Roll.Roundtrip
