import Roll.Outcome
import Roll.Viewing
import Roll.ViewerOutput

/-!
What the viewer prints.

On a delta it prints the rendering of the records; and whatever the bytes of
the file are, only printable characters reach the terminal.
-/
namespace Roll.Rendering
open Roll.Parsing Roll.Outcome Roll.Reading Roll.Grammar Roll.Viewing Roll.DeltaViewer Roll.DeltaReader

/-! ### Plain texts -/

/-- A printable ASCII character. -/
def lineChar (c : Char) : Bool := ' ' ≤ c && c ≤ '~'

def plainChar (c : Char) : Bool := c = '\n' || lineChar c

/-- A text of such characters. -/
def Consists (p : Char → Bool) (text : String) : Prop := text.toList.all p = true

/-- Lines of printable ASCII characters. -/
abbrev Plain (text : String) : Prop := Consists plainChar text

/-- One line of them, without its end. -/
abbrev Line (text : String) : Prop := Consists lineChar text

theorem plain_ofList {p : Char → Bool} {cs : List Char} (plain : cs.all p = true) : Consists p (String.ofList cs) := by
  rwa [Consists, String.toList_ofList]

theorem plain_empty : Plain "" := plain_ofList rfl

theorem plain_append {p : Char → Bool} {s t : String} : Consists p (s ++ t) ↔ Consists p s ∧ Consists p t := by
  simp only [Consists, String.toList_append, List.all_append, Bool.and_eq_true]

theorem plain_ite {condition : Prop} [Decidable condition] {s t : String} (yes : Plain s) (no : Plain t) :
    Plain (if condition then s else t) := by
  split
  · exact yes
  · exact no

theorem plain_join {texts : List String} (all : ∀ s ∈ texts, Plain s) : Plain (String.join texts) := by
  induction texts with
  | nil => exact plain_empty
  | cons s rest ih =>
    rw [String.join_cons]
    exact plain_append.mpr ⟨all s (by simp), ih fun t member => all t (by simp [member])⟩

theorem plain_intercalate {separator : String} (between : Plain separator) : ∀ {texts : List String},
    (∀ s ∈ texts, Plain s) → Plain (String.intercalate separator texts)
  | [], _ => plain_empty
  | [s], all => by simpa using all s (by simp)
  | s :: t :: rest, all => by
    rw [String.intercalate_cons_cons]
    refine plain_append.mpr ⟨plain_append.mpr ⟨all s (by simp), between⟩, ?_⟩
    exact plain_intercalate between fun u member => all u (by simp [member])

theorem line_number (n : Nat) : Line (toString n) := by
  refine plain_ofList (List.all_eq_true.mpr fun c member => ?_)
  have digit := Nat.isDigit_of_mem_toDigits (by decide) (by decide) member
  simp only [Char.isDigit, Bool.and_eq_true, decide_eq_true_eq] at digit
  have printable : ' ' ≤ c ∧ c ≤ '~' := ⟨Nat.le_trans (by decide) digit.1, Nat.le_trans digit.2 (by decide)⟩
  simp [lineChar, printable]

theorem plain_number (n : Nat) : Plain (toString n) := by
  refine List.all_eq_true.mpr fun c member => ?_
  have printable : lineChar c = true := List.all_eq_true.mp (line_number n) c member
  simp [plainChar, printable]

theorem plain_hexDigits (byte : UInt8) : Plain (hexDigits byte) := by
  have nibble : ∀ i : Fin 16, plainChar (Nat.digitChar i) = true := by decide
  have bound := byte.toNat_lt
  refine plain_ofList (List.all_eq_true.mpr fun c member => ?_)
  rcases List.mem_pair.mp member with rfl | rfl
  · exact nibble ⟨byte.toNat / 16, by omega⟩
  · exact nibble ⟨byte.toNat % 16, by omega⟩

theorem plain_printableByte (byte : UInt8) : Plain (printableByte byte) := by
  have printable : ∀ i : Fin 256, isprint (UInt8.ofNat i) = true → plainChar (Char.ofNat i) = true := by decide +kernel
  refine plain_ite (plain_ofList rfl) (plain_ite (plain_ofList rfl) (plain_ite (plain_ofList rfl) ?_))
  by_cases shown : isprint byte = true
  · rw [if_pos shown]
    have plain := printable ⟨byte.toNat, byte.toNat_lt⟩ (by rwa [UInt8.ofNat_toNat])
    simpa [Consists] using plain
  · rw [if_neg shown]
    exact plain_ofList rfl

theorem plain_bytePreview (data : List UInt8) (limit : Nat) : Plain (bytePreview data limit) := by
  refine plain_append.mpr ⟨plain_join ?_, plain_ite (plain_ofList rfl) plain_empty⟩
  intro s member
  obtain ⟨byte, _, rfl⟩ := List.mem_map.mp member
  exact plain_printableByte byte

theorem plain_hex (data : List UInt8) : Plain (hex data) := by
  refine plain_join fun s member => ?_
  obtain ⟨byte, _, rfl⟩ := List.mem_map.mp member
  exact plain_hexDigits byte

theorem plain_inlineBytes (data : List UInt8) : Plain (inlineBytes data) := by
  have bytes : Plain (String.intercalate " " ((data.take maxBytes).map hexByte)) := by
    refine plain_intercalate (plain_ofList rfl) fun s member => ?_
    obtain ⟨byte, _, rfl⟩ := List.mem_map.mp member
    exact plain_append.mpr ⟨plain_ofList rfl, plain_hexDigits byte⟩
  have bracket : Plain (" [" ++ String.intercalate " " ((data.take maxBytes).map hexByte) ++
      (if data.length > maxBytes then " ..." else "") ++ "]") := by
    simp only [plain_append, bytes, plain_ite (plain_ofList rfl : Plain " ...") plain_empty, and_true]
    exact ⟨plain_ofList rfl, plain_ofList rfl⟩
  unfold inlineBytes
  simp only [plain_append, plain_bytePreview, plain_ite plain_empty bracket, and_true]
  exact ⟨plain_ofList rfl, plain_ofList rfl⟩

theorem plain_opcodeLine (opcode : DiffOpcode) : Plain (opcodeLine opcode) := by
  have kind : Plain (if opcode.op = OP_REPLACE then "Replace" else "Insert") :=
    plain_ite (plain_ofList rfl) (plain_ofList rfl)
  refine plain_ite ?_ ?_
  · simp only [plain_append, plain_number, and_true]
    and_intros <;> exact plain_ofList rfl
  · simp only [plain_append, plain_number, plain_inlineBytes, kind, and_true]
    and_intros <;> exact plain_ofList rfl

theorem plain_moreOpcodes (opCount : Nat) : Plain (moreOpcodes opCount) := by
  refine plain_ite ?_ plain_empty
  simp only [plain_append, plain_number, and_true]
  exact ⟨plain_ofList rfl, plain_ofList rfl⟩

theorem plain_entryLines (chunkNum : Nat) (header : DeltaEntryHeader) : Plain (entryLines chunkNum header) := by
  have type : Plain (entryTypeToString header.type) := by cases header.type <;> exact plain_ofList rfl
  have source : Plain ("  Source: old chunk #" ++ toString header.old_index.toNat ++ "\n") := by
    simp only [plain_append, plain_number, and_true]
    and_intros <;> exact plain_ofList rfl
  have size : Plain ("  Output Size: " ++ toString header.out_size.toNat ++ " bytes\n") := by
    simp only [plain_append, plain_number, and_true]
    and_intros <;> exact plain_ofList rfl
  unfold entryLines
  simp only [plain_append, plain_number, type, plain_hex, plain_ite source plain_empty,
    plain_ite size plain_empty, and_true]
  and_intros <;> exact plain_ofList rfl

theorem plain_addedLine (rawData : List UInt8) : Plain (addedLine rawData) := by
  unfold addedLine
  simp only [plain_append, plain_bytePreview, and_true]
  exact ⟨plain_ofList rfl, plain_ofList rfl⟩

theorem plain_diffLines (diffSize opCount : Nat) : Plain (diffLines diffSize opCount) := by
  unfold diffLines
  simp only [plain_append, plain_number, and_true]
  and_intros <;> exact plain_ofList rfl

theorem plain_trailerLine (trailer : List UInt8) : Plain (trailerLine trailer) := by
  unfold trailerLine
  simp only [plain_append, plain_hex, and_true]
  exact ⟨plain_ofList rfl, plain_ofList rfl⟩

theorem plain_footing (chunkNum : Nat) : Plain (footing chunkNum) := by
  unfold footing
  simp only [plain_append, plain_number, and_true]
  exact ⟨⟨plain_ofList rfl, plain_ofList rfl⟩, plain_ofList rfl⟩

theorem plain_versionLine : Plain versionLine := by
  unfold versionLine
  simp only [plain_append, plain_number, and_true]
  exact ⟨plain_ofList rfl, plain_ofList rfl⟩

theorem line_in_chunk (chunkNum : Nat) {message : String} (line : Line message) : Line (in_chunk chunkNum message) := by
  unfold in_chunk
  simp only [plain_append, line, line_number, true_and, and_true]
  exact plain_ofList rfl

/-! ### Messages -/

/-- Every failure has a message of one line. -/
def Speaks {α : Type} (m : ReadM α) : Prop := ∀ r, Reports m r (fun _ _ => True) Line

section
variable {α γ : Type} {m : ReadM α} {f : α → ReadM γ}

theorem speaks_pure (a : α) : Speaks (pure a : ReadM α) := fun _ => reports_pure trivial

theorem speaks_throw {message : String} (line : Line message) : Speaks (throw message : ReadM α) := fun _ =>
  reports_throw line

theorem speaks_bind (first : Speaks m) (second : ∀ a, Speaks (f a)) : Speaks (m >>= f) := fun r =>
  reports_bind (first r) (fun _ line => line) fun a r' _ => second a r'

/-- A method that does not fail. -/
theorem speaks_silent (runs : ∀ r, ∃ a r', m r = .ok a r') : Speaks m := by
  intro r
  obtain ⟨a, r', run⟩ := runs r
  exact reports_ok run trivial

theorem speaks_fail_if {condition : Bool} {message : String} (line : Line message) : Speaks (fail_if condition message) := by
  cases condition with
  | true => exact speaks_throw line
  | false => exact speaks_pure ()

theorem speaks_fail_if_error {message : String} (line : Line message) : Speaks (fail_if_error message) := by
  intro r
  unfold fail_if_error
  by_cases failed : r.io_error = true
  · exact reports_error (if_pos failed) line
  · exact reports_ok (if_neg failed) trivial

end

theorem speaks_read_byte : Speaks read_byte := speaks_silent fun _ => ⟨_, _, rfl⟩
theorem speaks_peek_byte : Speaks peek_byte := speaks_silent fun _ => ⟨_, _, rfl⟩
theorem speaks_record (item : Decoded) : Speaks (DeltaReader.record item) := speaks_silent fun _ => ⟨_, _, rfl⟩

theorem speaks_read_exact (count : Nat) {message : String} (line : Line message) : Speaks (read_exact count message) :=
  speaks_bind (speaks_silent fun _ => ⟨_, _, rfl⟩) fun _ => speaks_bind (speaks_fail_if line) fun _ => speaks_pure _

theorem speaks_read_varint {what : String} (line : Line what) : Speaks (read_varint what) := by
  have malformed : Line ("Malformed varint for " ++ what) := plain_append.mpr ⟨plain_ofList rfl, line⟩
  have missing : Line ("Truncated delta: missing " ++ what) := plain_append.mpr ⟨plain_ofList rfl, line⟩
  have groups : ∀ left value, Speaks (read_groups what left value) := by
    intro left
    induction left with
    | zero => exact fun _ => speaks_throw malformed
    | succ left ih =>
      intro value
      refine speaks_bind speaks_read_byte (fun byte => ?_)
      cases byte with
      | none => exact speaks_throw missing
      | some byte =>
        dsimp only
        split
        · exact speaks_throw malformed
        · split
          · exact speaks_pure _
          · exact ih _
  exact groups VARINT_MAX_BYTES 0

theorem speaks_read_header : Speaks read_header := by
  refine speaks_bind (speaks_silent fun _ => ⟨_, _, rfl⟩) (fun buf => ?_)
  refine speaks_bind (speaks_fail_if (plain_ofList rfl)) (fun _ => speaks_bind (speaks_fail_if (plain_ofList rfl)) fun _ => ?_)
  refine speaks_bind (speaks_fail_if (plain_append.mpr ⟨plain_ofList rfl, line_number _⟩)) (fun _ => ?_)
  exact speaks_record _

theorem speaks_next_item : Speaks next_item := by
  refine speaks_bind speaks_peek_byte (fun byte => ?_)
  cases byte with
  | none => exact speaks_pure _
  | some byte =>
    dsimp only
    split
    · exact speaks_pure _
    · exact speaks_pure _

theorem speaks_read_size : Speaks read_size :=
  speaks_bind (speaks_read_varint (plain_ofList rfl)) fun _ =>
    speaks_bind (speaks_fail_if (plain_append.mpr ⟨plain_ofList rfl, line_number _⟩)) fun _ => speaks_pure _

theorem speaks_read_entry_header : Speaks read_entry_header := by
  refine speaks_bind speaks_read_byte (fun byte => ?_)
  cases byte with
  | none => exact speaks_throw (plain_ofList rfl)
  | some tag =>
    refine speaks_bind (speaks_fail_if (plain_append.mpr ⟨plain_ofList rfl, line_number _⟩)) (fun _ => ?_)
    refine speaks_bind ?_ (fun _ => speaks_bind (speaks_record _) fun _ => speaks_pure _)
    unfold read_fields
    cases EntryType.ofByte tag with
    | ORIGINAL_CHUNK =>
      exact speaks_bind (speaks_read_varint (plain_ofList rfl)) fun _ => speaks_bind (speaks_pure _) fun _ =>
        speaks_bind (speaks_read_exact _ (plain_ofList rfl)) fun _ => speaks_pure _
    | ADDED_CHUNK =>
      exact speaks_bind (speaks_pure _) fun _ => speaks_bind speaks_read_size fun _ =>
        speaks_bind (speaks_read_exact _ (plain_ofList rfl)) fun _ => speaks_pure _
    | MODIFIED_CHUNK =>
      exact speaks_bind (speaks_read_varint (plain_ofList rfl)) fun _ => speaks_bind speaks_read_size fun _ =>
        speaks_bind (speaks_read_exact _ (plain_ofList rfl)) fun _ => speaks_pure _

theorem speaks_read_diff_opcode : Speaks read_diff_opcode := by
  refine speaks_bind speaks_read_byte (fun byte => ?_)
  cases byte with
  | none => exact speaks_throw (plain_ofList rfl)
  | some tag =>
    refine speaks_bind (speaks_fail_if (plain_ofList rfl)) (fun _ => ?_)
    refine speaks_bind ?_ (fun _ => speaks_bind (speaks_record _) fun _ => speaks_pure _)
    refine speaks_bind (speaks_read_exact _ (plain_ofList rfl)) (fun pos => ?_)
    split
    · exact speaks_bind (speaks_read_exact _ (plain_ofList rfl)) fun _ => speaks_pure _
    · refine speaks_bind speaks_read_byte (fun count => ?_)
      cases count with
      | none => exact speaks_throw (plain_ofList rfl)
      | some count => exact speaks_bind (speaks_read_exact _ (plain_ofList rfl)) fun _ => speaks_pure _

theorem speaks_read_trailer : Speaks read_trailer :=
  speaks_bind speaks_read_byte fun _ => speaks_bind (speaks_fail_if (plain_ofList rfl)) fun _ =>
    speaks_bind (speaks_silent fun _ => ⟨_, _, rfl⟩) fun _ => speaks_bind (speaks_read_exact _ (plain_ofList rfl)) fun _ =>
      speaks_bind speaks_peek_byte fun _ => speaks_bind (speaks_fail_if (plain_ofList rfl)) fun _ =>
        speaks_bind (speaks_fail_if_error (plain_ofList rfl)) fun _ => speaks_bind (speaks_record _) fun _ => speaks_pure _

theorem speaks_finish (saw_trailer : Bool) : Speaks (finish saw_trailer) :=
  speaks_bind (speaks_fail_if_error (plain_ofList rfl)) fun _ => speaks_fail_if (plain_ofList rfl)

/-! ### The viewer that prints and the one that does not -/

/-- `m` reads what `v` reads, prints plain texts only and reports one line. -/
def Echoes {α : Type} (m : PrintM α) (v : ReadM α) : Prop := ∀ r c,
  match v r with
  | .ok a r' => ∃ text, Plain text ∧ m (r, c) = .ok a (r', { c with cout := c.cout ++ text })
  | .error _ r' => ∃ message text, Line message ∧ Plain text ∧
      m (r, c) = .error message (r', { c with cout := c.cout ++ text })

section
variable {α γ : Type} {m : PrintM α} {v : ReadM α} {f : α → PrintM γ} {g : α → ReadM γ}

theorem echoes_pure (a : α) : Echoes (pure a) (pure a) := fun r c => ⟨"", plain_empty, by rw [String.append_empty]; rfl⟩

theorem echoes_throw : Echoes (throw "" : PrintM α) (throw "") := fun r c =>
  ⟨"", "", plain_ofList rfl, plain_empty, by rw [String.append_empty]; rfl⟩

theorem echoes_reading {message : String → String} (speaks : Speaks v) (line : ∀ e, Line e → Line (message e)) :
    Echoes (reading v message) v := by
  intro r c
  have report := speaks r
  cases run : v r with
  | ok a r' => exact ⟨"", plain_empty, by simp [reading, run]⟩
  | error e r' => exact ⟨message e, "", line e (report.of_error run), plain_empty, by simp [reading, run]⟩

theorem echoes_bind (first : Echoes m v) (second : ∀ a, Echoes (f a) (g a)) : Echoes (m >>= f) (v >>= g) := by
  intro r c
  have outcome := first r c
  cases run : v r with
  | error e r' =>
    rw [run] at outcome
    obtain ⟨message, text, said, plain, printed⟩ := outcome
    rw [bind_error run]
    exact ⟨message, text, said, plain, bind_error printed⟩
  | ok a r' =>
    rw [run] at outcome
    obtain ⟨text, plain, printed⟩ := outcome
    have outcome' := second a r' { c with cout := c.cout ++ text }
    rw [bind_ok run]
    cases run' : g a r' with
    | error e r'' =>
      rw [run'] at outcome'
      obtain ⟨message, text', said, plain', printed'⟩ := outcome'
      exact ⟨message, text ++ text', said, plain_append.mpr ⟨plain, plain'⟩, by
        rw [bind_ok printed, printed', String.append_assoc]⟩
    | ok b r'' =>
      rw [run'] at outcome'
      obtain ⟨text', plain', printed'⟩ := outcome'
      exact ⟨text ++ text', plain_append.mpr ⟨plain, plain'⟩, by rw [bind_ok printed, printed', String.append_assoc]⟩

/-- Printing is nothing to the reader. -/
theorem echoes_print {text : String} {k : Unit → PrintM α} (plain : Plain text) (rest : Echoes (k ()) v) :
    Echoes (print text >>= k) v := by
  have printed : Echoes (print text) (pure ()) := fun r c => ⟨text, plain, rfl⟩
  have both := echoes_bind printed fun _ => rest
  rwa [pure_bind] at both

end

theorem echoes_parseDiffData (chunkNum : Nat) : ∀ fuel diffSize opCount,
    Echoes (printDiffData chunkNum fuel diffSize opCount) (parseDiffData fuel diffSize opCount) := by
  intro fuel
  induction fuel with
  | zero => exact fun _ _ => echoes_throw
  | succ fuel ih =>
    intro diffSize opCount
    unfold printDiffData parseDiffData
    have speaks_at : Speaks at_diff_opcode := speaks_bind speaks_peek_byte fun _ => speaks_pure _
    refine echoes_bind (echoes_reading speaks_at fun _ line => line) (fun more => ?_)
    cases more with
    | true =>
      refine echoes_bind (echoes_reading speaks_read_diff_opcode fun _ => line_in_chunk chunkNum) (fun opcode => ?_)
      by_cases few : opCount < maxPrintedOps
      · simp only [if_pos few]
        exact echoes_print (plain_opcodeLine opcode) (ih _ _)
      · simp only [if_neg few]
        exact ih _ _
    | false =>
      refine echoes_print (plain_moreOpcodes opCount) ?_
      exact echoes_bind (echoes_reading (speaks_fail_if (plain_ofList rfl)) fun _ => line_in_chunk chunkNum) fun _ =>
        echoes_pure _

theorem echoes_view_chunk (fuel chunkNum : Nat) (header : DeltaEntryHeader) :
    Echoes (print_chunk fuel chunkNum header) (view_chunk fuel header) := by
  have blank : Echoes (print "\n") (pure ()) := fun r c => ⟨"\n", plain_ofList rfl, rfl⟩
  unfold print_chunk view_chunk
  refine echoes_print (plain_entryLines chunkNum header) ?_
  cases header.type with
  | ORIGINAL_CHUNK => exact blank
  | ADDED_CHUNK =>
    have short : Line ("Truncated ADDED payload in chunk #" ++ toString chunkNum) :=
      plain_append.mpr ⟨plain_ofList rfl, line_number _⟩
    have speaks : Speaks (read_payload header.out_size.toNat) :=
      speaks_bind (speaks_read_exact _ (plain_ofList rfl)) fun _ => speaks_bind (speaks_record _) fun _ => speaks_pure _
    refine echoes_bind (echoes_reading speaks fun _ _ => short) (fun rawData => ?_)
    exact echoes_print (plain_addedLine rawData) blank
  | MODIFIED_CHUNK =>
    refine echoes_print (plain_ofList rfl) (echoes_bind (echoes_parseDiffData chunkNum fuel 0 0) fun sizes => ?_)
    exact echoes_print (plain_diffLines sizes.1 sizes.2) blank

theorem echoes_view_items (fuel : Nat) : ∀ left chunkNum,
    Echoes (print_items fuel left chunkNum) (view_items fuel left chunkNum) := by
  intro left
  induction left with
  | zero => exact fun _ => echoes_throw
  | succ left ih =>
    intro chunkNum
    unfold print_items view_items
    refine echoes_bind (echoes_reading speaks_next_item fun _ line => line) (fun item => ?_)
    cases item with
    | End => exact echoes_pure _
    | Trailer =>
      refine echoes_bind (echoes_reading speaks_read_trailer fun _ line => line) (fun trailer => ?_)
      exact echoes_print (plain_trailerLine trailer) (echoes_pure _)
    | Entry =>
      refine echoes_bind (echoes_reading speaks_read_entry_header fun _ => line_in_chunk _) (fun header => ?_)
      exact echoes_bind (echoes_view_chunk fuel (chunkNum + 1) header) fun _ => ih (chunkNum + 1)

theorem echoes_view_stream (fuel : Nat) : Echoes (print_stream fuel) (view_stream fuel) := by
  unfold print_stream view_stream
  refine echoes_bind (echoes_reading speaks_read_header fun _ line => line) (fun _ => ?_)
  refine echoes_print plain_versionLine (echoes_bind (echoes_view_items fuel fuel 0) fun seen => ?_)
  refine echoes_bind (echoes_reading (speaks_finish seen.2) fun _ line => line) (fun _ => ?_)
  exact echoes_print (plain_footing seen.1) (echoes_pure _)

/-- What the viewer may have printed on a file: what is not plain is the name
    that it was given, and an error is one line. -/
def PrintsPlainly (delta_file : Path) (status : Nat) (console : Console) : Prop :=
  console = { cerr := "Error: Cannot open file " ++ quoted delta_file.string ++ "\n" } ∧ status = 2 ∨
    ∃ text, Plain text ∧ console.cout = heading delta_file ++ text ∧
      (console.cerr = "" ∧ status = 0 ∨
        ∃ message, Line message ∧ console.cerr = "Error: " ++ message ++ "\n" ∧ (status = 1 ∨ status = 2))

/-- Whatever is in a file and however reading it goes, printing does not change
    the verdict, and no byte of the file reaches the terminal but as printable
    characters. -/
theorem viewer_prints_plainly (env : Environment) (delta_file : Path) (s : System) :
    (print_delta env delta_file s).1 = view_delta env delta_file s ∧
      PrintsPlainly delta_file (print_delta env delta_file s).1 (print_delta env delta_file s).2.1 := by
  unfold print_delta view_delta
  rcases FileIo.open_in env delta_file s with ⟨opened, file, s'⟩
  cases opened with
  | false => exact ⟨rfl, .inl ⟨rfl, rfl⟩⟩
  | true =>
    have outcome := echoes_view_stream (file.f_.reach + 1) (reader file) { cout := heading delta_file }
    dsimp only
    cases run : view_stream (file.f_.reach + 1) (reader file) with
    | ok count r =>
      rw [run] at outcome
      obtain ⟨text, plain, printed⟩ := outcome
      rw [printed]
      exact ⟨rfl, .inr ⟨text, plain, rfl, .inl ⟨rfl, rfl⟩⟩⟩
    | error e r =>
      rw [run] at outcome
      obtain ⟨message, text, said, plain, printed⟩ := outcome
      rw [printed]
      refine ⟨rfl, .inr ⟨text, plain, rfl, .inr ⟨message, said, ?_, ?_⟩⟩⟩
      · show "" ++ "Error: " ++ message ++ "\n" = _
        rw [String.empty_append]
      · show (if r.io_error then 2 else 1) = 1 ∨ (if r.io_error then 2 else 1) = 2
        split
        · exact .inr rfl
        · exact .inl rfl

/-! ### The rendering of a delta -/

/-- Everything that is printed of a run of opcodes from its opcode `opCount` on. -/
def runText (opCount : Nat) (opcodes : List DiffOpcode) : String :=
  String.join ((opcodes.take (maxPrintedOps - opCount)).map opcodeLine) ++ moreOpcodes (opCount + opcodes.length)

def bodyText (record : Record) : String :=
  match record.header.type with
  | .ORIGINAL_CHUNK => ""
  | .ADDED_CHUNK => addedLine record.payload
  | .MODIFIED_CHUNK =>
    "  Diff Operations:\n" ++ runText 0 record.opcodes ++ diffLines (runSize record.opcodes) record.opcodes.length

def recordText (chunkNum : Nat) (record : Record) : String :=
  entryLines chunkNum record.header ++ bodyText record ++ "\n"

/-- The records after the first `chunkNum`. -/
def recordTexts : Nat → List Record → String
  | _, [] => ""
  | chunkNum, first :: records => recordText (chunkNum + 1) first ++ recordTexts (chunkNum + 1) records

def rendering (delta_file : Path) (records : List Record) (trailer : List UInt8) : String :=
  heading delta_file ++ versionLine ++ recordTexts 0 records ++ trailerLine trailer ++ footing records.length

/-- From `rest` to `rest'`, and without a fault, `m` returns `a` and prints `text`. -/
def Prints {α : Type} (content : List UInt8) (n : Nat) (m : PrintM α) (rest : List UInt8) (a : α) (text : String)
    (rest' : List UInt8) : Prop :=
  ∀ r c, (source content n).feeds r rest false →
    ∃ r', m (r, c) = .ok a (r', { c with cout := c.cout ++ text }) ∧ (source content n).feeds r' rest' false

section
variable {α γ : Type} {content rest rest' rest'' : List UInt8} {n : Nat} {m : PrintM α} {f : α → PrintM γ} {a : α} {b : γ}
  {text text' : String}

theorem prints_pure (a : α) : Prints content n (pure a) rest a "" rest := fun r c feeds =>
  ⟨r, by rw [String.append_empty]; rfl, feeds⟩

theorem prints_print (text : String) : Prints content n (print text) rest () text rest := fun r _ feeds => ⟨r, rfl, feeds⟩

theorem prints_bind (first : Prints content n m rest a text rest') (second : Prints content n (f a) rest' b text' rest'') :
    Prints content n (m >>= f) rest b (text ++ text') rest'' := by
  intro r c feeds
  obtain ⟨r', run, feeds'⟩ := first r c feeds
  obtain ⟨r'', run', feeds''⟩ := second r' { c with cout := c.cout ++ text } feeds'
  exact ⟨r'', by rw [bind_ok run, run', String.append_assoc], feeds''⟩

/-- A method of the reader, where its parser accepts. -/
theorem prints_reading {v : ReadM α} {p : Parser UInt8 α} {message : String → String}
    (sim : Simulates (source content n) v p) (accepts : p rest = some (a, rest')) :
    Prints content n (reading v message) rest a "" rest' := by
  intro r c feeds
  obtain ⟨r', run, feeds'⟩ := sim.accepts feeds accepts
  exact ⟨r', by simp [reading, run], feeds'⟩

/-- Reading and going on. -/
theorem prints_read {v : ReadM α} {p : Parser UInt8 α} {message : String → String}
    (sim : Simulates (source content n) v p) (accepts : p rest = some (a, rest'))
    (second : Prints content n (f a) rest' b text rest'') :
    Prints content n (reading v message >>= f) rest b text rest'' := by
  have both : Prints content n (reading v message >>= f) rest b ("" ++ text) rest'' :=
    prints_bind (prints_reading sim accepts) second
  rwa [String.empty_append] at both

end

section
variable {content s t : List UInt8} {n N : Nat}

theorem runText_cons {opCount : Nat} {opcode : DiffOpcode} {opcodes : List DiffOpcode} :
    runText opCount (opcode :: opcodes) =
      (if opCount < maxPrintedOps then opcodeLine opcode else "") ++ runText (opCount + 1) opcodes := by
  have counted : opCount + (opcode :: opcodes).length = opCount + 1 + opcodes.length := by
    rw [List.length_cons]
    omega
  unfold runText
  rw [counted]
  by_cases few : opCount < maxPrintedOps
  · have left : maxPrintedOps - opCount = maxPrintedOps - (opCount + 1) + 1 := by omega
    rw [if_pos few, left, List.take_succ_cons, List.map_cons, String.join_cons, String.append_assoc]
  · have none : maxPrintedOps - opCount = 0 := by omega
    have none' : maxPrintedOps - (opCount + 1) = 0 := by omega
    rw [if_neg few, none, none', List.take_zero, List.take_zero, String.empty_append]

theorem parseDiffData_prints (chunkNum : Nat) : ∀ (fuel diffSize opCount : Nat) (s : List UInt8) (opcodes : List DiffOpcode),
    run fuel s = some (opcodes, t) → opCount + opcodes.length ≠ 0 →
      Prints content n (printDiffData chunkNum fuel diffSize opCount) s (diffSize + runSize opcodes, opCount + opcodes.length)
        (runText opCount opcodes) t := by
  intro fuel
  induction fuel with
  | zero =>
    intro _ _ _ _ parsed
    cases parsed
  | succ fuel ih =>
    intro diffSize opCount s opcodes parsed some
    unfold printDiffData
    refine prints_read at_diff_opcode_sim (rfl : _ = Option.some (is_diff_opcode s.head?, s)) ?_
    by_cases more : OpcodeNext s
    · obtain ⟨opcode, m, rest, first, after, rfl⟩ := (run_opcode more).mp parsed
      have opens : is_diff_opcode s.head? = true := more
      rw [if_pos opens]
      refine prints_read read_diff_opcode_sim first ?_
      have tail := ih (diffSize + opcode_size opcode) (opCount + 1) m rest after (by omega)
      have sizes : (diffSize + opcode_size opcode + runSize rest, opCount + 1 + rest.length) =
          (diffSize + runSize (opcode :: rest), opCount + (opcode :: rest).length) := by
        simp only [runSize, List.map_cons, List.sum_cons, List.length_cons]
        congr 1 <;> omega
      rw [sizes] at tail
      rw [runText_cons]
      by_cases few : opCount < maxPrintedOps
      · simp only [if_pos few]
        exact prints_bind (prints_print _) tail
      · simp only [if_neg few, String.empty_append]
        exact tail
    · rw [run_end more] at parsed
      obtain ⟨rfl, rfl⟩ : [] = opcodes ∧ s = t := by simpa using parsed
      have closes : ¬ is_diff_opcode s.head? = true := more
      rw [if_neg closes]
      have nothing : runText opCount [] = moreOpcodes opCount ++ "" := by
        simp [runText]
      rw [nothing]
      have accepted : refuse (opCount + ([] : List DiffOpcode).length == 0) s = Option.some ((), s) := by
        rw [refuse, if_neg (by simpa using some)]
      exact prints_bind (prints_print _) (prints_read (fail_if_sim _ _) accepted (prints_pure _))

theorem print_chunk_prints {chunkNum : Nat} {header : DeltaEntryHeader} {record : Record}
    (parsed : recordBody N header s = some (record, t)) :
    Prints content n (print_chunk N chunkNum header) s () (recordText chunkNum record) t := by
  unfold print_chunk
  cases type : header.type with
  | ORIGINAL_CHUNK =>
    obtain ⟨rfl, rfl⟩ := (body_original type).mp parsed
    have text : recordText chunkNum { header } = entryLines chunkNum header ++ "\n" := by
      simp [recordText, bodyText, type]
    rw [text]
    exact prints_bind (prints_print _) (prints_print _)
  | ADDED_CHUNK =>
    obtain ⟨payload, taken, rfl⟩ := (body_added type).mp parsed
    have text : recordText chunkNum { header, payload } = entryLines chunkNum header ++ (addedLine payload ++ "\n") := by
      simp [recordText, bodyText, type, String.append_assoc]
    rw [text]
    refine prints_bind (prints_print _) (prints_read (read_payload_sim _) taken ?_)
    exact prints_bind (prints_print _) (prints_print _)
  | MODIFIED_CHUNK =>
    obtain ⟨opcodes, read, some, rfl⟩ := (body_modified type).mp parsed
    have text : recordText chunkNum { header, opcodes } = entryLines chunkNum header ++ ("  Diff Operations:\n" ++
        (runText 0 opcodes ++ (diffLines (0 + runSize opcodes) (0 + opcodes.length) ++ "\n"))) := by
      simp [recordText, bodyText, type, String.append_assoc]
    rw [text]
    refine prints_bind (prints_print _) (prints_bind (prints_print _) ?_)
    refine prints_bind (parseDiffData_prints chunkNum N 0 0 s opcodes read (by simpa using some)) ?_
    exact prints_bind (prints_print _) (prints_print _)

theorem print_items_prints : ∀ (fuel chunkNum : Nat) (s : List UInt8) (records : List Record) (trailer : List UInt8),
    items N n fuel s = some ((records, some trailer), t) →
      Prints content n (print_items N fuel chunkNum) s (chunkNum + records.length, true)
        (recordTexts chunkNum records ++ trailerLine trailer) t := by
  intro fuel
  induction fuel with
  | zero =>
    intro _ _ _ _ parsed
    cases parsed
  | succ fuel ih =>
    intro chunkNum s records trailer parsed
    unfold print_items
    refine prints_read next_item_sim (rfl : _ = some (itemOf s.head?, s)) ?_
    cases first : s.head? with
    | none =>
      rw [items_run, first] at parsed
      simp at parsed
    | some byte =>
      by_cases tag : byte = DELTA_TRAILER_TAG
      · rw [tag] at first
        obtain ⟨digest, read, rfl, same⟩ := (items_trailer first).mp parsed
        obtain rfl : trailer = digest := by simpa using same
        simp only [itemOf, tag, if_true]
        refine prints_read read_trailer_sim read ?_
        have ends : recordTexts chunkNum [] ++ trailerLine trailer = trailerLine trailer ++ "" := by simp [recordTexts]
        rw [ends]
        exact prints_bind (prints_print _) (prints_pure _)
      · obtain ⟨record, m, rest, read, after, rfl⟩ := (items_record first tag).mp parsed
        obtain ⟨header, m', read_header, read_body⟩ := record_run.mp read
        simp only [itemOf, if_neg tag]
        refine prints_read read_entry_header_sim read_header ?_
        have tail := ih (chunkNum + 1) m rest trailer after
        have count : chunkNum + 1 + rest.length = chunkNum + (record :: rest).length := by
          rw [List.length_cons]
          omega
        rw [count] at tail
        rw [recordTexts, String.append_assoc]
        exact prints_bind (print_chunk_prints read_body) tail

theorem print_stream_prints {records : List Record} {trailer : List UInt8}
    (parsed : delta N n s = some ((records, trailer), t)) :
    Prints content n (print_stream N) s records.length
      (versionLine ++ (recordTexts 0 records ++ trailerLine trailer ++ footing records.length)) t := by
  rw [delta, bind_run] at parsed
  obtain ⟨⟨_, m⟩, read_header, tail⟩ := Option.bind_eq_some_iff.mp parsed
  rw [bind_run] at tail
  obtain ⟨⟨⟨records', digest⟩, m'⟩, read_items, ends⟩ := Option.bind_eq_some_iff.mp tail
  dsimp only at ends
  rw [refuse_run] at ends
  cases digest with
  | none => cases ends
  | some digest =>
    obtain ⟨⟨rfl, rfl⟩, rfl⟩ : (records' = records ∧ digest = trailer) ∧ m' = t := by simpa [pure_run] using ends
    unfold print_stream
    refine prints_read read_header_sim read_header (prints_bind (prints_print _) ?_)
    have loop : Prints content n (print_items N N 0) m (0 + records'.length, true) (recordTexts 0 records' ++ trailerLine digest) m' :=
      print_items_prints N 0 m records' digest read_items
    rw [Nat.zero_add] at loop
    refine prints_bind loop ?_
    have finished : Simulates (source content n) (finish true) (pure () >>= fun _ => refuse false) :=
      simulates_bind (fail_if_error_sim _) fun _ => fail_if_sim _ _
    have ending : footing records'.length = footing records'.length ++ "" := by simp
    rw [ending]
    exact prints_read finished rfl (prints_bind (prints_print _) (prints_pure _))

end

theorem print_delta_renders {env : Environment} {s : System} {delta_file : Path} {content : List UInt8}
    {records : List Record} {trailer : List UInt8} (quiet : env.Quiet) (holds : s.Holds env delta_file content)
    (calm : env.media delta_file = {}) (shape : IsDelta BLAKE2B_HASH_SIZE records trailer content) :
    print_delta env delta_file s =
      (0, { cout := rendering delta_file records trailer }, { s with clock := s.clock + 2 }) := by
  have parsed := (delta_run (Nat.lt_succ_self content.length) records trailer []).mpr ⟨shape, rfl⟩
  have feeds : (source content BLAKE2B_HASH_SIZE).feeds (reader (FileIo.opened content none true)) content false :=
    ⟨Calm.opened_feeds true, rfl⟩
  obtain ⟨r, run, _⟩ := print_stream_prints parsed _ { cout := heading delta_file } feeds
  have opened := Calm.open_in_quiet quiet holds (by rw [calm])
  rw [calm] at opened
  have reach : (FileIo.opened content none true).f_.reach + 1 = content.length + 1 := rfl
  have printed : heading delta_file ++ (versionLine ++ (recordTexts 0 records ++ trailerLine trailer ++
      footing records.length)) = rendering delta_file records trailer := by
    simp only [rendering, String.append_assoc]
  unfold print_delta
  rw [opened]
  dsimp only
  rw [reach, run, printed]
  rfl

/-- On a delta that can be read, the viewer prints the rendering of its records
    and nothing else, and touches no file. -/
theorem viewer_renders_deltas {env : Environment} {s : System} {delta_file : Path} {content : List UInt8}
    {records : List Record} {trailer : List UInt8} (quiet : env.Quiet) (holds : s.Holds env delta_file content)
    (calm : env.media delta_file = {}) (shape : IsDelta BLAKE2B_HASH_SIZE records trailer content) :
    print_delta env delta_file s =
      (0, { cout := rendering delta_file records trailer }, { s with clock := s.clock + 2 }) :=
  print_delta_renders quiet holds calm shape

/-- `viewer_renders_deltas` on a delta with a record of each kind. -/
theorem mixedDelta_is_rendered : print_delta {} ⟨"", "delta"⟩ { fs := .holding [((0, "delta"), mixedDelta)] } =
    (0, { cout := rendering ⟨"", "delta"⟩ mixedRecords mixedTrailer },
      { fs := .holding [((0, "delta"), mixedDelta)], clock := 2 }) :=
  viewer_renders_deltas (fun _ => rfl) ⟨0, rfl, rfl⟩ rfl mixedDelta_shape

end Roll.Rendering
