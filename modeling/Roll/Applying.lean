import Roll.Apply
import Roll.Chunker
import Roll.Committing
import Roll.Evaluation
import Roll.Outcome
import Roll.Reading
import Roll.Viewing

/-!
Without I/O errors the applier, which parses, evaluates, hashes and writes in
one pass, comes to what the parsed delta means.
-/
namespace Roll.Applying
open Roll.Parsing Roll.Outcome Roll.Reading Roll.Grammar Roll.Cursor Roll.Evaluation Roll.Chunking Roll.Chunker
open Roll.Committing

/-! ### Opcodes -/

/-- The diff state after opcodes that went through. -/
structure Patched (source : List UInt8) (n : Nat) (d : DiffState) : Prop where
  placed : d.new_pos = d.output.length
  room : d.output.length ≤ n
  used : d.old_pos ≤ source.length

theorem patched_start (source : List UInt8) (n : Nat) : Patched source n {} := ⟨rfl, Nat.zero_le n, Nat.zero_le _⟩

/-- The checks of an opcode are those of the evaluation. -/
theorem apply_opcode_spec {source : List UInt8} {n : Nat} {d : DiffState} (patched : Patched source n d) (o : DiffOpcode) :
    match Apply.apply_opcode source n d o with
    | .ok d' => step source n (d.old_pos, d.output) o = some (d'.old_pos, d'.output) ∧ Patched source n d'
    | .error _ => step source n (d.old_pos, d.output) o = none := by
  obtain ⟨placed, room, used⟩ := patched
  have copied : ∀ k ≤ source.length - d.old_pos, ((source.drop d.old_pos).take k).length = k := by
    intro k le
    rw [List.length_take, List.length_drop]
    omega
  unfold Apply.apply_opcode step
  dsimp only
  rw [placed, size_sub_eq used, size_sub_eq room]
  by_cases backwards : o.pos.toNat < d.output.length
  · rw [if_pos backwards]
    exact if_neg (by omega)
  · rw [if_neg backwards]
    by_cases outside : o.pos.toNat - d.output.length > source.length - d.old_pos ∨
        o.pos.toNat - d.output.length > n - d.output.length
    · simp only [if_pos outside]
      exact if_neg (by omega)
    · simp only [if_neg outside]
      have length := copied (o.pos.toNat - d.output.length) (by omega)
      have total : (d.output ++ (source.drop d.old_pos).take (o.pos.toNat - d.output.length)).length = o.pos.toNat := by
        rw [List.length_append, length]
        omega
      rw [total, size_sub_eq (by omega), size_sub_eq (by omega)]
      by_cases inline : o.op = OP_REPLACE ∨ o.op = OP_INSERT
      · have bytes : brought o = o.bytes := if_pos inline
        simp only [if_pos inline, bytes]
        by_cases large : o.bytes.length > n - o.pos.toNat
        · simp only [if_pos large]
          exact if_neg (by omega)
        · simp only [if_neg large]
          by_cases replace : o.op = OP_REPLACE
          · have passed : skipped o = o.bytes.length := if_pos replace
            simp only [if_pos replace, passed]
            by_cases beyond : o.bytes.length > source.length - (d.old_pos + (o.pos.toNat - d.output.length))
            · simp only [if_pos beyond]
              exact if_neg (by omega)
            · simp only [if_neg beyond]
              refine ⟨if_pos (by omega), ?_, ?_, ?_⟩
              · simp only [List.length_append, length]
              · rw [List.length_append, total]
                omega
              · show _ + _ ≤ _
                omega
          · have insert : o.op = OP_INSERT := inline.resolve_left replace
            have passed : skipped o = 0 := by rw [skipped, if_neg replace, if_pos insert]
            simp only [if_neg replace, passed]
            refine ⟨if_pos (by omega), ?_, ?_, ?_⟩
            · simp only [List.length_append, length]
            · rw [List.length_append, total]
              omega
            · show _ + _ ≤ _
              omega
      · have bytes : brought o = [] := if_neg inline
        have passed : skipped o = o.delete_length.toNat := by
          rw [not_or] at inline
          rw [skipped, if_neg inline.1, if_neg inline.2]
        simp only [if_neg inline, bytes, passed, List.length_nil, List.append_nil]
        by_cases beyond : o.delete_length.toNat > source.length - (d.old_pos + (o.pos.toNat - d.output.length))
        · simp only [if_pos beyond]
          exact if_neg (by omega)
        · simp only [if_neg beyond]
          refine ⟨if_pos (by omega), ?_, ?_, ?_⟩
          · simp only [List.length_append, length]
          · rw [total]
            omega
          · show _ + _ ≤ _
            omega

theorem copy_tail_spec {source : List UInt8} {n : Nat} {d : DiffState} (patched : Patched source n d) :
    match Apply.copy_tail source n d with
    | .ok output => fill source n (d.old_pos, d.output) = some output ∧ output.length = n
    | .error _ => fill source n (d.old_pos, d.output) = none := by
  obtain ⟨_, room, used⟩ := patched
  unfold Apply.copy_tail fill
  dsimp only
  rw [size_sub_eq used]
  by_cases short : d.output.length < n
  · simp only [if_pos short]
    by_cases beyond : n - d.output.length > source.length - d.old_pos
    · rw [if_pos beyond]
      exact if_neg (by omega)
    · rw [if_neg beyond]
      refine ⟨if_pos (by omega), ?_⟩
      rw [List.length_append, List.length_take, List.length_drop]
      omega
  · rw [if_neg short]
    have none : n - d.output.length = 0 := by omega
    refine ⟨?_, by omega⟩
    simp [none, used]

/-! ### The state of a run -/

section
variable {env : Environment} {U : StrongHash} {old delta : List UInt8} {destination : Path} {inputs : List Path}

/-- The applier has produced `outs`, and `rest` of the delta is still to come. -/
structure At (env : Environment) (U : StrongHash) (old delta : List UInt8) (destination : Path) (inputs : List Path)
    (outs : List (List UInt8)) (rest : List UInt8) (s : ApplyState U) : Prop where
  old_file : Opened old s.old_file
  feeds : (source delta U.get_hash_size).feeds s.reader rest false
  written : Appends outs.flatten s.transaction.file_
  staged : Staged env destination inputs s.transaction s.system
  hashed : s.whole_file_hash = outs.foldl U.update U.init
  counted : s.stats = { entries_processed := outs.length, bytes_written := outs.flatten.length }

/-- The chunks of the old file lie within it and are bounded. -/
def Within (old : List UInt8) (chunks : List SignedChunk) : Prop :=
  ∀ c ∈ chunks, c.start_offset + c.chunk_size ≤ old.length ∧ c.chunk_size ≤ DELTA_MAX_CHUNK_SIZE

variable {outs : List (List UInt8)} {rest : List UInt8} {s : ApplyState U} {α : Type}

theorem read_source_spec (here : At env U old delta destination inputs outs rest s) {c : SignedChunk} (message : String)
    (fits : old.length ≤ STREAMOFF_MAX) (inside : c.start_offset + c.chunk_size ≤ old.length) :
    Yields (Apply.read_source c message) s
      (fun data s' => data = chunkBytes old c ∧ At env U old delta destination inputs outs rest s') False := by
  obtain ⟨old_file, feeds, written, staged, hashed, counted⟩ := here
  obtain ⟨read, after⟩ := read_chunk_at_spec old_file.steady c.chunk_size (p := c.start_offset) (by omega)
  have size := read_chunk_at_size c.chunk_size c.start_offset s.old_file
  have steady := after.steady
  rcases ran : s.old_file.read_chunk_at c.chunk_size c.start_offset with ⟨data, file⟩
  rw [ran] at read size steady
  dsimp only at read size steady
  have length : data.length = c.chunk_size := by
    rw [read, List.length_take, List.length_drop]
    omega
  have run : Apply.read_source c message s = .ok data { s with old_file := file } := by
    simp only [Apply.read_source, ran]
    exact if_neg (by simp [FileIo.has_error, steady.quiet, length])
  exact yields_ok run ⟨read, ⟨steady, size.trans old_file.size⟩, feeds, written, staged, hashed, counted⟩

theorem fail_if_spec (condition : Bool) (code : DeltaErrc) (message : String) :
    Yields (Apply.fail_if condition code message) s (fun _ s' => s' = s ∧ condition = false) (condition = true) := by
  cases condition with
  | true => exact yields_throw rfl
  | false => exact yields_pure ⟨rfl, rfl⟩

theorem patching_spec (result : Except String α) :
    Yields (Apply.patching result) s (fun a s' => s' = s ∧ result = .ok a) (∃ message, result = .error message) := by
  cases result with
  | ok a => exact yields_pure ⟨rfl, rfl⟩
  | error message => exact yields_throw ⟨message, rfl⟩

/-! ### The diff -/

/-- Since `s₀` only the reader has gone on, and `rest` of the delta is still to come. -/
structure Reads (delta : List UInt8) (n : Nat) (s₀ : ApplyState U) (rest : List UInt8) (s : ApplyState U) : Prop where
  feeds : (source delta n).feeds s.reader rest false
  only : s = { s₀ with reader := s.reader }

variable {s₀ : ApplyState U} {trailer_size : Nat}

theorem reads_start (feeds : (source delta trailer_size).feeds s.reader rest false) :
    Reads delta trailer_size s rest s := ⟨feeds, rfl⟩

theorem At.reads (here : At env U old delta destination inputs outs rest s) : Reads delta U.get_hash_size s rest s :=
  reads_start here.feeds

theorem Reads.at {s' : ApplyState U} {rest' : List UInt8} (reads : Reads delta U.get_hash_size s rest' s')
    (here : At env U old delta destination inputs outs rest s) : At env U old delta destination inputs outs rest' s' := by
  obtain ⟨old_file, _, written, staged, hashed, counted⟩ := here
  obtain ⟨feeds, only⟩ := reads
  rw [only] at feeds ⊢
  exact ⟨old_file, feeds, written, staged, hashed, counted⟩

theorem reading_reads {m : ReadM α} {p : Parser UInt8 α} {code : DeltaReader → DeltaErrc}
    (sim : Simulates (source delta trailer_size) m p) (here : Reads delta trailer_size s₀ rest s) :
    Yields (Apply.reading code m) s
      (fun a s' => ∃ rest', p rest = some (a, rest') ∧ Reads delta trailer_size s₀ rest' s') (p rest = none) := by
  obtain ⟨feeds, only⟩ := here
  rcases sim.calm feeds with ⟨a, r, rest', run, parsed, feeds'⟩ | ⟨e, r, run, rejected, _⟩
  · have ran : Apply.reading code m s = .ok a { s with reader := r } := by
      simp only [Apply.reading, run]
    exact yields_ok ran ⟨rest', parsed, feeds', by rw [only]⟩
  · have ran : Apply.reading code m s = .error ⟨code r, e⟩ { s with reader := r } := by
      simp only [Apply.reading, run]
    exact yields_error ran rejected

/-- The loop parses a run of opcodes and evaluates it. -/
theorem apply_opcodes_spec {data : List UInt8} {n : Nat} : ∀ (fuel seen : Nat) (d : DiffState) (rest : List UInt8)
    (s : ApplyState U), Patched data n d → Reads delta trailer_size s₀ rest s →
    Yields (Apply.apply_opcodes data n fuel seen d) s
      (fun d' s' => ∃ opcodes rest', run fuel rest = some (opcodes, rest') ∧ seen + opcodes.length ≠ 0 ∧
        opcodes.foldlM (step data n) (d.old_pos, d.output) = some (d'.old_pos, d'.output) ∧ Patched data n d' ∧
        Reads delta trailer_size s₀ rest' s')
      (∀ opcodes rest', run fuel rest = some (opcodes, rest') → seen + opcodes.length ≠ 0 →
        opcodes.foldlM (step data n) (d.old_pos, d.output) = none) := by
  intro fuel
  induction fuel with
  | zero =>
    intro seen d rest s _ _
    refine yields_throw ?_
    intro opcodes rest' parsed
    cases parsed
  | succ fuel ih =>
    intro seen d rest s patched here
    unfold Apply.apply_opcodes
    refine yields_bind (reading_reads at_diff_opcode_sim here) ?_ ?_
    · intro rejected
      cases rejected
    · rintro more s₁ ⟨rest₁, peeked, here₁⟩
      obtain ⟨rfl, rfl⟩ : is_diff_opcode rest.head? = more ∧ rest = rest₁ := by
        simpa [bind_run, peek, pure_run] using peeked
      cases more : is_diff_opcode rest.head? with
      | false =>
        have ended : run (fuel + 1) rest = some ([], rest) := run_end (by simpa [OpcodeNext] using more)
        simp only [Bool.false_eq_true, if_false]
        refine yields_bind (reading_reads (fail_if_sim _ _) here₁) ?_ ?_
        · intro rejected opcodes rest' parsed some
          obtain ⟨rfl, rfl⟩ : [] = opcodes ∧ rest = rest' := by simpa [ended] using parsed
          simp [refuse] at rejected some
          exact absurd rejected some
        · rintro _ s₂ ⟨rest₂, passed, here₂⟩
          obtain ⟨some, rfl⟩ : seen ≠ 0 ∧ rest = rest₂ := by
            simpa [refuse] using passed
          exact yields_pure ⟨[], rest, ended, some, rfl, patched, here₂⟩
      | true =>
        simp only [if_true]
        refine yields_bind (reading_reads read_diff_opcode_sim here₁) ?_ ?_
        · intro rejected opcodes rest' parsed
          obtain ⟨o, m, tail, first, _⟩ := (run_opcode more).mp parsed
          rw [rejected] at first
          cases first
        · rintro o s₂ ⟨rest₂, first, here₂⟩
          have goes_on : ∀ {opcodes rest'}, run (fuel + 1) rest = some (opcodes, rest') →
              ∃ tail, run fuel rest₂ = some (tail, rest') ∧ opcodes = o :: tail := by
            intro opcodes rest' parsed
            obtain ⟨o', m, tail, first', after, rfl⟩ := (run_opcode more).mp parsed
            obtain ⟨rfl, rfl⟩ : o = o' ∧ rest₂ = m := by simpa using first.symm.trans first'
            exact ⟨tail, after, rfl⟩
          have checks := apply_opcode_spec patched o
          refine yields_bind (patching_spec _) ?_ ?_
          · rintro ⟨message, failed⟩ opcodes rest' parsed _
            obtain ⟨tail, _, rfl⟩ := goes_on parsed
            rw [failed] at checks
            rw [List.foldlM_cons, checks]
            rfl
          · rintro d₁ s₃ ⟨rfl, went⟩
            rw [went] at checks
            obtain ⟨stepped, patched₁⟩ := checks
            refine (ih (seen + 1) d₁ rest₂ s₃ patched₁ here₂).mono ?_ ?_
            · rintro d' s' ⟨tail, rest', parsed, _, folded, patched', here'⟩
              refine ⟨o :: tail, rest', (run_opcode more).mpr ⟨o, rest₂, tail, first, parsed, rfl⟩, by simp, ?_, patched',
                here'⟩
              rw [List.foldlM_cons, stepped]
              exact folded
            · intro wrong opcodes rest' parsed _
              obtain ⟨tail, after, rfl⟩ := goes_on parsed
              rw [List.foldlM_cons, stepped]
              exact wrong tail rest' after (by omega)

theorem applyDiff_spec (here : Reads delta trailer_size s₀ rest s) (data : List UInt8) (n fuel : Nat) :
    Yields (Apply.applyDiff fuel data n) s
      (fun out s' => ∃ opcodes rest', run fuel rest = some (opcodes, rest') ∧ opcodes ≠ [] ∧
        rebuild data n opcodes = some out ∧ Reads delta trailer_size s₀ rest' s')
      (∀ opcodes rest', run fuel rest = some (opcodes, rest') → opcodes ≠ [] → rebuild data n opcodes = none) := by
  unfold Apply.applyDiff
  refine yields_bind (apply_opcodes_spec fuel 0 {} rest s (patched_start data n) here) ?_ ?_
  · intro wrong opcodes rest' parsed some
    have failed := wrong opcodes rest' parsed (by simpa using some)
    rw [rebuild, failed]
    rfl
  · rintro d s₁ ⟨opcodes, rest₁, parsed, some, folded, patched, here₁⟩
    have rebuilt : rebuild data n opcodes = fill data n (d.old_pos, d.output) := by
      rw [rebuild, folded]
      rfl
    have nonempty : opcodes ≠ [] := by simpa using some
    have tail := copy_tail_spec patched
    refine yields_bind (patching_spec _) ?_ ?_
    · rintro ⟨message, failed⟩ opcodes' rest' parsed' _
      obtain ⟨rfl, rfl⟩ : opcodes = opcodes' ∧ rest₁ = rest' := by simpa using parsed.symm.trans parsed'
      rw [failed] at tail
      rw [rebuilt, tail]
    · rintro out s₂ ⟨rfl, went⟩
      rw [went] at tail
      rw [if_pos tail.2]
      exact yields_pure ⟨opcodes, rest₁, parsed, nonempty, rebuilt.trans tail.1, here₁⟩

/-! ### Records -/

/-- A method of the reader parses. -/
theorem reading_spec {m : ReadM α} {p : Parser UInt8 α} {code : DeltaReader → DeltaErrc}
    (sim : Simulates (source delta U.get_hash_size) m p) (here : At env U old delta destination inputs outs rest s) :
    Yields (Apply.reading code m) s
      (fun a s' => ∃ rest', p rest = some (a, rest') ∧ At env U old delta destination inputs outs rest' s')
      (p rest = none) := by
  apply (reading_reads sim here.reads).mono ?_ id
  rintro a s' ⟨rest', parsed, reads⟩
  exact ⟨rest', parsed, reads.at here⟩

theorem verifyDigest_iff {data expected : List UInt8} : Apply.verifyDigest U data expected = true ↔ U.digest data = expected := by
  unfold Apply.verifyDigest
  constructor
  · intro verified
    split at verified
    · cases verified
    · exact of_decide_eq_true verified
  · intro same
    rw [if_neg (by rw [← same, U.digest_length]; exact fun ne => ne rfl)]
    exact decide_eq_true same

theorem find_source_spec (chunks : List SignedChunk) (header : DeltaEntryHeader) :
    Yields (Apply.find_source chunks header) s (fun c s' => s' = s ∧ chunks[header.old_index.toNat]? = some c)
      (chunks[header.old_index.toNat]? = none) := by
  unfold Apply.find_source
  cases found : chunks[header.old_index.toNat]? with
  | none => exact yields_throw rfl
  | some c => exact yields_pure ⟨rfl, rfl⟩

/-- The digest of what an entry produced is checked. -/
theorem verified_spec (data digest : List UInt8) (message : String) :
    Yields (Apply.fail_if (!Apply.verifyDigest U data digest) .integrity_mismatch message) s
      (fun _ s' => s' = s ∧ U.digest data = digest) (U.digest data ≠ digest) := by
  apply (fail_if_spec _ _ _).mono
  · rintro _ s' ⟨same, verified⟩
    exact ⟨same, verifyDigest_iff.mp (by simpa using verified)⟩
  · intro mismatch same
    rw [verifyDigest_iff.mpr same] at mismatch
    cases mismatch

section
variable {chunks : List SignedChunk} {header : DeltaEntryHeader}

theorem produce_original (here : At env U old delta destination inputs outs rest s) (N : Nat)
    (fits : old.length ≤ STREAMOFF_MAX) (within : Within old chunks) (type : header.type = .ORIGINAL_CHUNK) :
    Yields (Apply.produce N chunks header) s
      (fun out s' => evaluate U old chunks { header } = some out ∧ out.length ≤ DELTA_MAX_CHUNK_SIZE ∧
        At env U old delta destination inputs outs rest s')
      (evaluate U old chunks { header } = none) := by
  have evaluated : evaluate U old chunks { header } = chunks[header.old_index.toNat]?.bind fun c =>
      if c.hash = header.digest then some (chunkBytes old c) else none := by
    simp only [evaluate, type]
  simp only [Apply.produce, type]
  refine yields_bind (find_source_spec chunks header) ?_ ?_
  · intro absent
    rw [evaluated, absent]
    rfl
  · rintro c s₁ ⟨rfl, found⟩
    rw [found, Option.bind_some] at evaluated
    refine yields_bind (fail_if_spec _ _ _) ?_ ?_
    · intro different
      rw [evaluated]
      exact if_neg (of_decide_eq_true different)
    · rintro _ s₂ ⟨rfl, same⟩
      have bounds := within c (List.mem_of_getElem? found)
      refine (read_source_spec here _ fits bounds.1).mono ?_ (fun impossible => impossible.elim)
      rintro data s' ⟨rfl, here'⟩
      refine ⟨?_, ?_, here'⟩
      · rw [evaluated, if_pos (by simpa using same)]
      · rw [chunkBytes, List.length_take]
        omega

theorem produce_added (here : At env U old delta destination inputs outs rest s) (N : Nat)
    (type : header.type = .ADDED_CHUNK) :
    Yields (Apply.produce N chunks header) s
      (fun out s' => ∃ rest', exactly header.out_size.toNat rest = some (out, rest') ∧
        evaluate U old chunks { header, payload := out } = some out ∧ At env U old delta destination inputs outs rest' s')
      (∀ payload rest', exactly header.out_size.toNat rest = some (payload, rest') →
        evaluate U old chunks { header, payload } = none) := by
  have evaluated : ∀ payload, evaluate U old chunks { header, payload } =
      if U.digest payload = header.digest then some payload else none := by
    intro payload
    simp only [evaluate, type]
  simp only [Apply.produce, type]
  refine yields_bind (reading_spec (read_payload_sim _) here) ?_ ?_
  · intro rejected payload rest' taken
    rw [rejected] at taken
    cases taken
  · rintro out s₁ ⟨rest₁, parsed, here₁⟩
    refine yields_bind (verified_spec _ _ _) ?_ ?_
    · intro mismatch payload rest' taken
      obtain ⟨rfl, rfl⟩ : out = payload ∧ rest₁ = rest' := by simpa using parsed.symm.trans taken
      rw [evaluated, if_neg mismatch]
    · rintro _ s₂ ⟨rfl, same⟩
      exact yields_pure ⟨rest₁, parsed, by rw [evaluated, if_pos same], here₁⟩

theorem produce_modified (here : At env U old delta destination inputs outs rest s) (N : Nat)
    (fits : old.length ≤ STREAMOFF_MAX) (within : Within old chunks) (type : header.type = .MODIFIED_CHUNK) :
    Yields (Apply.produce N chunks header) s
      (fun out s' => ∃ opcodes rest', run N rest = some (opcodes, rest') ∧ opcodes ≠ [] ∧
        evaluate U old chunks { header, opcodes } = some out ∧ out.length = header.out_size.toNat ∧
        At env U old delta destination inputs outs rest' s')
      (∀ opcodes rest', run N rest = some (opcodes, rest') → opcodes ≠ [] →
        evaluate U old chunks { header, opcodes } = none) := by
  have evaluated : ∀ opcodes, evaluate U old chunks { header, opcodes } =
      chunks[header.old_index.toNat]?.bind fun c =>
        (rebuild (chunkBytes old c) header.out_size.toNat opcodes).bind fun out =>
          if U.digest out = header.digest then some out else none := by
    intro opcodes
    simp only [evaluate, type]
  simp only [Apply.produce, type]
  refine yields_bind (find_source_spec chunks header) ?_ ?_
  · intro absent opcodes rest' _ _
    rw [evaluated, absent]
    rfl
  · rintro c s₁ ⟨rfl, found⟩
    rw [found] at evaluated
    have bounds := within c (List.mem_of_getElem? found)
    refine yields_bind (read_source_spec here _ fits bounds.1) (fun impossible => impossible.elim) ?_
    rintro data s₂ ⟨rfl, here₂⟩
    refine yields_bind (applyDiff_spec here₂.reads _ _ N) ?_ ?_
    · intro wrong opcodes rest' parsed some
      rw [evaluated, Option.bind_some, wrong opcodes rest' parsed some]
      rfl
    · rintro out s₃ ⟨opcodes, rest₃, parsed, some, rebuilt, reads₃⟩
      have value : evaluate U old chunks { header, opcodes } =
          if U.digest out = header.digest then Option.some out else none := by
        rw [evaluated, Option.bind_some, rebuilt, Option.bind_some]
      refine yields_bind (verified_spec _ _ _) ?_ ?_
      · intro mismatch opcodes' rest' parsed' _
        obtain ⟨rfl, rfl⟩ : opcodes = opcodes' ∧ rest₃ = rest' := by simpa using parsed.symm.trans parsed'
        rw [value, if_neg mismatch]
      · rintro _ s₄ ⟨rfl, same⟩
        exact yields_pure
          ⟨opcodes, rest₃, parsed, some, by rw [value, if_pos same], rebuild_length rebuilt, reads₃.at here₂⟩

/-- What follows an entry header is parsed and evaluated. -/
theorem produce_spec (here : At env U old delta destination inputs outs rest s) (N : Nat)
    (fits : old.length ≤ STREAMOFF_MAX) (within : Within old chunks) :
    Yields (Apply.produce N chunks header) s
      (fun out s' => ∃ r rest', recordBody N header rest = some (r, rest') ∧ evaluate U old chunks r = some out ∧
        (out.length ≤ DELTA_MAX_CHUNK_SIZE ∨ out.length = header.out_size.toNat) ∧
        At env U old delta destination inputs outs rest' s')
      (∀ r rest', recordBody N header rest = some (r, rest') → evaluate U old chunks r = none) := by
  cases type : header.type with
  | ORIGINAL_CHUNK =>
    refine (produce_original here N fits within type).mono ?_ ?_
    · rintro out s' ⟨evaluated, short, here'⟩
      exact ⟨{ header }, rest, (body_original type).mpr ⟨rfl, rfl⟩, evaluated, .inl short, here'⟩
    · intro wrong r rest' parsed
      obtain ⟨rfl, rfl⟩ := (body_original type).mp parsed
      exact wrong
  | ADDED_CHUNK =>
    refine (produce_added here N type).mono ?_ ?_
    · rintro out s' ⟨rest', taken, evaluated, here'⟩
      exact ⟨{ header, payload := out }, rest', (body_added type).mpr ⟨out, taken, rfl⟩, evaluated,
        .inr (exactly_iff.mp taken).2, here'⟩
    · intro wrong r rest' parsed
      obtain ⟨payload, taken, rfl⟩ := (body_added type).mp parsed
      exact wrong payload rest' taken
  | MODIFIED_CHUNK =>
    refine (produce_modified here N fits within type).mono ?_ ?_
    · rintro out s' ⟨opcodes, rest', parsed, some, evaluated, length, here'⟩
      exact ⟨{ header, opcodes }, rest', (body_modified type).mpr ⟨opcodes, parsed, some, rfl⟩, evaluated, .inr length, here'⟩
    · intro wrong r rest' parsed
      obtain ⟨opcodes, ran, some, rfl⟩ := (body_modified type).mp parsed
      exact wrong opcodes rest' ran some

end

theorem deliver_spec (here : At env U old delta destination inputs outs rest s) {out : List UInt8} {max_output_bytes : Nat}
    (fits : out.length ≤ STREAMOFF_MAX) (below : outs.flatten.length ≤ max_output_bytes) :
    Yields (Apply.deliver max_output_bytes out) s
      (fun _ s' => (outs ++ [out]).flatten.length ≤ max_output_bytes ∧
        At env U old delta destination inputs (outs ++ [out]) rest s')
      (max_output_bytes < (outs ++ [out]).flatten.length) := by
  obtain ⟨old_file, feeds, written, staged, hashed, counted⟩ := here
  have total : (outs ++ [out]).flatten = outs.flatten ++ out := by simp
  rw [total, List.length_append]
  obtain ⟨wrote, written'⟩ := write_chunk_spec written fits
  rcases ran : s.transaction.file_.write_chunk out with ⟨done, file⟩
  rw [ran] at wrote written'
  dsimp only at wrote written'
  subst wrote
  have bytes : s.stats.bytes_written = outs.flatten.length := by rw [counted]
  by_cases large : out.length > size_sub max_output_bytes s.stats.bytes_written
  · have run : ∃ e, Apply.deliver max_output_bytes out s = .error e s := by
      simp only [Apply.deliver, if_pos large]
      exact ⟨_, rfl⟩
    obtain ⟨e, run⟩ := run
    rw [bytes, size_sub_eq below] at large
    exact yields_error run (by omega)
  · have run : Apply.deliver max_output_bytes out s = .ok () { s with
        transaction := { s.transaction with file_ := file }
        whole_file_hash := U.update s.whole_file_hash out
        stats := { entries_processed := s.stats.entries_processed + 1
                   bytes_written := s.stats.bytes_written + out.length } } := by
      simp only [Apply.deliver, if_neg large, ran]
    rw [bytes, size_sub_eq below] at large
    obtain ⟨aimed, against, temporary, replaceable⟩ := staged
    refine yields_ok run ⟨by omega, old_file, feeds, ?_, ⟨aimed, against, temporary, replaceable⟩, ?_, ?_⟩
    · rw [total]
      exact written'
    · rw [List.foldl_append, ← hashed]
      rfl
    · simp [counted]

theorem check_trailer_spec (trailer : List UInt8) :
    Yields (Apply.check_trailer trailer) s (fun _ s' => s' = s ∧ U.finalize s.whole_file_hash = trailer)
      (U.finalize s.whole_file_hash ≠ trailer) := by
  by_cases same : U.finalize s.whole_file_hash = trailer
  · exact yields_ok (if_pos same) ⟨rfl, same⟩
  · exact yields_error (if_neg same) same

/-! ### The loop -/

/-- The size an entry declares is bounded. -/
theorem entry_small {header : DeltaEntryHeader} {rest rest' : List UInt8} (parsed : entryHeader rest = some (header, rest')) :
    header.out_size.toNat ≤ DELTA_MAX_CHUNK_SIZE := by
  obtain ⟨w, _, entry⟩ := (recognises_iff.mp recognises_entryHeader rest (Nat.lt_succ_self _) header rest').mp parsed
  cases entry with
  | original => exact Nat.zero_le _
  | added _ small _ => exact small
  | modified _ _ small _ => exact small

section
variable {chunks : List SignedChunk} (N : Nat) {max_output_bytes : Nat}

/-- An entry is parsed, evaluated and written. -/
theorem entry_spec (here : At env U old delta destination inputs outs rest s) (fits : old.length ≤ STREAMOFF_MAX)
    (within : Within old chunks) (below : outs.flatten.length ≤ max_output_bytes) :
    Yields (Apply.reading Apply.category DeltaReader.read_entry_header >>= Apply.produce N chunks >>=
        Apply.deliver max_output_bytes) s
      (fun _ s' => ∃ r out rest', record N rest = some (r, rest') ∧ evaluate U old chunks r = some out ∧
        (outs ++ [out]).flatten.length ≤ max_output_bytes ∧
        At env U old delta destination inputs (outs ++ [out]) rest' s')
      (∀ r out rest', record N rest = some (r, rest') → evaluate U old chunks r = some out →
        max_output_bytes < (outs ++ [out]).flatten.length) := by
  rw [bind_assoc]
  refine yields_bind (reading_spec read_entry_header_sim here) ?_ ?_
  · intro rejected r out rest' parsed
    obtain ⟨header, m, entry, _⟩ := record_run.mp parsed
    rw [rejected] at entry
    cases entry
  · rintro header s₁ ⟨rest₁, entry, here₁⟩
    have recorded : record N rest = recordBody N header rest₁ := by
      rw [record, bind_run, entry]
      rfl
    rw [recorded]
    refine yields_bind (produce_spec here₁ N fits within) ?_ ?_
    · intro wrong r out rest' parsed evaluated
      rw [wrong r rest' parsed] at evaluated
      cases evaluated
    · rintro out s₂ ⟨r, rest₂, body, evaluated, size, here₂⟩
      have small := entry_small entry
      have short : out.length ≤ STREAMOFF_MAX := by
        have : DELTA_MAX_CHUNK_SIZE ≤ STREAMOFF_MAX := by decide
        omega
      refine (deliver_spec here₂ short below).mono ?_ ?_
      · rintro _ s' ⟨below', here'⟩
        exact ⟨r, out, rest₂, body, evaluated, below', here'⟩
      · intro exceeded r' out' rest' body' evaluated'
        obtain ⟨rfl, rfl⟩ : r = r' ∧ rest₂ = rest' := by simpa using body.symm.trans body'
        obtain rfl : out = out' := by simpa using evaluated.symm.trans evaluated'
        exact exceeded

/-- The trailer is parsed and compared with the hash of all outputs. -/
theorem trailer_spec (here : At env U old delta destination inputs outs rest s) :
    Yields (Apply.reading Apply.category DeltaReader.read_trailer >>= Apply.check_trailer) s
      (fun _ s' => ∃ d rest', trailer U.get_hash_size rest = some (d, rest') ∧ streamed U outs = d ∧
        At env U old delta destination inputs outs rest' s')
      (∀ d rest', trailer U.get_hash_size rest = some (d, rest') → streamed U outs ≠ d) := by
  refine yields_bind (reading_spec read_trailer_sim here) ?_ ?_
  · intro rejected d rest' read
    rw [rejected] at read
    cases read
  · rintro d s₁ ⟨rest₁, read, here₁⟩
    rw [streamed, ← here₁.hashed]
    refine (check_trailer_spec d).mono ?_ ?_
    · rintro _ s' ⟨rfl, verified⟩
      exact ⟨d, rest₁, read, verified, here₁⟩
    · intro mismatch d' rest' read'
      obtain ⟨rfl, rfl⟩ : d = d' ∧ rest₁ = rest' := by simpa using read.symm.trans read'
      exact mismatch

/-- The items up to the trailer are parsed and evaluated, and the trailer is
    compared with the hash of all outputs. -/
theorem apply_items_spec (fits : old.length ≤ STREAMOFF_MAX) (within : Within old chunks) :
    ∀ (left : Nat) (outs : List (List UInt8)) (rest : List UInt8) (s : ApplyState U),
    outs.flatten.length ≤ max_output_bytes → At env U old delta destination inputs outs rest s →
    Yields (Apply.apply_items N chunks max_output_bytes left) s
      (fun saw s' => ∃ records digest rest' new, items N U.get_hash_size left rest = some ((records, digest), rest') ∧
        saw = digest.isSome ∧ records.mapM (evaluate U old chunks) = some new ∧
        (outs ++ new).flatten.length ≤ max_output_bytes ∧ (∀ d, digest = some d → streamed U (outs ++ new) = d) ∧
        At env U old delta destination inputs (outs ++ new) rest' s')
      (∀ records d rest' new, items N U.get_hash_size left rest = some ((records, some d), rest') →
        records.mapM (evaluate U old chunks) = some new → (outs ++ new).flatten.length ≤ max_output_bytes →
        streamed U (outs ++ new) ≠ d) := by
  intro left
  induction left with
  | zero =>
    intro outs rest s _ _
    refine yields_throw ?_
    intro records d rest' new parsed
    cases parsed
  | succ left ih =>
    intro outs rest s below here
    unfold Apply.apply_items
    refine yields_bind (reading_spec next_item_sim here) ?_ ?_
    · intro rejected
      cases rejected
    · rintro item s₁ ⟨rest₁, peeked, here₁⟩
      obtain ⟨rfl, rfl⟩ : itemOf rest.head? = item ∧ rest = rest₁ := by
        simpa [bind_run, peek, pure_run] using peeked
      cases first : rest.head? with
      | none =>
        have parsed : items N U.get_hash_size (left + 1) rest = some (([], none), rest) := by rw [items_run, first]
        refine yields_pure ⟨[], none, rest, [], parsed, rfl, rfl, ?_, ?_, ?_⟩
        · rwa [List.append_nil]
        · rintro d impossible
          cases impossible
        · rwa [List.append_nil]
      | some byte =>
        by_cases tag : byte = DELTA_TRAILER_TAG
        · simp only [itemOf, if_pos tag]
          rw [← bind_assoc]
          rw [tag] at first
          refine yields_bind (trailer_spec here₁) ?_ ?_
          · intro mismatch records d rest' new parsed evaluated _
            obtain ⟨d', read, rfl, same⟩ := (items_trailer first).mp parsed
            obtain rfl : d = d' := by simpa using same
            obtain rfl : [] = new := by simpa using evaluated
            rw [List.append_nil]
            exact mismatch d rest' read
          · rintro _ s₂ ⟨d, rest₂, read, verified, here₂⟩
            refine yields_pure ⟨[], some d, rest₂, [], (items_trailer first).mpr ⟨d, read, rfl, rfl⟩, rfl, rfl, ?_, ?_, ?_⟩
            · rwa [List.append_nil]
            · rintro d' same
              obtain rfl : d = d' := by simpa using same
              rwa [List.append_nil]
            · rwa [List.append_nil]
        · simp only [itemOf, if_neg tag]
          -- The entry comes first, and then the rest of the loop.
          simp only [← bind_assoc]
          refine yields_bind (entry_spec N here₁ fits within below) ?_ ?_
          · intro wrong records d rest' new parsed evaluated within_limit
            obtain ⟨r, m, tail, read, _, rfl⟩ := (items_record first tag).mp parsed
            obtain ⟨out, new', here', _, rfl⟩ := evaluated_cons.mp evaluated
            have exceeds := wrong r out m read here'
            rw [List.append_cons, List.flatten_append, List.length_append] at within_limit
            omega
          · rintro _ s₂ ⟨r, out, rest₂, read, evaluated₂, below₂, here₂⟩
            refine (ih (outs ++ [out]) rest₂ s₂ below₂ here₂).mono ?_ ?_
            · rintro saw s' ⟨records, digest, rest', new, parsed, saw_is, mapped, total, hashed, here'⟩
              rw [← List.append_cons] at total hashed here'
              exact ⟨r :: records, digest, rest', out :: new,
                (items_record first tag).mpr ⟨r, rest₂, records, read, parsed, rfl⟩, saw_is,
                evaluated_cons.mpr ⟨out, new, evaluated₂, mapped, rfl⟩, total, hashed, here'⟩
            · intro wrong records d rest' new parsed evaluated within_limit
              obtain ⟨r', m, tail, read', after, rfl⟩ := (items_record first tag).mp parsed
              obtain ⟨rfl, rfl⟩ : r = r' ∧ rest₂ = m := by simpa using read.symm.trans read'
              obtain ⟨out', new', evaluated', mapped, rfl⟩ := evaluated_cons.mp evaluated
              obtain rfl : out = out' := by simpa using evaluated₂.symm.trans evaluated'
              rw [List.append_cons] at within_limit ⊢
              exact wrong tail d rest' new' after mapped within_limit

end

theorem within_chunkList (U : StrongHash) (old : List UInt8) : Within old (chunkList U old) := by
  intro c member
  obtain ⟨cs, pieces, list⟩ := chunkList_spec U old
  rw [list] at member
  obtain ⟨i, inside, here⟩ := List.getElem_of_mem member
  obtain ⟨pre, bytes, post, rfl, _, start, size, _⟩ := sign_get U (List.getElem?_eq_some_iff.mpr ⟨inside, here⟩)
  have flat := pieces_flatten pieces
  have short := piece_short pieces bytes (by simp)
  rw [← flat, start, size]
  simp only [List.flatten_append, List.flatten_cons, List.length_append]
  omega

theorem sign_old_spec (here : At env U old delta destination inputs outs rest s) (p : Path) :
    Yields (Apply.sign_old RKFinger.rolling p) s
      (fun chunks s' => chunks = chunkList U old ∧ At env U old delta destination inputs outs rest s') False := by
  obtain ⟨old_file, feeds, written, staged, hashed, counted⟩ := here
  obtain ⟨cs, f, pieces, run, opened⟩ := generate_spec U .Skip old_file
  obtain ⟨cs', pieces', list⟩ := chunkList_spec U old
  obtain rfl := pieces_unique pieces pieces'
  have ran : Apply.sign_old RKFinger.rolling p s = .ok (sign U 0 cs) { s with old_file := f } := by
    simp only [Apply.sign_old, run]
    rfl
  exact yields_ok ran ⟨list.symm, opened, feeds, written, staged, hashed, counted⟩

theorem close_inputs_spec (here : At env U old delta destination inputs outs rest s) :
    Yields Apply.close_inputs s (fun _ s' => s'.transaction = s.transaction ∧ s'.system = s.system ∧ s'.stats = s.stats)
      False := by
  have first := close_steady here.old_file.steady
  have second := close_steady here.feeds.1.steady
  rcases ran : s.old_file.close with ⟨closed, f⟩
  rcases ran' : s.reader.in_.close with ⟨closed', g⟩
  rw [ran] at first
  rw [ran'] at second
  dsimp only at first second
  subst first
  subst second
  have run : Apply.close_inputs s = .ok () { s with old_file := f, reader := { s.reader with in_ := g } } := by
    simp only [Apply.close_inputs, ran, ran']
  exact yields_ok run ⟨rfl, rfl, rfl⟩

/-- What the applier holds before it commits. -/
structure Rebuilt (env : Environment) (U : StrongHash) (old delta : List UInt8) (destination : Path) (inputs : List Path)
    (max_output_bytes : Nat) (s : ApplyState U) (records : List Record) (outs : List (List UInt8)) : Prop where
  means : Means U old (chunkList U old) delta records outs (streamed U outs)
  below : outs.flatten.length ≤ max_output_bytes
  written : Appends outs.flatten s.transaction.file_
  staged : Staged env destination inputs s.transaction s.system
  counted : s.stats = { entries_processed := records.length, bytes_written := outs.flatten.length }

theorem reconstruct_spec (fits : old.length ≤ STREAMOFF_MAX) {N : Nat} (short : delta.length < N)
    (p : Path) (max_output_bytes : Nat) (here : At env U old delta destination inputs [] delta s) :
    Yields (Apply.reconstruct RKFinger.rolling N p max_output_bytes) s
      (fun _ s' => ∃ records outs, Rebuilt env U old delta destination inputs max_output_bytes s' records outs)
      (∀ records outs, Means U old (chunkList U old) delta records outs (streamed U outs) → max_output_bytes < outs.flatten.length) := by
  have parts : ∀ {records outs}, Means U old (chunkList U old) delta records outs (streamed U outs) → ∃ body,
      header delta = some ((), body) ∧ items N U.get_hash_size N body = some ((records, some (streamed U outs)), []) := by
    rintro records outs ⟨⟨body, split, shape⟩, _⟩
    refine ⟨body, (header_run delta body).mpr split, (items_spec N _ N body ?_ (Nat.le_refl N) _ _ _).mpr ⟨shape, rfl⟩⟩
    rw [split, List.length_append] at short
    omega
  unfold Apply.reconstruct
  refine yields_bind (reading_spec read_header_sim here) ?_ ?_
  · intro rejected records outs means
    obtain ⟨body, first, _⟩ := parts means
    rw [rejected] at first
    cases first
  · rintro _ s₁ ⟨rest₁, first, here₁⟩
    refine yields_bind (sign_old_spec here₁ p) (fun impossible => impossible.elim) ?_
    rintro chunks s₂ ⟨rfl, here₂⟩
    refine yields_bind (apply_items_spec N fits (within_chunkList U old) N [] rest₁ s₂ (Nat.zero_le _) here₂) ?_ ?_
    · intro wrong records outs means
      obtain ⟨body, first', loop⟩ := parts means
      obtain rfl : rest₁ = body := by simpa using first.symm.trans first'
      by_contra below
      exact wrong records _ [] outs loop means.2 (Nat.le_of_not_lt below) rfl
    · rintro saw s₃ ⟨records, digest, rest₃, outs, loop, rfl, evaluated, below, hashed, here₃⟩
      rw [List.nil_append] at here₃ hashed below
      refine yields_bind (reading_spec (simulates_bind (fail_if_error_sim _) fun _ => fail_if_sim _ _) here₃) ?_ ?_
      · intro rejected records' outs' means
        obtain ⟨body, first', loop'⟩ := parts means
        obtain rfl : rest₁ = body := by simpa using first.symm.trans first'
        obtain ⟨⟨rfl, rfl⟩, rfl⟩ : (records = records' ∧ digest = some (streamed U outs')) ∧ rest₃ = [] := by
          simpa using loop.symm.trans loop'
        cases rejected
      · rintro _ s₄ ⟨rest₄, finished, here₄⟩
        cases digest with
        | none => cases finished
        | some d =>
          obtain rfl := hashed d rfl
          have parsed : Grammar.delta N U.get_hash_size delta = some ((records, streamed U outs), rest₃) := by
            rw [Grammar.delta, bind_run, first, Option.bind_some, bind_run, loop]
            rfl
          have means : Means U old (chunkList U old) delta records outs (streamed U outs) :=
            ⟨((delta_run short _ _ _).mp parsed).1, evaluated⟩
          refine (close_inputs_spec here₄).mono ?_ (fun impossible => impossible.elim)
          rintro _ s' ⟨transaction, system, stats⟩
          refine ⟨records, outs, means, below, ?_, ?_, ?_⟩
          · rw [transaction]
            exact here₄.written
          · rw [transaction, system]
            exact here₄.staged
          · rw [stats, here₄.counted, evaluated_length evaluated]

/-! ### The whole run -/

/-- Nothing fails: no system call, and no operation on a file. -/
structure Undisturbed (env : Environment) : Prop where
  quiet : env.Quiet
  still : Still env

/-- An old file and a delta, and a destination beside which the output can be
    staged and which is neither of them. -/
structure Ready (env : Environment) (s : System) (old delta : List UInt8) (old_file_path delta_file_path output : Path) :
    Prop where
  old_file : s.Holds env old_file_path old
  delta_file : s.Holds env delta_file_path delta
  usable : Usable env s output [old_file_path, delta_file_path]

variable {sys : System} {old_file_path delta_file_path output : Path}

/-- What a run comes to, and the state in which its output was opened. -/
theorem apply_delta_calm (undisturbed : Undisturbed env) (fits : old.length ≤ STREAMOFF_MAX)
    (ready : Ready env sys old delta old_file_path delta_file_path output) (max_output_bytes : Nat) :
    ∃ s₀ : ApplyState U, s₀.reader = Apply.reader U (FileIo.opened delta none true) ∧
      match Apply.reconstruct RKFinger.rolling (delta.length + 1) old_file_path max_output_bytes s₀ with
      | .ok _ s' => ∃ records outs, Means U old (chunkList U old) delta records outs (streamed U outs) ∧
          outs.flatten.length ≤ max_output_bytes ∧ ∃ sys', sys'.Holds env output outs.flatten ∧
          Apply.apply_delta env RKFinger.rolling U old_file_path delta_file_path output max_output_bytes sys =
            { result := .ok { entries_processed := records.length, bytes_written := outs.flatten.length }
              reader := s'.reader, checked := some outs.flatten, system := sys' }
      | .error e s' => (∀ records outs, Means U old (chunkList U old) delta records outs (streamed U outs) →
            max_output_bytes < outs.flatten.length) ∧
          ∃ sys', Apply.apply_delta env RKFinger.rolling U old_file_path delta_file_path output max_output_bytes sys =
            { result := .error e, reader := s'.reader, checked := none, system := sys' } := by
  obtain ⟨quiet, still⟩ := undisturbed
  obtain ⟨oldHolds, deltaHolds, usable⟩ := ready
  have opened := Calm.open_in_quiet quiet oldHolds (by rw [still])
  have opened' := Calm.open_in_quiet (s := { sys with clock := sys.clock + 2 }) quiet deltaHolds (by rw [still])
  rw [still] at opened opened'
  have present : ∀ input ∈ [old_file_path, delta_file_path], Present env sys.fs input := by
    intro input member
    rcases List.mem_pair.mp member with rfl | rfl
    · obtain ⟨inode, leads, _⟩ := oldHolds
      exact ⟨_, leads⟩
    · obtain ⟨inode, leads, _⟩ := deltaHolds
      exact ⟨_, leads⟩
  have reach : (FileIo.opened delta none true).f_.reach = delta.length := by simp [FStream.reach, FileIo.opened]
  obtain ⟨t, sys₂, staged_run, staged, empty⟩ := open_calm (s := { sys with clock := sys.clock + 2 + 2 }) quiet still
    ⟨usable.named, usable.replaceable, usable.free⟩ present
  -- The state in which the output is open.
  set s₀ : ApplyState U := { old_file := FileIo.opened old none true, reader := Apply.reader U (FileIo.opened delta none true)
                             transaction := t, system := sys₂, whole_file_hash := U.init } with s₀Is
  have start : At env U old delta output [old_file_path, delta_file_path] [] delta s₀ :=
    ⟨opened_opened old true, ⟨Calm.opened_feeds true, rfl⟩, empty, staged, rfl, rfl⟩
  have output_open : Apply.staging (OutputTransaction.open_ env output [old_file_path, delta_file_path])
      { old_file := FileIo.opened old none true, reader := Apply.reader U (FileIo.opened delta none true)
        transaction := {}, system := { sys with clock := sys.clock + 2 + 2 }, whole_file_hash := U.init } = .ok () s₀ := by
    simp only [Apply.staging, staged_run]
    rfl
  refine ⟨s₀, rfl, ?_⟩
  have spec := reconstruct_spec fits (Nat.lt_succ_self delta.length) old_file_path max_output_bytes start
  rw [Apply.apply_delta, opened]
  dsimp only
  rw [opened']
  dsimp only
  rw [reach, Apply.apply_opened, output_open]
  dsimp only
  cases run : Apply.reconstruct RKFinger.rolling (delta.length + 1) old_file_path max_output_bytes s₀ with
  | error e s' => exact ⟨spec.of_error run, _, rfl⟩
  | ok _ s' =>
    obtain ⟨records, outs, means, below, written, staged', counted⟩ := spec.of_ok run
    obtain ⟨t', sys', committed, holds, nothing, shut⟩ := commit_calm quiet staged' written
    have done : Apply.staging (OutputTransaction.commit env) s' = .ok () { s' with transaction := t', system := sys' } := by
      simp only [Apply.staging, committed]
    refine ⟨records, outs, means, below, t'.destroy env sys', destroy_holds env nothing shut holds, ?_⟩
    dsimp only
    rw [done]
    simp only [Apply.conclude, counted, written.data]

/-- A delta that means something within the limit is applied. -/
theorem means_applied (undisturbed : Undisturbed env) (streams : U.Streams) (fits : old.length ≤ STREAMOFF_MAX)
    (ready : Ready env sys old delta old_file_path delta_file_path output) {max_output_bytes : Nat} {records : List Record}
    {outs : List (List UInt8)} (means : Means U old (chunkList U old) delta records outs (U.hash outs.flatten))
    (below : outs.flatten.length ≤ max_output_bytes) :
    ∃ stats, (Apply.apply_delta env RKFinger.rolling U old_file_path delta_file_path output max_output_bytes sys).result =
      .ok stats := by
  have hashed : streamed U outs = U.hash outs.flatten := streams outs
  obtain ⟨s₀, _, outcome⟩ := apply_delta_calm (U := U) undisturbed fits ready max_output_bytes
  split at outcome
  · obtain ⟨records, outs, _, _, sys', _, whole⟩ := outcome
    rw [whole]
    exact ⟨_, rfl⟩
  · obtain ⟨exceeds, _⟩ := outcome
    rw [← hashed] at means
    exact absurd (exceeds records outs means) (Nat.not_lt.mpr below)

/-- What is applied is a delta that means something within the limit. -/
theorem applied_means (undisturbed : Undisturbed env) (streams : U.Streams) (fits : old.length ≤ STREAMOFF_MAX)
    (ready : Ready env sys old delta old_file_path delta_file_path output) (max_output_bytes : Nat) :
    let run := Apply.apply_delta env RKFinger.rolling U old_file_path delta_file_path output max_output_bytes sys
    ∀ stats, run.result = .ok stats → ∃ records outs,
      Means U old (chunkList U old) delta records outs (U.hash outs.flatten) ∧ outs.flatten.length ≤ max_output_bytes ∧
      run.system.Holds env output outs.flatten ∧ stats.bytes_written = outs.flatten.length ∧
      stats.entries_processed = records.length := by
  intro run stats ok
  have hashed : ∀ outs, streamed U outs = U.hash outs.flatten := streams
  obtain ⟨s₀, _, outcome⟩ := apply_delta_calm (U := U) undisturbed fits ready max_output_bytes
  split at outcome
  · obtain ⟨records, outs, means, below, sys', holds, whole⟩ := outcome
    rw [hashed] at means
    simp only [run, whole] at ok ⊢
    obtain rfl := Except.ok.inj ok
    exact ⟨records, outs, means, below, holds, rfl, rfl⟩
  · obtain ⟨_, sys', whole⟩ := outcome
    simp only [run, whole] at ok
    cases ok

/-- The applier succeeds exactly on the deltas that mean something within the
    limit, and its output is what they mean. A run without a limit has that of
    64 bits. -/
theorem apply_delta_means (undisturbed : Undisturbed env) (streams : U.Streams) (fits : old.length ≤ STREAMOFF_MAX)
    (ready : Ready env sys old delta old_file_path delta_file_path output) (max_output_bytes : Nat) :
    let run := Apply.apply_delta env RKFinger.rolling U old_file_path delta_file_path output max_output_bytes sys
    ((∃ stats, run.result = .ok stats) ↔ ∃ records outs,
        Means U old (chunkList U old) delta records outs (U.hash outs.flatten) ∧ outs.flatten.length ≤ max_output_bytes) ∧
      ∀ stats, run.result = .ok stats → ∃ records outs,
        Means U old (chunkList U old) delta records outs (U.hash outs.flatten) ∧
        run.system.Holds env output outs.flatten ∧ stats.bytes_written = outs.flatten.length ∧
        stats.entries_processed = records.length := by
  have applied := applied_means (U := U) undisturbed streams fits ready max_output_bytes
  refine ⟨⟨?_, ?_⟩, ?_⟩
  · rintro ⟨stats, ok⟩
    obtain ⟨records, outs, means, below, _⟩ := applied stats ok
    exact ⟨records, outs, means, below⟩
  · rintro ⟨records, outs, means, below⟩
    exact means_applied undisturbed streams fits ready means below
  · intro stats ok
    obtain ⟨records, outs, means, _, holds, written, processed⟩ := applied stats ok
    exact ⟨records, outs, means, holds, written, processed⟩

end

/-- A file of one byte, and a delta with a record of each kind. -/
def byteAndDelta : System := { fs := .holding [((0, "old"), [7]), ((0, "delta"), Viewing.mixedDelta)] }

theorem undisturbed_default : Undisturbed {} := ⟨fun _ => rfl, fun _ => rfl⟩

theorem ready_byteAndDelta : Ready {} byteAndDelta [7] Viewing.mixedDelta ⟨"", "old"⟩ ⟨"", "delta"⟩ ⟨"", "output"⟩ :=
  ⟨⟨0, rfl, rfl⟩, ⟨1, rfl, rfl⟩, ⟨by decide, .inl rfl, 0, by decide, rfl, by simp⟩⟩

/-- What its records make of the file. -/
theorem mixedDelta_means : Means StrongHash.padded [7] (chunkList StrongHash.padded [7]) Viewing.mixedDelta Viewing.mixedRecords
    [[7], [8, 9], [7, 5]] Viewing.mixedTrailer :=
  ⟨Viewing.mixedDelta_shape, by decide +kernel⟩

/-- `apply_delta_means` for a delta with a record of each kind, and a limit that is
    just enough. -/
theorem apply_delta_means_mixed :
    let run := Apply.apply_delta {} RKFinger.rolling StrongHash.padded ⟨"", "old"⟩ ⟨"", "delta"⟩ ⟨"", "output"⟩ 5 byteAndDelta
    ∃ stats, run.result = .ok stats ∧ ∃ records outs, Means StrongHash.padded [7] (chunkList StrongHash.padded [7])
      Viewing.mixedDelta records outs (StrongHash.padded.hash outs.flatten) ∧
      run.system.Holds {} ⟨"", "output"⟩ outs.flatten ∧ stats.bytes_written = outs.flatten.length ∧
      stats.entries_processed = records.length := by
  obtain ⟨exactly, means⟩ := apply_delta_means undisturbed_default StrongHash.padded_streams (by decide) ready_byteAndDelta 5
  obtain ⟨stats, ok⟩ := exactly.mpr ⟨_, _, mixedDelta_means, by decide⟩
  exact ⟨stats, ok, means stats ok⟩

end Roll.Applying
