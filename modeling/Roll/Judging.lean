import Roll.Applying

/-!
What is wrong with a delta.

The verdict on a delta is read off its bytes: its records are parsed and
evaluated one after the other, and the first thing that is wrong decides. Where
nothing is disturbed, the applier reports exactly this verdict.
-/
namespace Roll.Judging
open Roll.Parsing Roll.Outcome Roll.Reading Roll.Grammar Roll.Cursor Roll.Chunker Roll.Evaluation Roll.Committing Roll.Applying

/-! ### Verdicts -/

section
variable (U : StrongHash) (old : List UInt8) (chunks : List SignedChunk)

/-- The bytes of a record, or what is wrong with it. -/
def assess (r : Record) : Except DeltaErrc (List UInt8) :=
  match r.header.type with
  | .ORIGINAL_CHUNK =>
    match chunks[r.header.old_index.toNat]? with
    | none => .error .corrupt_delta
    | some c => if c.hash = r.header.digest then .ok (chunkBytes old c) else .error .integrity_mismatch
  | .ADDED_CHUNK => if U.digest r.payload = r.header.digest then .ok r.payload else .error .integrity_mismatch
  | .MODIFIED_CHUNK =>
    match chunks[r.header.old_index.toNat]?.bind fun c => rebuild (chunkBytes old c) r.header.out_size.toNat r.opcodes with
    | none => .error .corrupt_delta
    | some out => if U.digest out = r.header.digest then .ok out else .error .integrity_mismatch

/-- The outputs of a delta from its items on, after the outputs `outs`. -/
def judge_items (limit N : Nat) : Nat → List (List UInt8) → List UInt8 → Except DeltaErrc (List (List UInt8))
  | 0, _, _ => .error .corrupt_delta
  | fuel + 1, outs, rest =>
    if rest.head? = some DELTA_TRAILER_TAG then
      match trailer U.get_hash_size rest with
      | none => .error .corrupt_delta
      | some (digest, _) => if streamed U outs = digest then .ok outs else .error .integrity_mismatch
    else
      match record N rest with
      | none => .error .corrupt_delta
      | some (r, rest') =>
        match assess U old chunks r with
        | .error code => .error code
        | .ok out =>
          if (outs ++ [out]).flatten.length ≤ limit then judge_items limit N fuel (outs ++ [out]) rest'
          else .error .limit_exceeded

end

/-- What a delta makes of an old file within a limit, or what is wrong with it. -/
def verdict (U : StrongHash) (old delta : List UInt8) (limit : Nat) : Except DeltaErrc (List (List UInt8)) :=
  match header delta with
  | none => .error .corrupt_delta
  | some (_, rest) => judge_items U old (chunkList U old) limit (delta.length + 1) (delta.length + 1) [] rest

section
variable {U : StrongHash} {old : List UInt8} {chunks : List SignedChunk}

theorem assess_ok {r : Record} {out : List UInt8} (evaluated : evaluate U old chunks r = some out) :
    assess U old chunks r = .ok out := by
  unfold evaluate at evaluated
  unfold assess
  cases type : r.header.type with
  | ORIGINAL_CHUNK =>
    simp only [type] at evaluated ⊢
    obtain ⟨c, found, evaluated⟩ := Option.bind_eq_some_iff.mp evaluated
    simp only [found]
    split at evaluated
    · next same =>
      obtain rfl : chunkBytes old c = out := by simpa using evaluated
      exact if_pos same
    · cases evaluated
  | ADDED_CHUNK =>
    simp only [type] at evaluated ⊢
    split at evaluated
    · next same =>
      obtain rfl : r.payload = out := by simpa using evaluated
      exact if_pos same
    · cases evaluated
  | MODIFIED_CHUNK =>
    simp only [type] at evaluated ⊢
    obtain ⟨c, found, evaluated⟩ := Option.bind_eq_some_iff.mp evaluated
    obtain ⟨data, rebuilt, evaluated⟩ := Option.bind_eq_some_iff.mp evaluated
    simp only [found, Option.bind_some, rebuilt]
    split at evaluated
    · next same =>
      obtain rfl : data = out := by simpa using evaluated
      exact if_pos same
    · cases evaluated

end

/-- What a verdict may find wrong. -/
def Judged (code : DeltaErrc) : Prop := code = .corrupt_delta ∨ code = .integrity_mismatch ∨ code = .limit_exceeded

section
variable {U : StrongHash} {old delta : List UInt8} {chunks : List SignedChunk} {code : DeltaErrc}

theorem assess_error {r : Record} (wrong : assess U old chunks r = .error code) : Judged code := by
  unfold assess at wrong
  split at wrong <;> split at wrong
  · exact .inl (Except.error.inj wrong).symm
  · split at wrong
    · cases wrong
    · exact .inr (.inl (Except.error.inj wrong).symm)
  · cases wrong
  · exact .inr (.inl (Except.error.inj wrong).symm)
  · exact .inl (Except.error.inj wrong).symm
  · split at wrong
    · cases wrong
    · exact .inr (.inl (Except.error.inj wrong).symm)

theorem judge_items_error {limit N : Nat} : ∀ (fuel : Nat) (outs : List (List UInt8)) (rest : List UInt8),
    judge_items U old chunks limit N fuel outs rest = .error code → Judged code := by
  intro fuel
  induction fuel with
  | zero =>
    intro _ _ wrong
    exact .inl (Except.error.inj wrong).symm
  | succ fuel ih =>
    intro outs rest wrong
    unfold judge_items at wrong
    split at wrong
    · split at wrong
      · exact .inl (Except.error.inj wrong).symm
      · split at wrong
        · cases wrong
        · exact .inr (.inl (Except.error.inj wrong).symm)
    · split at wrong
      · exact .inl (Except.error.inj wrong).symm
      · split at wrong
        · next assessed =>
          obtain rfl := Except.error.inj wrong
          exact assess_error assessed
        · split at wrong
          · exact ih _ _ wrong
          · exact .inr (.inr (Except.error.inj wrong).symm)

/-- What is wrong with a delta is never an I/O or an internal error. -/
theorem verdict_error {limit : Nat} (wrong : verdict U old delta limit = .error code) : Judged code := by
  unfold verdict at wrong
  split at wrong
  · exact .inl (Except.error.inj wrong).symm
  · exact judge_items_error _ _ _ wrong

end

/-! ### Categories -/

section
variable {ε σ α : Type} {m : EStateM ε σ α} {s : σ} {good : α → σ → Prop} {bad : Prop} {wrong : ε → Prop}

/-- A failure is both what is bad and wrong. -/
theorem yields_reports (yields : Yields m s good bad) (codes : ∀ e s', m s = .error e s' → wrong e) :
    Reports m s good (fun e => bad ∧ wrong e) := by
  cases run : m s with
  | ok a s' => exact reports_ok run (yields.of_ok run)
  | error e s' => exact reports_error run ⟨yields.of_error run, codes e s' run⟩

theorem never_reports (yields : Yields m s good False) : Reports m s good wrong := by
  cases run : m s with
  | ok a s' => exact reports_ok run (yields.of_ok run)
  | error e s' => exact (yields.of_error run).elim

end

section
variable {env : Environment} {U : StrongHash} {old delta : List UInt8} {destination : Path} {inputs : List Path}
  {outs : List (List UInt8)} {rest : List UInt8} {s s₀ : ApplyState U} {α : Type} {n : Nat}

/-- What a reader refuses without a fault is corrupt. -/
theorem reading_corrupt {m : ReadM α} {p : Parser UInt8 α} {code : DeltaReader → DeltaErrc}
    (corrupt : ∀ r : DeltaReader, ¬ r.in_.io_error_ = true → code r = .corrupt_delta)
    (sim : Simulates (source delta n) m p) (here : Reads delta n s₀ rest s) :
    Reports (Apply.reading code m) s (fun a s' => ∃ rest', p rest = some (a, rest') ∧ Reads delta n s₀ rest' s')
      (fun e => p rest = none ∧ e.code = .corrupt_delta) := by
  refine yields_reports (reading_reads sim here) fun e s' failed => ?_
  rcases sim.calm here.feeds with ⟨a, r, _, run, _, _⟩ | ⟨message, r, run, _, alive⟩
  · simp only [Apply.reading, run] at failed
    cases failed
  · simp only [Apply.reading, run] at failed
    obtain ⟨rfl, _⟩ := EStateM.Result.error.inj failed
    exact corrupt r alive

theorem category_corrupt (r : DeltaReader) (alive : ¬ r.in_.io_error_ = true) : Apply.category r = .corrupt_delta :=
  if_neg alive

/-- `reading_corrupt` where a record begins or ends. -/
theorem reading_judged {m : ReadM α} {p : Parser UInt8 α} (sim : Simulates (source delta U.get_hash_size) m p)
    (here : At env U old delta destination inputs outs rest s) :
    Reports (Apply.reading Apply.category m) s
      (fun a s' => ∃ rest', p rest = some (a, rest') ∧ At env U old delta destination inputs outs rest' s')
      (fun e => p rest = none ∧ e.code = .corrupt_delta) := by
  refine (reading_corrupt category_corrupt sim here.reads).mono ?_ fun _ wrong => wrong
  rintro a s' ⟨rest', parsed, reads⟩
  exact ⟨rest', parsed, reads.at here⟩

theorem patching_corrupt (result : Except String α) :
    Reports (Apply.patching result) s (fun a s' => s' = s ∧ result = .ok a) (fun e => e.code = .corrupt_delta) := by
  cases result with
  | ok a => exact reports_pure ⟨rfl, rfl⟩
  | error message => exact reports_throw rfl

/-- An opcode takes bytes. -/
theorem opcode_shorter {o : DiffOpcode} {rest' : List UInt8} (parsed : Grammar.opcode rest = some (o, rest')) :
    rest'.length < rest.length := by
  obtain ⟨w, rfl, word⟩ := (recognises_iff.mp recognises_opcode rest (Nat.lt_succ_self _) o rest').mp parsed
  obtain ⟨v, rfl, _⟩ := opcode_first word
  simp only [List.length_append, List.length_cons]
  omega

theorem apply_opcodes_corrupt {data : List UInt8} {size : Nat} : ∀ (fuel seen : Nat) (d : DiffState) (rest : List UInt8)
    (s : ApplyState U), rest.length < fuel → Patched data size d → Reads delta n s₀ rest s →
    Reports (Apply.apply_opcodes data size fuel seen d) s (fun d' _ => Patched data size d')
      (fun e => e.code = .corrupt_delta) := by
  intro fuel
  induction fuel with
  | zero =>
    intro _ _ rest _ short
    omega
  | succ fuel ih =>
    intro seen d rest s short patched here
    unfold Apply.apply_opcodes
    refine reports_bind (reading_corrupt category_corrupt at_diff_opcode_sim here) (fun e wrong => wrong.2) ?_
    rintro more s₁ ⟨rest₁, peeked, here₁⟩
    obtain ⟨rfl, rfl⟩ : is_diff_opcode rest.head? = more ∧ rest = rest₁ := by
      simpa [bind_run, peek, pure_run] using peeked
    cases is_diff_opcode rest.head? with
    | false =>
      simp only [Bool.false_eq_true, if_false]
      refine reports_bind (reading_corrupt (fun _ _ => rfl) (fail_if_sim _ _) here₁) (fun e wrong => wrong.2) ?_
      exact fun _ _ _ => reports_pure patched
    | true =>
      simp only [if_true]
      refine reports_bind (reading_corrupt category_corrupt read_diff_opcode_sim here₁) (fun e wrong => wrong.2) ?_
      rintro o s₂ ⟨rest₂, parsed, here₂⟩
      have fewer := opcode_shorter parsed
      have checks := apply_opcode_spec patched o
      refine reports_bind (patching_corrupt _) (fun e wrong => wrong) ?_
      rintro d₁ s₃ ⟨rfl, went⟩
      rw [went] at checks
      exact ih (seen + 1) d₁ rest₂ s₃ (by omega) checks.2 here₂

/-- A diff that cannot be applied is corrupt. -/
theorem applyDiff_corrupt {fuel : Nat} (here : Reads delta n s₀ rest s) (short : rest.length < fuel) (data : List UInt8)
    (size : Nat) {e : DeltaError} {s' : ApplyState U} (failed : Apply.applyDiff fuel data size s = .error e s') :
    e.code = .corrupt_delta := by
  have reports : Reports (Apply.applyDiff fuel data size) s (fun _ _ => True) (fun e => e.code = .corrupt_delta) := by
    unfold Apply.applyDiff
    refine reports_bind (apply_opcodes_corrupt fuel 0 {} rest s short (patched_start data size) here) (fun e wrong => wrong) ?_
    intro d s₁ patched
    have tail := copy_tail_spec patched
    refine reports_bind (patching_corrupt _) (fun e wrong => wrong) ?_
    rintro out s₂ ⟨rfl, went⟩
    rw [went] at tail
    rw [if_pos tail.2]
    exact reports_pure trivial
  exact reports.of_error failed

/-! ### Records -/

section
variable {chunks : List SignedChunk} {header : DeltaEntryHeader} {N : Nat}

/-- What is wrong with what follows an entry header: it cannot be parsed and is
    corrupt, or the record is wrong. -/
def BodyFails (U : StrongHash) (old : List UInt8) (chunks : List SignedChunk) (N : Nat) (header : DeltaEntryHeader)
    (rest : List UInt8) (code : DeltaErrc) : Prop :=
  match recordBody N header rest with
  | none => code = .corrupt_delta
  | some (r, _) => assess U old chunks r = .error code

theorem find_source_corrupt :
    Reports (Apply.find_source chunks header) s (fun c s' => s' = s ∧ chunks[header.old_index.toNat]? = some c)
      (fun e => chunks[header.old_index.toNat]? = none ∧ e.code = .corrupt_delta) := by
  unfold Apply.find_source
  cases found : chunks[header.old_index.toNat]? with
  | none => exact reports_throw ⟨rfl, rfl⟩
  | some c => exact reports_pure ⟨rfl, rfl⟩

theorem fail_if_mismatch (condition : Bool) (message : String) :
    Reports (Apply.fail_if condition .integrity_mismatch message) s (fun _ s' => s' = s ∧ condition = false)
      (fun e => condition = true ∧ e.code = .integrity_mismatch) := by
  cases condition with
  | true => exact reports_throw ⟨rfl, rfl⟩
  | false => exact reports_pure ⟨rfl, rfl⟩

theorem not_verified {data expected : List UInt8} (refused : (!Apply.verifyDigest U data expected) = true) :
    U.digest data ≠ expected := by
  intro same
  rw [verifyDigest_iff.mpr same] at refused
  cases refused

theorem produce_fails (here : At env U old delta destination inputs outs rest s) (fits : old.length ≤ STREAMOFF_MAX)
    (within : Within old chunks) (short : rest.length < N) :
    Reports (Apply.produce N chunks header) s (fun _ _ => True) (fun e => BodyFails U old chunks N header rest e.code) := by
  unfold BodyFails
  cases type : header.type with
  | ORIGINAL_CHUNK =>
    have body : recordBody N header rest = some ({ header }, rest) := (body_original type).mpr ⟨rfl, rfl⟩
    simp only [Apply.produce, type, body, assess]
    refine reports_bind find_source_corrupt ?_ ?_
    · rintro e ⟨absent, code⟩
      rw [absent, code]
    · rintro c s₁ ⟨rfl, found⟩
      refine reports_bind (fail_if_mismatch _ _) ?_ ?_
      · rintro e ⟨different, code⟩
        simp only [found, code]
        exact if_neg (of_decide_eq_true different)
      · rintro _ s₂ ⟨rfl, _⟩
        have bounds := within c (List.mem_of_getElem? found)
        exact (never_reports (read_source_spec here _ fits bounds.1)).mono (fun _ _ _ => trivial) fun _ wrong => wrong
  | ADDED_CHUNK =>
    simp only [Apply.produce, type]
    refine reports_bind (reading_judged (read_payload_sim _) here) ?_ ?_
    · rintro e ⟨rejected, code⟩
      cases body : recordBody N header rest with
      | none => exact code
      | some q =>
        obtain ⟨r, rest'⟩ := q
        obtain ⟨payload, taken, _⟩ := (body_added type).mp body
        rw [rejected] at taken
        cases taken
    · rintro out s₁ ⟨rest₁, taken, _⟩
      have body : recordBody N header rest = some ({ header, payload := out }, rest₁) :=
        (body_added type).mpr ⟨out, taken, rfl⟩
      refine reports_bind (fail_if_mismatch _ _) ?_ fun _ _ _ => reports_pure trivial
      rintro e ⟨refused, code⟩
      simp only [body, assess, type, code]
      exact if_neg (not_verified refused)
  | MODIFIED_CHUNK =>
    simp only [Apply.produce, type]
    refine reports_bind find_source_corrupt ?_ ?_
    · rintro e ⟨absent, code⟩
      cases body : recordBody N header rest with
      | none => exact code
      | some q =>
        obtain ⟨r, rest'⟩ := q
        obtain ⟨opcodes, _, _, rfl⟩ := (body_modified type).mp body
        simp only [assess, type, absent, code]
        rfl
    · rintro c s₁ ⟨rfl, found⟩
      have bounds := within c (List.mem_of_getElem? found)
      refine reports_bind (never_reports (read_source_spec here _ fits bounds.1)) (fun _ wrong => wrong) ?_
      rintro data s₂ ⟨rfl, here₂⟩
      have patched := yields_reports (applyDiff_spec here₂.reads (chunkBytes old c) header.out_size.toNat N)
        fun e s' failed => applyDiff_corrupt here₂.reads short _ _ failed
      refine reports_bind patched ?_ ?_
      · rintro e ⟨wrong, code⟩
        cases body : recordBody N header rest with
        | none => exact code
        | some q =>
          obtain ⟨r, rest'⟩ := q
          obtain ⟨opcodes, parsed, some, rfl⟩ := (body_modified type).mp body
          simp only [assess, type, found, Option.bind_some, wrong opcodes rest' parsed some, code]
      · rintro out s₃ ⟨opcodes, rest₃, parsed, some, rebuilt, _⟩
        have body : recordBody N header rest = Option.some ({ header, opcodes }, rest₃) :=
          (body_modified type).mpr ⟨opcodes, parsed, some, rfl⟩
        refine reports_bind (fail_if_mismatch _ _) ?_ fun _ _ _ => reports_pure trivial
        rintro e ⟨refused, code⟩
        simp only [body, assess, type, found, Option.bind_some, rebuilt, code]
        exact if_neg (not_verified refused)

theorem produce_judged (here : At env U old delta destination inputs outs rest s) (fits : old.length ≤ STREAMOFF_MAX)
    (within : Within old chunks) (short : rest.length < N) :
    Reports (Apply.produce N chunks header) s
      (fun out s' => ∃ r rest', recordBody N header rest = some (r, rest') ∧ assess U old chunks r = .ok out ∧
        (out.length ≤ DELTA_MAX_CHUNK_SIZE ∨ out.length = header.out_size.toNat) ∧
        At env U old delta destination inputs outs rest' s')
      (fun e => BodyFails U old chunks N header rest e.code) := by
  have fails : Reports (Apply.produce N chunks header) s (fun _ _ => True) (fun e => BodyFails U old chunks N header rest e.code) :=
    produce_fails here fits within short
  refine (yields_reports (produce_spec here N fits within) fun e s' failed => fails.of_error failed).mono ?_
    fun e wrong => wrong.2
  rintro out s' ⟨r, rest', parsed, evaluated, size, here'⟩
  exact ⟨r, rest', parsed, assess_ok evaluated, size, here'⟩

end

theorem deliver_judged (here : At env U old delta destination inputs outs rest s) {out : List UInt8} {limit : Nat}
    (fits : out.length ≤ STREAMOFF_MAX) (below : outs.flatten.length ≤ limit) :
    Reports (Apply.deliver limit out) s
      (fun _ s' => (outs ++ [out]).flatten.length ≤ limit ∧ At env U old delta destination inputs (outs ++ [out]) rest s')
      (fun e => limit < (outs ++ [out]).flatten.length ∧ e.code = .limit_exceeded) := by
  refine yields_reports (deliver_spec here fits below) fun e s' failed => ?_
  obtain ⟨wrote, _⟩ := write_chunk_spec here.written fits
  unfold Apply.deliver at failed
  split at failed
  · obtain ⟨rfl, _⟩ := EStateM.Result.error.inj failed
    rfl
  · split at failed
    · next refused =>
      rw [refused] at wrote
      cases wrote
    · cases failed

theorem check_trailer_judged (trailer : List UInt8) :
    Reports (Apply.check_trailer trailer) s (fun _ s' => s' = s ∧ U.finalize s.whole_file_hash = trailer)
      (fun e => U.finalize s.whole_file_hash ≠ trailer ∧ e.code = .integrity_mismatch) := by
  refine yields_reports (check_trailer_spec trailer) fun e s' failed => ?_
  unfold Apply.check_trailer at failed
  split at failed
  · cases failed
  · obtain ⟨rfl, _⟩ := EStateM.Result.error.inj failed
    rfl

/-! ### The loop -/

/-- A record takes bytes. -/
theorem record_shorter {N : Nat} {r : Record} {rest' : List UInt8} (short : rest.length < N)
    (parsed : Grammar.record N rest = some (r, rest')) : rest'.length < rest.length := by
  obtain ⟨w, rfl, word, _⟩ := (recognises_record N rest short r rest').mp parsed
  obtain ⟨b, v, rfl, _⟩ := record_first word
  simp only [List.length_append, List.length_cons]
  omega

section
variable {chunks : List SignedChunk} {limit : Nat}

theorem apply_items_judged (N : Nat) (fits : old.length ≤ STREAMOFF_MAX) (within : Within old chunks) :
    ∀ (left : Nat) (outs : List (List UInt8)) (rest : List UInt8) (s : ApplyState U), rest.length < left → rest.length < N →
    outs.flatten.length ≤ limit → At env U old delta destination inputs outs rest s →
    Reports (Apply.apply_items N chunks limit left) s
      (fun saw s' => ∃ outs' rest',
        judge_items U old chunks limit N left outs rest = (if saw then .ok outs' else .error .corrupt_delta) ∧
        outs'.flatten.length ≤ limit ∧ At env U old delta destination inputs outs' rest' s')
      (fun e => judge_items U old chunks limit N left outs rest = .error e.code) := by
  intro left
  induction left with
  | zero =>
    intro _ rest _ short
    omega
  | succ left ih =>
    intro outs rest s short short' below here
    unfold Apply.apply_items
    refine reports_bind (reading_judged next_item_sim here) ?_ ?_
    · rintro e ⟨rejected, _⟩
      cases rejected
    · rintro item s₁ ⟨rest₁, peeked, here₁⟩
      obtain ⟨rfl, rfl⟩ : itemOf rest.head? = item ∧ rest = rest₁ := by
        simpa [bind_run, peek, pure_run] using peeked
      by_cases tag : rest.head? = some DELTA_TRAILER_TAG
      · have judged : judge_items U old chunks limit N (left + 1) outs rest =
            match trailer U.get_hash_size rest with
            | none => .error .corrupt_delta
            | some (digest, _) => if streamed U outs = digest then .ok outs else .error .integrity_mismatch := if_pos tag
        simp only [tag, itemOf, if_true, judged]
        refine reports_bind (reading_judged read_trailer_sim here₁) ?_ ?_
        · rintro e ⟨rejected, code⟩
          rw [rejected, code]
        · rintro d s₂ ⟨rest₂, read, here₂⟩
          simp only [read]
          rw [streamed, ← here₂.hashed]
          refine reports_bind (check_trailer_judged d) ?_ ?_
          · rintro e ⟨mismatch, code⟩
            rw [if_neg mismatch, code]
          · rintro _ s₃ ⟨rfl, same⟩
            exact reports_pure ⟨outs, rest₂, if_pos same, below, here₂⟩
      · have judged : judge_items U old chunks limit N (left + 1) outs rest =
            match Grammar.record N rest with
            | none => .error .corrupt_delta
            | some (r, rest') =>
              match assess U old chunks r with
              | .error code => .error code
              | .ok out =>
                if (outs ++ [out]).flatten.length ≤ limit then judge_items U old chunks limit N left (outs ++ [out]) rest'
                else .error .limit_exceeded := if_neg tag
        rw [judged]
        cases first : rest.head? with
        | none =>
          obtain rfl : rest = [] := List.head?_eq_none_iff.mp first
          have nothing : Grammar.record N [] = none := rfl
          simp only [itemOf, nothing]
          exact reports_pure ⟨outs, [], rfl, below, here₁⟩
        | some byte =>
          have other : byte ≠ DELTA_TRAILER_TAG := fun same => tag (by rw [first, same])
          simp only [itemOf, if_neg other]
          refine reports_bind (reading_judged read_entry_header_sim here₁) ?_ ?_
          · rintro e ⟨rejected, code⟩
            have refused : Grammar.record N rest = none := by
              rw [Grammar.record, bind_run, rejected]
              rfl
            rw [refused, code]
          · rintro header s₂ ⟨rest₂, entry, here₂⟩
            have recorded : Grammar.record N rest = recordBody N header rest₂ := by
              rw [Grammar.record, bind_run, entry]
              rfl
            have fewer : rest₂.length ≤ rest.length := by
              obtain ⟨w, rfl, _⟩ := (recognises_iff.mp recognises_entryHeader rest (Nat.lt_succ_self _) header rest₂).mp entry
              simp
            have small := entry_small entry
            refine reports_bind (produce_judged here₂ fits within (by omega)) ?_ ?_
            · intro e wrong
              rw [recorded]
              unfold BodyFails at wrong
              split at wrong
              · rw [wrong]
              · simp only [wrong]
            · rintro out s₃ ⟨r, rest₃, body, assessed, size, here₃⟩
              have fitting : out.length ≤ STREAMOFF_MAX := by
                have : DELTA_MAX_CHUNK_SIZE ≤ STREAMOFF_MAX := by decide
                omega
              have read : Grammar.record N rest = some (r, rest₃) := recorded.trans body
              have shorter := record_shorter short' read
              simp only [read, assessed]
              refine reports_bind (deliver_judged here₃ fitting below) ?_ ?_
              · rintro e ⟨exceeds, code⟩
                rw [if_neg (Nat.not_le.mpr exceeds), code]
              · rintro _ s₄ ⟨below', here₄⟩
                rw [if_pos below']
                exact ih (outs ++ [out]) rest₃ s₄ (by omega) (by omega) below' here₄

end

theorem header_shorter {rest' : List UInt8} (parsed : header rest = some ((), rest')) : rest'.length ≤ rest.length := by
  rw [(header_run rest rest').mp parsed, List.length_append]
  exact Nat.le_add_left _ _

/-- A run up to its commit comes to the verdict on the delta. -/
theorem reconstruct_judged (fits : old.length ≤ STREAMOFF_MAX) (p : Path) (limit : Nat)
    (here : At env U old delta destination inputs [] delta s) :
    Reports (Apply.reconstruct RKFinger.rolling (delta.length + 1) p limit) s
      (fun _ s' => ∃ outs, verdict U old delta limit = .ok outs ∧ Appends outs.flatten s'.transaction.file_ ∧
        Staged env destination inputs s'.transaction s'.system ∧
        s'.stats = { entries_processed := outs.length, bytes_written := outs.flatten.length })
      (fun e => verdict U old delta limit = .error e.code) := by
  unfold Apply.reconstruct verdict
  refine reports_bind (reading_judged read_header_sim here) ?_ ?_
  · rintro e ⟨rejected, code⟩
    rw [rejected, code]
  · rintro _ s₁ ⟨rest₁, first, here₁⟩
    have fewer := header_shorter first
    simp only [first]
    refine reports_bind (never_reports (sign_old_spec here₁ p)) (fun _ wrong => wrong) ?_
    rintro chunks s₂ ⟨rfl, here₂⟩
    refine reports_bind (apply_items_judged (delta.length + 1) fits (within_chunkList U old) (delta.length + 1) [] rest₁ s₂
      (by omega) (by omega) (Nat.zero_le limit) here₂) (fun _ wrong => wrong) ?_
    rintro saw s₃ ⟨outs, rest₃, judged, _, here₃⟩
    rw [judged]
    have finishes := simulates_bind (fail_if_error_sim "Failed to read delta" : Simulates (source delta U.get_hash_size) _ _)
      fun _ => fail_if_sim (!saw) "Missing delta trailer"
    refine reports_bind (reading_judged finishes here₃) ?_ ?_
    · rintro e ⟨rejected, code⟩
      cases saw with
      | true => cases rejected
      | false => exact congrArg Except.error code.symm
    · rintro _ s₄ ⟨rest₄, finished, here₄⟩
      cases saw with
      | false => cases finished
      | true =>
        refine (never_reports (close_inputs_spec here₄)).mono ?_ fun _ wrong => wrong
        rintro _ s' ⟨transaction, system, stats⟩
        rw [transaction, system, stats]
        exact ⟨outs, rfl, here₄.written, here₄.staged, here₄.counted⟩

/-- Where nothing is disturbed, the applier opens its inputs and its output. -/
theorem apply_delta_opens {sys : System} {old_file_path delta_file_path output : Path} (undisturbed : Undisturbed env)
    (ready : Ready env sys old delta old_file_path delta_file_path output) (limit : Nat) :
    ∃ s₀ : ApplyState U, At env U old delta output [old_file_path, delta_file_path] [] delta s₀ ∧
      Apply.apply_delta env RKFinger.rolling U old_file_path delta_file_path output limit sys =
        match Apply.reconstruct RKFinger.rolling (delta.length + 1) old_file_path limit s₀ with
        | .error e s => Apply.conclude env (.error e) none s
        | .ok _ s =>
          match Apply.staging (OutputTransaction.commit env) s with
          | .error e s' => Apply.conclude env (.error e) (some s.transaction.file_.f_.data) s'
          | .ok _ s' => Apply.conclude env (.ok s'.stats) (some s.transaction.file_.f_.data) s' := by
  obtain ⟨quiet, still⟩ := undisturbed
  obtain ⟨oldHolds, deltaHolds, usable⟩ := ready
  have opened := Calm.open_in_quiet quiet oldHolds (by rw [still])
  have opened' := Calm.open_in_quiet (s := { sys with clock := sys.clock + 2 }) quiet deltaHolds (by rw [still])
  rw [still] at opened opened'
  have present : ∀ input ∈ [old_file_path, delta_file_path], Present env sys.fs input := by
    intro input member
    rcases List.mem_pair.mp member with rfl | rfl
    · exact ⟨_, oldHolds.choose_spec.1⟩
    · exact ⟨_, deltaHolds.choose_spec.1⟩
  have reach : (FileIo.opened delta none true).f_.reach = delta.length := by simp [FStream.reach, FileIo.opened]
  obtain ⟨t, sys₂, staged_run, staged, empty⟩ := open_calm (s := { sys with clock := sys.clock + 2 + 2 }) quiet still
    ⟨usable.named, usable.replaceable, usable.free⟩ present
  set s₀ : ApplyState U := { old_file := FileIo.opened old none true, reader := Apply.reader U (FileIo.opened delta none true)
                             transaction := t, system := sys₂, whole_file_hash := U.init } with s₀Is
  have output_open : Apply.staging (OutputTransaction.open_ env output [old_file_path, delta_file_path])
      { old_file := FileIo.opened old none true, reader := Apply.reader U (FileIo.opened delta none true)
        transaction := {}, system := { sys with clock := sys.clock + 2 + 2 }, whole_file_hash := U.init } = .ok () s₀ := by
    simp only [Apply.staging, staged_run]
    rfl
  refine ⟨s₀, ⟨opened_opened old true, ⟨Calm.opened_feeds true, rfl⟩, empty, staged, rfl, rfl⟩, ?_⟩
  rw [Apply.apply_delta, opened]
  dsimp only
  rw [opened']
  dsimp only
  rw [reach, Apply.apply_opened]
  exact output_open ▸ rfl

/-- A run that ends as a verdict says. -/
def Follows (env : Environment) (output : Path) (run : ApplyRun) : Except DeltaErrc (List (List UInt8)) → Prop
  | .ok outs =>
    run.result = .ok { entries_processed := outs.length, bytes_written := outs.flatten.length } ∧
      run.system.Holds env output outs.flatten
  | .error code => ∃ message, run.result = .error ⟨code, message⟩

theorem apply_delta_follows {sys : System} {old_file_path delta_file_path output : Path}
    (undisturbed : Undisturbed env) (fits : old.length ≤ STREAMOFF_MAX)
    (ready : Ready env sys old delta old_file_path delta_file_path output) (limit : Nat) :
    Follows env output (Apply.apply_delta env RKFinger.rolling U old_file_path delta_file_path output limit sys)
      (verdict U old delta limit) := by
  set run := Apply.apply_delta env RKFinger.rolling U old_file_path delta_file_path output limit sys
  obtain ⟨s₀, start, whole⟩ := apply_delta_opens (U := U) undisturbed ready limit
  have judged := reconstruct_judged fits old_file_path limit start
  have runIs : run = Apply.apply_delta env RKFinger.rolling U old_file_path delta_file_path output limit sys := rfl
  rw [whole] at runIs
  cases ran : Apply.reconstruct RKFinger.rolling (delta.length + 1) old_file_path limit s₀ with
  | error e s' =>
    rw [judged.of_error ran, runIs, ran]
    exact ⟨e.message, rfl⟩
  | ok _ s' =>
    obtain ⟨outs, reached, written, staged, counted⟩ := judged.of_ok ran
    obtain ⟨t', sys', committed, holds, nothing, shut⟩ := commit_calm undisturbed.quiet staged written
    rw [reached, runIs, ran]
    simp only [Apply.staging, committed, Apply.conclude, counted]
    exact ⟨rfl, destroy_holds env nothing shut holds⟩

/-- Where nothing is disturbed, the applier succeeds on the deltas whose verdict
    is an output, with that output; on every other delta it fails with the
    category of the verdict. -/
theorem apply_delta_reports_the_verdict {sys : System} {old_file_path delta_file_path output : Path}
    (undisturbed : Undisturbed env) (fits : old.length ≤ STREAMOFF_MAX)
    (ready : Ready env sys old delta old_file_path delta_file_path output) (limit : Nat) :
    let run := Apply.apply_delta env RKFinger.rolling U old_file_path delta_file_path output limit sys
    match verdict U old delta limit with
    | .ok outs =>
      run.result = .ok { entries_processed := outs.length, bytes_written := outs.flatten.length } ∧
        run.system.Holds env output outs.flatten
    | .error code => ∃ message, run.result = .error ⟨code, message⟩ := by
  have follows := apply_delta_follows (U := U) undisturbed fits ready limit
  unfold Follows at follows
  exact follows

end

-- The verdict is computed by the kernel only.
attribute [local irreducible] verdict in
/-- `apply_delta_reports_the_verdict` for a delta with a record of each kind, with a
    limit that is just enough and with one that is not. -/
theorem verdicts_of_mixedDelta :
    let run := fun limit => Apply.apply_delta {} RKFinger.rolling .padded ⟨"", "old"⟩ ⟨"", "delta"⟩ ⟨"", "output"⟩ limit
      byteAndDelta
    (run 5).result = .ok { entries_processed := 3, bytes_written := 5 } ∧
      (run 5).system.Holds {} ⟨"", "output"⟩ [7, 8, 9, 7, 5] ∧
      ∃ message, (run 4).result = .error ⟨.limit_exceeded, message⟩ := by
  have accepted : verdict .padded [7] Viewing.mixedDelta 5 = .ok [[7], [8, 9], [7, 5]] := by decide +kernel
  have refused : verdict .padded [7] Viewing.mixedDelta 4 = .error .limit_exceeded := by decide +kernel
  have enough := apply_delta_reports_the_verdict (U := .padded) undisturbed_default (by decide) ready_byteAndDelta 5
  have short := apply_delta_reports_the_verdict (U := .padded) undisturbed_default (by decide) ready_byteAndDelta 4
  rw [accepted] at enough
  rw [refused] at short
  exact ⟨enough.1, enough.2, short⟩

end Roll.Judging
