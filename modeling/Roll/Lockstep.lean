import Roll.Applying

/-!
The applier and the viewer drive the reader in lockstep. As long as the
applier goes on, both are in the same place of the stream; it stops either
where the viewer stops too or with a refusal that has nothing to do with the
format.
-/
namespace Roll.Lockstep
open Roll.Parsing Roll.Outcome Roll.Reading Roll.Grammar Roll.Applying

/-! ### What was decoded -/

/-- The second reader has decoded at least what the first one has. -/
def Ahead (r r' : DeltaReader) : Prop := r.decoded <+: r'.decoded

theorem ahead_refl (r : DeltaReader) : Ahead r r := List.prefix_refl _

theorem ahead_trans (a b c : DeltaReader) (first : Ahead a b) (second : Ahead b c) : Ahead a c := first.trans second

section
variable {α γ : Type} {m : ReadM α} {f : α → ReadM γ}

/-- A method never takes back what it has decoded. -/
abbrev Decodes (m : ReadM α) : Prop := Advances Ahead m

theorem decodes_bind (first : Decodes m) (second : ∀ a, Decodes (f a)) : Decodes (m >>= f) :=
  advances_bind ahead_trans first second

theorem decodes_pure (a : α) : Decodes (pure a : ReadM α) := ahead_refl

theorem decodes_throw (message : String) : Decodes (throw message : ReadM α) := ahead_refl

theorem decodes_byte : Decodes DeltaReader.read_byte := ahead_refl

theorem decodes_peek : Decodes DeltaReader.peek_byte := ahead_refl

theorem decodes_chunk (n : Nat) : Decodes (DeltaReader.read_chunk n) := ahead_refl

theorem decodes_record (item : Decoded) : Decodes (DeltaReader.record item) := fun _ => List.prefix_append _ _

theorem decodes_fail_if (condition : Bool) (message : String) : Decodes (DeltaReader.fail_if condition message) := by
  cases condition <;> exact ahead_refl

theorem decodes_fail_if_error (message : String) : Decodes (DeltaReader.fail_if_error message) := by
  intro r
  unfold DeltaReader.fail_if_error
  split <;> exact ahead_refl r

theorem decodes_exact (count : Nat) (message : String) : Decodes (DeltaReader.read_exact count message) :=
  decodes_bind (decodes_chunk count) fun _ => decodes_bind (decodes_fail_if _ _) fun _ => decodes_pure _

theorem decodes_groups (what : String) : ∀ (left : Nat) (value : UInt64), Decodes (DeltaReader.read_groups what left value) := by
  intro left
  induction left with
  | zero =>
    intro value
    exact decodes_throw _
  | succ left ih =>
    intro value
    refine decodes_bind decodes_byte (fun byte => ?_)
    cases byte with
    | none => exact decodes_throw _
    | some byte =>
      dsimp only
      split
      · exact decodes_throw _
      · split
        · exact decodes_pure _
        · exact ih _

theorem decodes_size : Decodes DeltaReader.read_size :=
  decodes_bind (decodes_groups _ _ _) fun _ => decodes_bind (decodes_fail_if _ _) fun _ => decodes_pure _

theorem decodes_fields (type : EntryType) : Decodes (DeltaReader.read_fields type) := by
  cases type with
  | ORIGINAL_CHUNK =>
    exact decodes_bind (decodes_groups _ _ _) fun _ => decodes_bind (decodes_pure 0) fun _ =>
      decodes_bind (decodes_exact _ _) fun _ => decodes_pure _
  | ADDED_CHUNK =>
    exact decodes_bind (decodes_pure 0) fun _ => decodes_bind decodes_size fun _ =>
      decodes_bind (decodes_exact _ _) fun _ => decodes_pure _
  | MODIFIED_CHUNK =>
    exact decodes_bind (decodes_groups _ _ _) fun _ => decodes_bind decodes_size fun _ =>
      decodes_bind (decodes_exact _ _) fun _ => decodes_pure _

theorem decodes_entry_header : Decodes DeltaReader.read_entry_header := by
  refine decodes_bind decodes_byte (fun tag => ?_)
  cases tag with
  | none => exact decodes_throw _
  | some tag =>
    exact decodes_bind (decodes_fail_if _ _) fun _ => decodes_bind (decodes_fields _) fun _ =>
      decodes_bind (decodes_record _) fun _ => decodes_pure _

theorem decodes_payload (count : Nat) : Decodes (DeltaReader.read_payload count) :=
  decodes_bind (decodes_exact _ _) fun _ => decodes_bind (decodes_record _) fun _ => decodes_pure _

theorem decodes_operands (op : UInt8) : Decodes (DeltaReader.read_operands op) := by
  unfold DeltaReader.read_operands
  refine decodes_bind (decodes_exact _ _) (fun pos => ?_)
  split
  · exact decodes_bind (decodes_exact _ _) fun _ => decodes_pure _
  · refine decodes_bind decodes_byte (fun count => ?_)
    cases count with
    | none => exact decodes_throw _
    | some count => exact decodes_bind (decodes_exact _ _) fun _ => decodes_pure _

theorem decodes_diff_opcode : Decodes DeltaReader.read_diff_opcode := by
  refine decodes_bind decodes_byte (fun tag => ?_)
  cases tag with
  | none => exact decodes_throw _
  | some tag =>
    exact decodes_bind (decodes_fail_if _ _) fun _ => decodes_bind (decodes_operands _) fun _ =>
      decodes_bind (decodes_record _) fun _ => decodes_pure _

theorem decodes_at_diff_opcode : Decodes DeltaReader.at_diff_opcode :=
  decodes_bind decodes_peek fun _ => decodes_pure _

theorem decodes_next_item : Decodes DeltaReader.next_item := by
  refine decodes_bind decodes_peek (fun byte => ?_)
  cases byte with
  | none => exact decodes_pure _
  | some byte =>
    dsimp only
    split <;> exact decodes_pure _

theorem decodes_trailer : Decodes DeltaReader.read_trailer :=
  decodes_bind decodes_byte fun _ => decodes_bind (decodes_fail_if _ _) fun _ => decodes_bind ahead_refl fun _ =>
    decodes_bind (decodes_exact _ _) fun _ => decodes_bind decodes_peek fun _ => decodes_bind (decodes_fail_if _ _) fun _ =>
      decodes_bind (decodes_fail_if_error _) fun _ => decodes_bind (decodes_record _) fun _ => decodes_pure _

theorem decodes_finish (saw_trailer : Bool) : Decodes (DeltaReader.finish saw_trailer) :=
  decodes_bind (decodes_fail_if_error _) fun _ => decodes_fail_if _ _

theorem decodes_diff : ∀ fuel size count, Decodes (DeltaViewer.parseDiffData fuel size count) := by
  intro fuel
  induction fuel with
  | zero =>
    intro size count
    exact decodes_throw _
  | succ fuel ih =>
    intro size count
    unfold DeltaViewer.parseDiffData
    refine decodes_bind decodes_at_diff_opcode (fun more => ?_)
    split
    · exact decodes_bind decodes_diff_opcode fun _ => ih _ _
    · exact decodes_bind (decodes_fail_if _ _) fun _ => decodes_pure _

theorem decodes_view_chunk (fuel : Nat) (header : DeltaEntryHeader) : Decodes (DeltaViewer.view_chunk fuel header) := by
  unfold DeltaViewer.view_chunk
  cases header.type with
  | ORIGINAL_CHUNK => exact decodes_pure _
  | ADDED_CHUNK => exact decodes_bind (decodes_payload _) fun _ => decodes_pure _
  | MODIFIED_CHUNK => exact decodes_bind (decodes_diff _ _ _) fun _ => decodes_pure _

theorem decodes_view_items (N : Nat) : ∀ fuel count, Decodes (DeltaViewer.view_items N fuel count) := by
  intro fuel
  induction fuel with
  | zero =>
    intro count
    exact decodes_throw _
  | succ fuel ih =>
    intro count
    unfold DeltaViewer.view_items
    refine decodes_bind decodes_next_item (fun item => ?_)
    cases item with
    | End => exact decodes_pure _
    | Trailer => exact decodes_bind decodes_trailer fun _ => decodes_pure _
    | Entry =>
      exact decodes_bind decodes_entry_header fun header => decodes_bind (decodes_view_chunk N header) fun _ => ih _

end

/-! ### Refusals -/

/-- What is wrong with an opcode, or with the end of a diff, against its
    source. -/
def opcodeRefusals : List String :=
  ["Diff position went backwards", "Diff out of bounds (match copy)", "Diff out of bounds (inline write)",
    "Diff out of bounds (D advance)", "Diff out of bounds (X delete)", "Diff tail copy out of bounds"]

def ioRefusals (old_file_path : Path) : List String :=
  ["Failed to read old file: " ++ old_file_path.string, "Failed to read old chunk", "Failed to read MODIFIED source chunk",
    "Failed to write output chunk", "Failed to close input files"]

/-- What a delta can be refused for that is well formed. -/
inductive Refusal (old_file_path : Path) : DeltaError → Prop
  | source (index count : Nat) : Refusal old_file_path ⟨.corrupt_delta, "Entry references old chunk " ++ toString index ++
      ", but the old file has " ++ toString count⟩
  | opcode {message : String} : message ∈ opcodeRefusals → Refusal old_file_path ⟨.corrupt_delta, message⟩
  | mismatch (message : String) : Refusal old_file_path ⟨.integrity_mismatch, message⟩
  | limit (message : String) : Refusal old_file_path ⟨.limit_exceeded, message⟩
  | io {message : String} : message ∈ ioRefusals old_file_path → Refusal old_file_path ⟨.io_error, message⟩

/-! ### Shadows -/

section
variable {U : StrongHash} {T : RollingHash} {p : Path} {α β γ δ : Type}

/-- The viewer shadows the applier. -/
abbrev Follows (U : StrongHash) (p : Path) (related : α → β → Prop) (m : ApplyM U α) (v : ReadM β) : Prop :=
  Shadows ApplyState.reader Ahead (Refusal p) related m v

theorem follows_bind {related : α → β → Prop} {related' : γ → δ → Prop} {m : ApplyM U α} {v : ReadM β}
    {f : α → ApplyM U γ} {k : β → ReadM δ} (decodes : ∀ b, Decodes (k b)) (first : Follows U p related m v)
    (second : ∀ a b, related a b → Follows U p related' (f a) (k b)) : Follows U p related' (m >>= f) (v >>= k) :=
  shadows_bind ahead_trans decodes first second

theorem follows_aside {P : α → Prop} {related : γ → β → Prop} {m : ApplyM U α} {v : ReadM β} {f : α → ApplyM U γ}
    (decodes : Decodes v) (first : Follows U p (fun a _ => P a) m (pure () : ReadM Unit))
    (second : ∀ a, P a → Follows U p related (f a) v) : Follows U p related (m >>= f) v :=
  shadows_aside ahead_trans decodes first second

theorem follows_reading (code : DeltaReader → DeltaErrc) (m : ReadM α) :
    Follows U p (fun a b => a = b) (Apply.reading code m) m := by
  intro s
  cases run : m s.reader with
  | ok a r =>
    have ran : Apply.reading code m s = .ok a { s with reader := r } := by simp only [Apply.reading, run]
    rw [ran]
    exact ⟨a, rfl, rfl⟩
  | error e r =>
    have ran : Apply.reading code m s = .error ⟨code r, e⟩ { s with reader := r } := by simp only [Apply.reading, run]
    rw [ran]
    exact .inr ⟨e, rfl⟩

theorem follows_fail_if (condition : Bool) (message : String) :
    Follows U p (fun _ _ => True) (Apply.fail_if condition .integrity_mismatch message) (pure () : ReadM Unit) := by
  cases condition with
  | true => exact shadows_throw (.mismatch message) (decodes_pure ())
  | false => exact shadows_pure trivial

theorem follows_source (chunks : List SignedChunk) (header : DeltaEntryHeader) :
    Follows U p (fun _ _ => True) (Apply.find_source chunks header) (pure () : ReadM Unit) := by
  unfold Apply.find_source
  cases chunks[header.old_index.toNat]? with
  | some source => exact shadows_pure trivial
  | none => exact shadows_throw (.source _ _) (decodes_pure ())

theorem follows_read_source (source : SignedChunk) {message : String} (listed : message ∈ ioRefusals p) :
    Follows U p (fun _ _ => True) (Apply.read_source source message) (pure () : ReadM Unit) := by
  intro s
  unfold Apply.read_source
  rcases s.old_file.read_chunk_at source.chunk_size source.start_offset with ⟨data, file⟩
  dsimp only
  split
  · next ran =>
    split at ran
    · cases ran
    · obtain ⟨rfl, rfl⟩ := EStateM.Result.ok.inj ran
      exact ⟨(), rfl, trivial⟩
  · next ran =>
    split at ran
    · obtain ⟨rfl, rfl⟩ := EStateM.Result.error.inj ran
      exact .inl ⟨.io listed, ahead_refl _⟩
    · cases ran

theorem apply_opcode_refusal {data : List UInt8} {n : Nat} {d : DiffState} {o : DiffOpcode} {message : String}
    (failed : Apply.apply_opcode data n d o = .error message) : message ∈ opcodeRefusals := by
  unfold Apply.apply_opcode at failed
  dsimp only at failed
  split at failed
  · obtain rfl := Except.error.inj failed
    simp [opcodeRefusals]
  · split at failed
    · obtain rfl := Except.error.inj failed
      simp [opcodeRefusals]
    · split at failed
      · split at failed
        · obtain rfl := Except.error.inj failed
          simp [opcodeRefusals]
        · split at failed
          · split at failed
            · obtain rfl := Except.error.inj failed
              simp [opcodeRefusals]
            · cases failed
          · cases failed
      · split at failed
        · obtain rfl := Except.error.inj failed
          simp [opcodeRefusals]
        · cases failed

theorem copy_tail_refusal {data : List UInt8} {n : Nat} {d : DiffState} {message : String}
    (failed : Apply.copy_tail data n d = .error message) : message ∈ opcodeRefusals := by
  unfold Apply.copy_tail at failed
  dsimp only at failed
  split at failed
  · split at failed
    · obtain rfl := Except.error.inj failed
      simp [opcodeRefusals]
    · cases failed
  · cases failed

theorem follows_patching {result : Except String α} (listed : ∀ message, result = .error message → message ∈ opcodeRefusals) :
    Follows U p (fun a _ => result = .ok a) (Apply.patching result) (pure () : ReadM Unit) := by
  cases result with
  | ok a => exact shadows_pure rfl
  | error message => exact shadows_throw (.opcode (listed message rfl)) (decodes_pure ())

/-- The loops over the opcodes of a diff. -/
theorem follows_opcodes {data : List UInt8} {n : Nat} : ∀ (fuel seen size : Nat) (d : DiffState), Patched data n d →
    Follows U p (fun d' _ => Patched data n d') (Apply.apply_opcodes data n fuel seen d)
      (DeltaViewer.parseDiffData fuel size seen) := by
  intro fuel
  induction fuel with
  | zero =>
    intro seen size d _
    exact shadows_fail _ _
  | succ fuel ih =>
    intro seen size d patched
    unfold Apply.apply_opcodes DeltaViewer.parseDiffData
    refine follows_bind (fun more => ?_) (follows_reading _ _) ?_
    · split
      · exact decodes_bind decodes_diff_opcode fun _ => decodes_diff _ _ _
      · exact decodes_bind (decodes_fail_if _ _) fun _ => decodes_pure _
    · rintro more _ rfl
      cases more with
      | true =>
        refine follows_bind (fun o => decodes_diff _ _ _) (follows_reading _ _) ?_
        rintro o _ rfl
        refine follows_aside (decodes_diff _ _ _) (follows_patching fun _ => apply_opcode_refusal) (fun d' went => ?_)
        have checks := apply_opcode_spec patched o
        rw [went] at checks
        exact ih (seen + 1) _ d' checks.2
      | false =>
        refine follows_bind (fun _ => decodes_pure _) (follows_reading _ _) ?_
        intro _ _ _
        exact shadows_pure patched

theorem follows_produce (fuel : Nat) (chunks : List SignedChunk) (header : DeltaEntryHeader) :
    Follows U p (fun _ _ => True) (Apply.produce fuel chunks header) (DeltaViewer.view_chunk fuel header) := by
  unfold Apply.produce DeltaViewer.view_chunk
  cases header.type with
  | ORIGINAL_CHUNK =>
    refine follows_aside (decodes_pure ()) (follows_source chunks header) (fun source _ => ?_)
    refine follows_aside (decodes_pure ()) (follows_fail_if _ _) (fun _ _ => ?_)
    exact follows_read_source source (by simp [ioRefusals])
  | ADDED_CHUNK =>
    refine follows_bind (fun _ => decodes_pure ()) (follows_reading _ _) ?_
    rintro payload _ rfl
    exact follows_aside (decodes_pure ()) (follows_fail_if _ _) fun _ _ => shadows_pure trivial
  | MODIFIED_CHUNK =>
    have decodes := decodes_bind (decodes_diff fuel 0 0) fun _ => decodes_pure ()
    refine follows_aside decodes (follows_source chunks header) (fun source _ => ?_)
    refine follows_aside decodes (follows_read_source source (by simp [ioRefusals])) (fun data _ => ?_)
    unfold Apply.applyDiff
    rw [bind_assoc]
    refine follows_bind (fun _ => decodes_pure ()) (follows_opcodes fuel 0 0 {} (patched_start data _)) ?_
    intro d _ patched
    rw [bind_assoc]
    refine follows_aside (decodes_pure ()) (follows_patching fun _ => copy_tail_refusal) (fun output went => ?_)
    have tail := copy_tail_spec patched
    rw [went] at tail
    rw [if_pos tail.2, pure_bind]
    exact follows_aside (decodes_pure ()) (follows_fail_if _ _) fun _ _ => shadows_pure trivial

theorem follows_deliver (max_output_bytes : Nat) (produced : List UInt8) :
    Follows U p (fun _ _ => True) (Apply.deliver max_output_bytes produced) (pure () : ReadM Unit) := by
  intro s
  unfold Apply.deliver
  split
  · next ran =>
    split at ran
    · cases ran
    · split at ran
      · cases ran
      · obtain ⟨_, rfl⟩ := EStateM.Result.ok.inj ran
        exact ⟨(), rfl, trivial⟩
  · next ran =>
    split at ran
    · obtain ⟨rfl, rfl⟩ := EStateM.Result.error.inj ran
      exact .inl ⟨.limit _, ahead_refl _⟩
    · split at ran
      · obtain ⟨rfl, rfl⟩ := EStateM.Result.error.inj ran
        exact .inl ⟨.io (by simp [ioRefusals]), ahead_refl _⟩
      · cases ran

theorem follows_check_trailer (trailer : List UInt8) :
    Follows U p (fun _ _ => True) (Apply.check_trailer trailer) (pure () : ReadM Unit) := by
  intro s
  unfold Apply.check_trailer
  split
  · next ran =>
    split at ran
    · obtain ⟨_, rfl⟩ := EStateM.Result.ok.inj ran
      exact ⟨(), rfl, trivial⟩
    · cases ran
  · next ran =>
    split at ran
    · cases ran
    · obtain ⟨rfl, rfl⟩ := EStateM.Result.error.inj ran
      exact .inl ⟨.mismatch _, ahead_refl _⟩

/-- The loops over the items of a delta. -/
theorem follows_items (N : Nat) (chunks : List SignedChunk) (max_output_bytes : Nat) : ∀ (left count : Nat),
    Follows U p (fun saw seen => saw = seen.2) (Apply.apply_items N chunks max_output_bytes left)
      (DeltaViewer.view_items N left count) := by
  intro left
  induction left with
  | zero =>
    intro count
    exact shadows_fail _ _
  | succ left ih =>
    intro count
    unfold Apply.apply_items DeltaViewer.view_items
    refine follows_bind (fun item => ?_) (follows_reading _ _) ?_
    · cases item with
      | End => exact decodes_pure _
      | Trailer => exact decodes_bind decodes_trailer fun _ => decodes_pure _
      | Entry =>
        exact decodes_bind decodes_entry_header fun header => decodes_bind (decodes_view_chunk N header) fun _ =>
          decodes_view_items N _ _
    · rintro item _ rfl
      cases item with
      | End => exact shadows_pure rfl
      | Trailer =>
        refine follows_bind (fun _ => decodes_pure _) (follows_reading _ _) ?_
        rintro trailer _ rfl
        exact follows_aside (decodes_pure _) (follows_check_trailer trailer) fun _ _ => shadows_pure rfl
      | Entry =>
        refine follows_bind (fun header => ?_) (follows_reading _ _) ?_
        · exact decodes_bind (decodes_view_chunk N header) fun _ => decodes_view_items N _ _
        · rintro header _ rfl
          refine follows_bind (fun _ => decodes_view_items N _ _) (follows_produce N chunks header) ?_
          intro produced _ _
          exact follows_aside (decodes_view_items N _ _) (follows_deliver _ produced) fun _ _ => ih (count + 1)

theorem follows_sign_old : Follows U p (fun _ _ => True) (Apply.sign_old T p) (pure () : ReadM Unit) := by
  intro s
  unfold Apply.sign_old
  split
  · next ran =>
    split at ran
    · cases ran
    · obtain ⟨_, rfl⟩ := EStateM.Result.ok.inj ran
      exact ⟨(), rfl, trivial⟩
  · next ran =>
    split at ran
    · obtain ⟨rfl, rfl⟩ := EStateM.Result.error.inj ran
      exact .inl ⟨.io (by simp [ioRefusals]), ahead_refl _⟩
    · cases ran

/-- Closing the inputs decodes nothing. -/
theorem close_inputs_decoded (s : ApplyState U) :
    match Apply.close_inputs s with
    | .ok _ s' => s'.reader.decoded = s.reader.decoded
    | .error e s' => s'.reader.decoded = s.reader.decoded ∧ Refusal p e := by
  unfold Apply.close_inputs
  rcases s.old_file.close with ⟨closed, f⟩
  cases closed with
  | false => exact ⟨rfl, .io (by simp [ioRefusals])⟩
  | true =>
    rcases s.reader.in_.close with ⟨closed, g⟩
    cases closed with
    | false => exact ⟨rfl, .io (by simp [ioRefusals])⟩
    | true => exact rfl

/-- A run of the applier against one of the viewer, from the same reader: what
    the one has decoded, the other has too, up to the point where the applier
    stops. -/
theorem reconstruct_follows (fuel max_output_bytes : Nat) (s : ApplyState U) :
    match Apply.reconstruct T fuel p max_output_bytes s with
    | .ok _ s' => ∃ count r, DeltaViewer.view_stream fuel s.reader = .ok count r ∧ s'.reader.decoded = r.decoded
    | .error e s' => s'.reader.decoded <+: (after (DeltaViewer.view_stream fuel s.reader)).decoded ∧
        (Refusal p e ∨ ∃ message, DeltaViewer.view_stream fuel s.reader = .error message s'.reader) := by
  set scan : ApplyM U Unit := do
    Apply.reading Apply.category DeltaReader.read_header
    let old_chunks ← Apply.sign_old T p
    let saw_trailer ← Apply.apply_items fuel old_chunks max_output_bytes fuel
    Apply.reading Apply.category (DeltaReader.finish saw_trailer) with scanIs
  have split : Apply.reconstruct T fuel p max_output_bytes = scan >>= fun _ => Apply.close_inputs := by
    simp only [Apply.reconstruct, scanIs, bind_assoc]
  have scanned : Follows U p (fun _ _ => True) scan (DeltaViewer.view_stream fuel) := by
    have ends : ∀ seen : Nat × Bool, Decodes (DeltaReader.finish seen.2 >>= fun _ => pure seen.1) :=
      fun seen => decodes_bind (decodes_finish _) fun _ => decodes_pure _
    have loop := decodes_bind (decodes_view_items fuel fuel 0) ends
    refine follows_bind (fun _ => loop) (follows_reading _ _) ?_
    intro _ _ _
    refine follows_aside loop follows_sign_old (fun chunks _ => ?_)
    refine follows_bind ends (follows_items fuel chunks max_output_bytes fuel 0) ?_
    rintro saw ⟨count, _⟩ rfl
    have last : Follows U p (fun _ _ => True) (Apply.reading Apply.category (DeltaReader.finish saw) >>= fun _ => pure ())
        (DeltaReader.finish saw >>= fun _ => pure count) :=
      follows_bind (fun _ => decodes_pure count) (follows_reading Apply.category (DeltaReader.finish saw))
        fun _ _ _ => shadows_pure trivial
    rwa [bind_pure_unit] at last
  have outcome := scanned s
  rw [split]
  cases run : scan s with
  | error e s₁ =>
    simp only [run] at outcome
    rw [bind_error run]
    rcases outcome with ⟨refused, further⟩ | ⟨message, stopped⟩
    · exact ⟨further, .inl refused⟩
    · refine ⟨?_, .inr ⟨message, stopped⟩⟩
      rw [stopped]
      exact ahead_refl _
  | ok _ s₁ =>
    simp only [run] at outcome
    obtain ⟨count, viewed, _⟩ := outcome
    rw [bind_ok run]
    have closed := close_inputs_decoded (p := p) s₁
    cases close : Apply.close_inputs s₁ with
    | ok _ s' =>
      rw [close] at closed
      exact ⟨count, s₁.reader, viewed, closed⟩
    | error e s' =>
      rw [close] at closed
      refine ⟨?_, .inl closed.2⟩
      rw [viewed, closed.1]
      exact ahead_refl s₁.reader

end

section
variable {env : Environment} {U : StrongHash} {old delta : List UInt8} {sys : System}
  {old_file_path delta_file_path output : Path}

/-- The applier and the viewer on one delta. What the applier has decoded when
    it stops, and after how many bytes each, is a first part of what the viewer
    decodes. Where the applier succeeds the viewer does; where the viewer
    succeeds the applier fails by a refusal only. -/
theorem apply_view_lockstep (undisturbed : Undisturbed env) (fits : old.length ≤ STREAMOFF_MAX)
    (ready : Ready env sys old delta old_file_path delta_file_path output)
    (same_size : U.get_hash_size = BLAKE2B_HASH_SIZE) (max_output_bytes : Nat) :
    let run := Apply.apply_delta env RKFinger.rolling U old_file_path delta_file_path output max_output_bytes sys
    let view := DeltaViewer.view_stream (delta.length + 1) (DeltaViewer.reader (FileIo.opened delta none true))
    DeltaViewer.view_delta env delta_file_path sys = DeltaViewer.exit_code view ∧
      run.reader.decoded <+: (after view).decoded ∧
      ((∃ stats, run.result = .ok stats) →
        DeltaViewer.view_delta env delta_file_path sys = 0 ∧ run.reader.decoded = (after view).decoded) ∧
      (∀ e, run.result = .error e → DeltaViewer.view_delta env delta_file_path sys = 0 → Refusal old_file_path e) ∧
      ∀ e, run.result = .error e → Refusal old_file_path e ∨ run.reader = after view := by
  intro run view
  have code : DeltaViewer.view_delta env delta_file_path sys = DeltaViewer.exit_code view := by
    rw [Viewing.view_delta_opened undisturbed.quiet ready.delta_file (by rw [undisturbed.still]), undisturbed.still]
  rw [code]
  refine ⟨rfl, ?_⟩
  obtain ⟨s₀, reader, outcome⟩ := apply_delta_calm (U := U) undisturbed fits ready max_output_bytes
  have same : s₀.reader = DeltaViewer.reader (FileIo.opened delta none true) := by
    rw [reader, Apply.reader, same_size]
    rfl
  have lockstep := reconstruct_follows (T := RKFinger.rolling) (p := old_file_path) (delta.length + 1) max_output_bytes s₀
  rw [same] at lockstep
  split at outcome
  · next s' ran =>
    obtain ⟨records, outs, _, _, sys', _, whole⟩ := outcome
    rw [ran] at lockstep
    obtain ⟨count, r, viewed, decoded⟩ := lockstep
    have seen : view = .ok count r := viewed
    have result : run.result = .ok { entries_processed := records.length, bytes_written := outs.flatten.length } := by
      simp only [run, whole]
    have log : run.reader.decoded = (after view).decoded := by
      rw [seen]
      simp only [run, whole]
      exact decoded
    refine ⟨log ▸ List.prefix_refl _, fun _ => ⟨by rw [seen]; rfl, log⟩, ?_, ?_⟩
    · intro e failed
      rw [result] at failed
      cases failed
    · intro e failed
      rw [result] at failed
      cases failed
  · next e s' ran =>
    obtain ⟨_, sys', whole⟩ := outcome
    rw [ran] at lockstep
    obtain ⟨decoded, reason⟩ := lockstep
    have result : run.result = .error e := by simp only [run, whole]
    have stopped : run.reader = s'.reader := by simp only [run, whole]
    refine ⟨by rw [stopped]; exact decoded, ?_, ?_, ?_⟩
    · rintro ⟨stats, ok⟩
      rw [result] at ok
      cases ok
    · intro e' failed zero
      obtain rfl := Except.error.inj (result.symm.trans failed)
      rcases reason with refused | ⟨message, viewed⟩
      · exact refused
      · have seen : view = .error message s'.reader := viewed
        rw [seen, DeltaViewer.exit_code] at zero
        split at zero <;> cases zero
    · intro e' failed
      obtain rfl := Except.error.inj (result.symm.trans failed)
      rcases reason with refused | ⟨message, viewed⟩
      · exact .inl refused
      · have seen : view = .error message s'.reader := viewed
        rw [stopped, seen]
        exact .inr rfl

end

/-- `apply_view_lockstep` for a delta with a record of each kind. -/
theorem apply_view_lockstep_mixed :
    let run := Apply.apply_delta {} RKFinger.rolling StrongHash.padded ⟨"", "old"⟩ ⟨"", "delta"⟩ ⟨"", "output"⟩ UINT64_MAX
      byteAndDelta
    let view := DeltaViewer.view_stream (Viewing.mixedDelta.length + 1)
      (DeltaViewer.reader (FileIo.opened Viewing.mixedDelta none true))
    DeltaViewer.view_delta {} ⟨"", "delta"⟩ byteAndDelta = 0 ∧ run.reader.decoded = (after view).decoded := by
  obtain ⟨_, _, success, _⟩ := apply_view_lockstep (U := StrongHash.padded) undisturbed_default (by decide) ready_byteAndDelta
    rfl UINT64_MAX
  exact success (means_applied undisturbed_default StrongHash.padded_streams (by decide) ready_byteAndDelta mixedDelta_means
    (by decide))

/-! ### Truncation and extension -/

section
variable {env : Environment} {content : List UInt8} {p : Path} {s : System}

/-- A stream that the viewer walks to its end is a delta. -/
theorem viewed_shape {n : Nat} {r r' : DeltaReader} {count : Nat} (feeds : (source content n).feeds r content false)
    (viewed : DeltaViewer.view_stream (content.length + 1) r = .ok count r') :
    ∃ records trailer, IsDelta n records trailer content := by
  rcases (Viewing.view_stream_sim (content.length + 1)).calm feeds with ⟨_, _, rest, run, parsed, _⟩ | ⟨e, r'', run, _⟩
  · rw [bind_run] at parsed
    obtain ⟨⟨⟨records, trailer⟩, t⟩, accepted, _⟩ := Option.bind_eq_some_iff.mp parsed
    exact ⟨records, trailer, ((delta_run (Nat.lt_succ_self _) records trailer t).mp accepted).1⟩
  · rw [viewed] at run
    cases run

theorem view_accepted (holds : s.Holds env p content) (calm : env.media p = {})
    (accepted : DeltaViewer.view_delta env p s = 0) :
    ∃ records trailer, IsDelta BLAKE2B_HASH_SIZE records trailer content := by
  unfold DeltaViewer.view_delta at accepted
  rcases opened : FileIo.open_in env p s with ⟨succeeded, f, s'⟩
  rw [opened] at accepted
  cases succeeded with
  | false => cases accepted
  | true =>
    obtain rfl := Calm.open_in_holds holds calm opened
    have reach : (FileIo.opened content none true).f_.reach = content.length := by simp [FStream.reach, FileIo.opened]
    dsimp only at accepted
    rw [reach] at accepted
    cases viewed : DeltaViewer.view_stream (content.length + 1) (DeltaViewer.reader (FileIo.opened content none true)) with
    | ok count r' => exact viewed_shape ⟨Calm.opened_feeds true, rfl⟩ viewed
    | error e r' =>
      rw [viewed, DeltaViewer.exit_code] at accepted
      split at accepted <;> cases accepted

/-- Whatever the old file is and whatever else fails, a delta that was applied
    is one. -/
theorem apply_accepted {T : RollingHash} {U : StrongHash} {old_file_path output : Path} {max_output_bytes : Nat}
    (holds : s.Holds env p content) (calm : env.media p = {})
    (accepted : ∃ stats, (Apply.apply_delta env T U old_file_path p output max_output_bytes s).result = .ok stats) :
    ∃ records trailer, IsDelta U.get_hash_size records trailer content := by
  obtain ⟨stats, accepted⟩ := accepted
  unfold Apply.apply_delta at accepted
  have untouched := Calm.open_in_untouched env old_file_path s
  generalize FileIo.open_in env old_file_path s = r at accepted untouched
  obtain ⟨succeeded, f, s₁⟩ := r
  cases succeeded with
  | false => cases accepted
  | true =>
    have holds₁ : s₁.Holds env p content := by
      obtain ⟨inode, leads, data⟩ := holds
      have same : s₁.fs = s.fs := untouched.fs
      exact ⟨inode, by rw [same]; exact leads, by rw [same]; exact data⟩
    rcases opened : FileIo.open_in env p s₁ with ⟨succeeded, g, s₂⟩
    simp only [opened] at accepted
    cases succeeded with
    | false => cases accepted
    | true =>
      obtain rfl := Calm.open_in_holds holds₁ calm opened
      have reach : (FileIo.opened content none true).f_.reach = content.length := by simp [FStream.reach, FileIo.opened]
      simp only [reach, Apply.apply_opened, Apply.staging] at accepted
      split at accepted
      · cases accepted
      · next s₃ staged =>
        have same : s₃.reader = Apply.reader U (FileIo.opened content none true) := by
          split at staged
          · obtain ⟨_, rfl⟩ := EStateM.Result.ok.inj staged
            rfl
          · cases staged
        have lockstep := reconstruct_follows (T := T) (p := old_file_path) (content.length + 1) max_output_bytes s₃
        split at accepted
        · cases accepted
        · next s₄ ran =>
          rw [ran] at lockstep
          obtain ⟨count, r, viewed, _⟩ := lockstep
          rw [same] at viewed
          exact viewed_shape ⟨Calm.opened_feeds true, rfl⟩ viewed

end

/-- Of a string and a proper prefix of it, the viewer accepts at most one, and
    the applier applies at most one, to whatever old files. -/
theorem no_prefix_accepted {env env' : Environment} {s s' : System} {p p' : Path} {d d' : List UInt8}
    (holds : s.Holds env p d) (holds' : s'.Holds env' p' d') (calm : env.media p = {}) (calm' : env'.media p' = {})
    (isPrefix : d <+: d') (proper : d ≠ d') :
    (DeltaViewer.view_delta env p s = 0 → DeltaViewer.view_delta env' p' s' ≠ 0) ∧
      (DeltaViewer.view_delta env' p' s' = 0 → DeltaViewer.view_delta env p s ≠ 0) ∧
      ∀ (T : RollingHash) (U : StrongHash) (old_file_path old_file_path' output output' : Path) (limit limit' : Nat),
        ((∃ stats, (Apply.apply_delta env T U old_file_path p output limit s).result = .ok stats) →
            ∃ e, (Apply.apply_delta env' T U old_file_path' p' output' limit' s').result = .error e) ∧
          ((∃ stats, (Apply.apply_delta env' T U old_file_path' p' output' limit' s').result = .ok stats) →
            ∃ e, (Apply.apply_delta env T U old_file_path p output limit s).result = .error e) := by
  obtain ⟨more, whole⟩ := isPrefix
  have unique : ∀ {n : Nat}, (∃ records trailer, IsDelta n records trailer d) →
      ¬ ∃ records trailer, IsDelta n records trailer d' := by
    rintro n ⟨records, trailer, shape⟩ ⟨records', trailer', shape'⟩
    exact proper (isDelta_unique shape shape' (by rw [whole, List.append_nil])).2.2.1
  have fails : ∀ {result : Except DeltaError ApplyStats}, (¬ ∃ stats, result = .ok stats) → ∃ e, result = .error e := by
    intro result never
    cases result with
    | ok stats => exact absurd ⟨stats, rfl⟩ never
    | error e => exact ⟨e, rfl⟩
  refine ⟨?_, ?_, ?_⟩
  · intro accepted accepted'
    exact unique (view_accepted holds calm accepted) (view_accepted holds' calm' accepted')
  · intro accepted' accepted
    exact unique (view_accepted holds calm accepted) (view_accepted holds' calm' accepted')
  · intro T U old_file_path old_file_path' output output' limit limit'
    constructor
    · intro accepted
      exact fails fun accepted' => unique (apply_accepted holds calm accepted) (apply_accepted holds' calm' accepted')
    · intro accepted'
      exact fails fun accepted => unique (apply_accepted holds calm accepted) (apply_accepted holds' calm' accepted')

/-- A delta with a byte after it. -/
def deltaAndMore : System := { fs := .holding [((0, "delta"), Viewing.mixedDelta), ((0, "more"), Viewing.mixedDelta ++ [0])] }

/-- `no_prefix_accepted` where a byte follows a delta with a record of each kind. -/
theorem no_prefix_accepted_byte : ¬ (DeltaViewer.view_delta {} ⟨"", "delta"⟩ deltaAndMore = 0 ∧
    DeltaViewer.view_delta {} ⟨"", "more"⟩ deltaAndMore = 0) := fun both =>
  (no_prefix_accepted (show System.Holds _ _ _ Viewing.mixedDelta from ⟨0, rfl, rfl⟩)
    (show System.Holds _ _ _ (Viewing.mixedDelta ++ [0]) from ⟨1, rfl, rfl⟩) rfl rfl (List.prefix_append _ _)
    (by decide)).1 both.1 both.2

end Roll.Lockstep
