import Roll.Certifying
import Roll.Limiting
import Roll.Signing

/-!
How much a delta can make of its own bytes: an entry yields a chunk at most, and a
record has no fewer bytes than its tag, a number and its digest.
-/
namespace Roll.Amplifying
open Roll.Parsing Roll.Outcome Roll.Grammar Roll.Evaluation Roll.Counting Roll.Committing Roll.Staging Roll.Framing
  Roll.Failing Roll.Certifying

variable {U : StrongHash}

/-! ### Reading -/

theorem pull_short (n : Nat) (f : FileIo) : (f.pull n).1.length ≤ n := by
  have available : ∀ st : FStream, ((st.data.drop st.pos).take n).length ≤ n := fun st => List.length_take_le _ _
  unfold FileIo.pull FStream.read
  dsimp only
  split
  · exact Nat.zero_le _
  · split
    · exact Nat.le_trans (List.length_take_le' _ _) (available _)
    · exact available _

theorem read_step_short (step : Nat) (f : FileIo) : (f.read_step step).1.length ≤ step := by
  have front : ((f.rbuf_.drop f.rpos_).take (min step (f.rlen_ - f.rpos_))).length ≤ min step (f.rlen_ - f.rpos_) :=
    List.length_take_le _ _
  unfold FileIo.read_step
  dsimp only
  split
  · have more := pull_short (step - min step (f.rlen_ - f.rpos_)) { f with rpos_ := f.rpos_ + min step (f.rlen_ - f.rpos_) }
    rw [List.length_append]
    omega
  · exact Nat.le_trans front (Nat.min_le_left _ _)

theorem read_steps_short (n : Nat) : ∀ (fuel : Nat) (vec : List UInt8) (f : FileIo), vec.length ≤ n →
    (FileIo.read_steps n fuel vec f).1.length ≤ n := by
  intro fuel
  induction fuel with
  | zero => exact fun vec f short => short
  | succ fuel ih =>
    intro vec f short
    unfold FileIo.read_steps
    split
    · have step := read_step_short (min (n - vec.length) FileIo.READ_BUFFER_SIZE) f
      have grown : (vec ++ (f.read_step (min (n - vec.length) FileIo.READ_BUFFER_SIZE)).1).length ≤ n := by
        rw [List.length_append]
        omega
      dsimp only
      split
      · exact grown
      · exact ih _ _ grown
    · exact short

/-- No more is read than was asked for. -/
theorem read_chunk_short (n : Nat) (f : FileIo) : (f.read_chunk n).1.length ≤ n := by
  unfold FileIo.read_chunk
  split
  · exact Nat.zero_le _
  · split
    · exact Nat.zero_le _
    · exact read_steps_short n n [] f (Nat.zero_le _)

theorem read_chunk_at_short (n p : Nat) (f : FileIo) : (f.read_chunk_at n p).1.length ≤ n := by
  unfold FileIo.read_chunk_at
  dsimp only
  split
  · exact Nat.zero_le _
  · split
    · exact Nat.zero_le _
    · exact read_chunk_short n _

/-! ### The chunks of the old file -/

/-- The chunks emitted so far and the one at hand are within the maximum. -/
structure Small (s : Signature.Chunker RKFinger.rolling U) : Prop where
  window : RKFinger.get_window_size s.fingerprint = WINDOW_DEF_SIZE
  emitted : ∀ c ∈ s.chunks, c.chunk_size ≤ DELTA_MAX_CHUNK_SIZE
  short : s.chunk.length ≤ DELTA_MAX_CHUNK_SIZE

variable {s : Signature.Chunker RKFinger.rolling U}

theorem initialize_window_size (initial : List UInt8) (r : RKFinger) :
    (r.initialize_window initial).2.window_size_ = r.window_size_ := by
  have each : ∀ (bytes : List UInt8) (r : RKFinger), (bytes.foldl RKFinger.absorb r).window_size_ = r.window_size_ := by
    intro bytes
    induction bytes with
    | nil => exact fun r => rfl
    | cons byte bytes ih =>
      intro r
      rw [List.foldl_cons, ih]
      rfl
  exact each _ _

theorem fresh_window : RKFinger.get_window_size RKFinger.default = WINDOW_DEF_SIZE := by
  decide

theorem emit_chunk_small (small : Small s) : Small (Signature.emit_chunk s) := by
  refine ⟨small.window, ?_, small.short⟩
  intro c member
  rcases List.mem_append.mp member with old | new
  · exact small.emitted c old
  · rw [List.mem_singleton.mp new]
    exact small.short

theorem next_window_small (small : Small s) : Small (Signature.next_window s).2 ∧
    ((Signature.next_window s).1 = true → (Signature.next_window s).2.chunk.length < DELTA_MAX_CHUNK_SIZE) := by
  have size : RKFinger.rolling.get_window_size s.fingerprint = WINDOW_DEF_SIZE := small.window
  have short := read_chunk_short WINDOW_DEF_SIZE s.file
  unfold Signature.next_window
  rw [size]
  generalize s.file.read_chunk WINDOW_DEF_SIZE = r at short ⊢
  obtain ⟨next, file⟩ := r
  have room : WINDOW_DEF_SIZE < DELTA_MAX_CHUNK_SIZE := by decide
  dsimp only at short ⊢
  split
  · exact ⟨⟨small.window, small.emitted, small.short⟩, fun impossible => by cases impossible⟩
  · refine ⟨⟨?_, small.emitted, ?_⟩, fun _ => ?_⟩
    · exact (initialize_window_size next s.fingerprint).trans small.window
    · exact Nat.le_trans short (Nat.le_of_lt room)
    · exact Nat.lt_of_le_of_lt short room

theorem loop_small : ∀ (fuel : Nat) (init : Bool) (s : Signature.Chunker RKFinger.rolling U), Small s →
    (init = false → s.chunk.length < DELTA_MAX_CHUNK_SIZE) → Small (Signature.loop fuel init s) := by
  intro fuel
  induction fuel with
  | zero => exact fun init s small _ => small
  | succ fuel ih =>
    intro init s small room
    have windowed : Small (if init then Signature.next_window s else (true, s)).2 ∧
        ((if init then Signature.next_window s else (true, s)).1 = true →
          (if init then Signature.next_window s else (true, s)).2.chunk.length < DELTA_MAX_CHUNK_SIZE) := by
      cases init with
      | false => exact ⟨small, fun _ => room rfl⟩
      | true => exact next_window_small small
    unfold Signature.loop
    generalize (if init then Signature.next_window s else (true, s)) = r at windowed ⊢
    obtain ⟨more, s'⟩ := r
    obtain ⟨small', room'⟩ := windowed
    cases more with
    | false => exact small'
    | true =>
      dsimp only at small' room' ⊢
      have room' := room' rfl
      obtain ⟨byte, file⟩ := s'.file.read_byte
      cases byte with
      | none => exact ⟨small'.window, small'.emitted, small'.short⟩
      | some byte =>
        have grown : (s'.chunk ++ [byte]).length ≤ DELTA_MAX_CHUNK_SIZE := by
          rw [List.length_append, List.length_singleton]
          exact room'
        dsimp only
        split
        · have emitted := emit_chunk_small (s := Signing.pushed s' file byte) ⟨small'.window, small'.emitted, grown⟩
          exact ih true _ ⟨emitted.window, emitted.emitted, Nat.zero_le _⟩ (fun impossible => by cases impossible)
        · next unfound =>
          refine ih false _ ⟨small'.window, small'.emitted, grown⟩ fun _ => ?_
          by_contra large
          exact unfound (if_pos (Nat.not_lt.mp large))

theorem finish_small {sig : Signature} {file : FileIo} (small : Small s) (done : Signature.finish s = (true, sig, file)) :
    ∀ c ∈ sig.get_chunks, c.chunk_size ≤ DELTA_MAX_CHUNK_SIZE := by
  unfold Signature.finish at done
  split at done
  · cases done
  · obtain ⟨rfl, _⟩ := Prod.mk.inj (Prod.mk.inj done).2
    exact small.emitted

/-- Whatever happens to the file, a chunk of it has no more than the maximum. -/
theorem generate_small {file file' : FileIo} {mode : WholeFileHash} {sig : Signature}
    (done : Signature.generate_signatures RKFinger.rolling U file mode = (true, sig, file')) :
    ∀ c ∈ sig.get_chunks, c.chunk_size ≤ DELTA_MAX_CHUNK_SIZE := by
  have short := read_chunk_at_short WINDOW_DEF_SIZE 0 file
  have nothing : ∀ c ∈ ([] : List SignedChunk), c.chunk_size ≤ DELTA_MAX_CHUNK_SIZE := fun c member => by cases member
  have size : RKFinger.rolling.get_window_size RKFinger.rolling.fresh = WINDOW_DEF_SIZE := fresh_window
  have room : WINDOW_DEF_SIZE < DELTA_MAX_CHUNK_SIZE := by decide
  unfold Signature.generate_signatures at done
  rw [size] at done
  split at done
  · cases done
  · generalize (if mode = .Compute then some U.init else none) = whole at done
    generalize file.read_chunk_at WINDOW_DEF_SIZE 0 = r at short done
    obtain ⟨initial, file⟩ := r
    dsimp only at short done
    split at done
    · exact finish_small (s := ⟨_, _, _, _, _, _, _⟩) ⟨size, nothing, Nat.zero_le _⟩ done
    · have seeded := (initialize_window_size initial RKFinger.default).trans fresh_window
      have begun : Small (U := U)
          { file, fingerprint := (RKFinger.default.initialize_window initial).2, chunk := initial
            current_fingerprint := RKFinger.get_current_fingerprint (RKFinger.default.initialize_window initial).2
            bytes_read := initial.length, chunks := [], whole } :=
        ⟨seeded, nothing, Nat.le_trans short (Nat.le_of_lt room)⟩
      split at done
      · exact finish_small (emit_chunk_small begun) done
      · have ended := loop_small (file.f_.reach + 1) false _ begun fun _ => Nat.lt_of_le_of_lt short room
        split at done
        · exact finish_small (emit_chunk_small ended) done
        · exact finish_small ended done

/-! ### The entries -/

section
variable {T : RollingHash} {n N limit : Nat} {s s' : ApplyState U}

theorem read_size_bounded {r r' : DeltaReader} {size : UInt64} (run : DeltaReader.read_size r = .ok size r') :
    size.toNat ≤ DELTA_MAX_CHUNK_SIZE := by
  unfold DeltaReader.read_size at run
  obtain ⟨size', r₁, _, run⟩ := bind_success run
  obtain ⟨_, r₂, checked, run⟩ := bind_success run
  obtain ⟨rfl, _⟩ := EStateM.Result.ok.inj run
  unfold DeltaReader.fail_if at checked
  split at checked
  · cases checked
  · next within => simpa using within

theorem read_fields_bounded {type : EntryType} {r r' : DeltaReader} {header : DeltaEntryHeader}
    (run : DeltaReader.read_fields type r = .ok header r') : header.out_size.toNat ≤ DELTA_MAX_CHUNK_SIZE := by
  have ends : ∀ {old_index out_size : UInt64} {r : DeltaReader}, out_size.toNat ≤ DELTA_MAX_CHUNK_SIZE →
      (do
        let digest ← DeltaReader.read_exact DELTA_DIGEST_BYTES "Truncated delta: missing entry digest"
        pure ({ type, old_index, out_size, digest } : DeltaEntryHeader)) r = .ok header r' →
        header.out_size.toNat ≤ DELTA_MAX_CHUNK_SIZE := by
    intro old_index out_size r within run
    obtain ⟨digest, r₁, _, run⟩ := bind_success run
    obtain ⟨rfl, _⟩ := EStateM.Result.ok.inj run
    exact within
  have sized : ∀ {old_index : UInt64} {r : DeltaReader},
      (do
        let out_size ← if type ≠ EntryType.ORIGINAL_CHUNK then DeltaReader.read_size else pure 0
        let digest ← DeltaReader.read_exact DELTA_DIGEST_BYTES "Truncated delta: missing entry digest"
        pure ({ type, old_index, out_size, digest } : DeltaEntryHeader)) r = .ok header r' →
        header.out_size.toNat ≤ DELTA_MAX_CHUNK_SIZE := by
    intro old_index r run
    split at run
    · obtain ⟨out_size, r₁, first, run⟩ := bind_success run
      exact ends (read_size_bounded first) run
    · exact ends (Nat.zero_le _) run
  unfold DeltaReader.read_fields at run
  split at run
  · obtain ⟨old_index, r₁, _, run⟩ := bind_success run
    exact sized run
  · exact sized run

/-- The size that an entry declares is checked at once. -/
theorem read_entry_header_bounded {r r' : DeltaReader} {header : DeltaEntryHeader}
    (run : DeltaReader.read_entry_header r = .ok header r') : header.out_size.toNat ≤ DELTA_MAX_CHUNK_SIZE := by
  unfold DeltaReader.read_entry_header at run
  obtain ⟨tag, r₁, _, run⟩ := bind_success run
  cases tag with
  | none => cases run
  | some tag =>
    obtain ⟨_, r₂, _, run⟩ := bind_success run
    obtain ⟨out, r₃, read, run⟩ := bind_success run
    obtain ⟨_, r₄, _, run⟩ := bind_success run
    obtain ⟨rfl, _⟩ := EStateM.Result.ok.inj run
    exact read_fields_bounded read

theorem read_payload_length {r r' : DeltaReader} {count : Nat} {payload : List UInt8}
    (run : DeltaReader.read_payload count r = .ok payload r') : payload.length = count := by
  unfold DeltaReader.read_payload at run
  obtain ⟨out, r₁, exact', run⟩ := bind_success run
  obtain ⟨_, r₂, _, run⟩ := bind_success run
  obtain ⟨rfl, _⟩ := EStateM.Result.ok.inj run
  unfold DeltaReader.read_exact at exact'
  obtain ⟨out', r₃, _, run⟩ := bind_success exact'
  obtain ⟨_, r₄, checked, run⟩ := bind_success run
  obtain ⟨rfl, _⟩ := EStateM.Result.ok.inj run
  unfold DeltaReader.fail_if at checked
  split at checked
  · cases checked
  · next same => simpa using same

theorem find_source_mem {chunks : List SignedChunk} {header : DeltaEntryHeader} {source : SignedChunk}
    (run : Apply.find_source chunks header s = .ok source s') : source ∈ chunks := by
  unfold Apply.find_source at run
  cases found : chunks[header.old_index.toNat]? with
  | none =>
    rw [found] at run
    cases run
  | some source' =>
    rw [found] at run
    obtain ⟨rfl, _⟩ := EStateM.Result.ok.inj run
    exact List.mem_of_getElem? found

theorem read_source_length {source : SignedChunk} {message : String} {data : List UInt8}
    (run : Apply.read_source source message s = .ok data s') : data.length = source.chunk_size := by
  unfold Apply.read_source at run
  generalize s.old_file.read_chunk_at source.chunk_size source.start_offset = r at run
  obtain ⟨data', file⟩ := r
  by_cases failed : (file.has_error || data'.length ≠ source.chunk_size) = true
  · simp only [if_pos failed] at run
    cases run
  · simp only [if_neg failed] at run
    obtain ⟨rfl, _⟩ := EStateM.Result.ok.inj run
    simp only [Bool.or_eq_true, decide_eq_true_eq, not_or, not_not] at failed
    exact failed.2

theorem applyDiff_length {old_data out : List UInt8} {target_size : Nat}
    (run : Apply.applyDiff N old_data target_size s = .ok out s') : out.length = target_size := by
  unfold Apply.applyDiff at run
  obtain ⟨d, s₁, _, run⟩ := bind_success run
  obtain ⟨output, s₂, _, run⟩ := bind_success run
  split at run
  · next same =>
    obtain ⟨rfl, _⟩ := EStateM.Result.ok.inj run
    exact same
  · cases run

/-- What an entry yields is within the maximum of a chunk. -/
theorem produce_short {chunks : List SignedChunk} {header : DeltaEntryHeader} {out : List UInt8}
    (small : ∀ c ∈ chunks, c.chunk_size ≤ DELTA_MAX_CHUNK_SIZE) (declared : header.out_size.toNat ≤ DELTA_MAX_CHUNK_SIZE)
    (run : Apply.produce N chunks header s = .ok out s') : out.length ≤ DELTA_MAX_CHUNK_SIZE := by
  unfold Apply.produce at run
  cases type : header.type with
  | ORIGINAL_CHUNK =>
    rw [type] at run
    obtain ⟨source, s₁, found, run⟩ := bind_success run
    obtain ⟨_, s₂, _, run⟩ := bind_success run
    rw [read_source_length run]
    exact small source (find_source_mem found)
  | ADDED_CHUNK =>
    rw [type] at run
    obtain ⟨produced, s₁, first, run⟩ := bind_success run
    obtain ⟨_, s₂, _, run⟩ := bind_success run
    obtain ⟨rfl, _⟩ := EStateM.Result.ok.inj run
    rw [read_payload_length (reading_kept first).1]
    exact declared
  | MODIFIED_CHUNK =>
    rw [type] at run
    obtain ⟨source, s₁, _, run⟩ := bind_success run
    obtain ⟨old_data, s₂, _, run⟩ := bind_success run
    obtain ⟨produced, s₃, patched, run⟩ := bind_success run
    obtain ⟨_, s₄, _, run⟩ := bind_success run
    obtain ⟨rfl, _⟩ := EStateM.Result.ok.inj run
    rw [applyDiff_length patched]
    exact declared

/-- The bytes written are within one chunk for each entry. -/
def Proportionate (s : ApplyState U) : Prop := s.stats.bytes_written ≤ DELTA_MAX_CHUNK_SIZE * s.stats.entries_processed

theorem proportionate_stats (same : s'.stats = s.stats) (before : Proportionate s) : Proportionate s' := by
  unfold Proportionate at before ⊢
  rwa [same]

theorem deliver_proportionate {produced : List UInt8} {a : Unit} (short : produced.length ≤ DELTA_MAX_CHUNK_SIZE)
    (run : Apply.deliver limit produced s = .ok a s') (before : Proportionate s) : Proportionate s' := by
  have written : s'.stats.bytes_written = s.stats.bytes_written + produced.length := Limiting.deliver_counts run
  have counted := (deliver_success run).2
  unfold Proportionate at before ⊢
  rw [written, counted, Nat.mul_succ]
  exact Nat.add_le_add before short

theorem items_proportionate {chunks : List SignedChunk} (small : ∀ c ∈ chunks, c.chunk_size ≤ DELTA_MAX_CHUNK_SIZE) :
    ∀ (left : Nat) (s : ApplyState U) {saw : Bool}, Apply.apply_items N chunks limit left s = .ok saw s' →
      Proportionate s → Proportionate s' := by
  intro left
  induction left with
  | zero =>
    intro s saw run
    cases run
  | succ left ih =>
    intro s saw run before
    unfold Apply.apply_items at run
    obtain ⟨item, s₁, first, run⟩ := bind_success run
    have before₁ := proportionate_stats (congrArg ApplyState.stats (reading_kept first).2) before
    cases item with
    | End =>
      obtain ⟨_, rfl⟩ := EStateM.Result.ok.inj run
      exact before₁
    | Trailer =>
      obtain ⟨trailer, s₂, second, run⟩ := bind_success run
      obtain ⟨_, s₃, third, run⟩ := bind_success run
      obtain ⟨_, rfl⟩ := EStateM.Result.ok.inj run
      rw [(check_trailer_success third).1]
      exact proportionate_stats (congrArg ApplyState.stats (reading_kept second).2) before₁
    | Entry =>
      obtain ⟨header, s₂, second, run⟩ := bind_success run
      obtain ⟨produced, s₃, third, run⟩ := bind_success run
      obtain ⟨_, s₄, fourth, run⟩ := bind_success run
      obtain ⟨header_read, kept⟩ := reading_kept second
      have short := produce_short small (read_entry_header_bounded header_read) third
      have before₂ := proportionate_stats (congrArg ApplyState.stats kept) before₁
      have before₃ := proportionate_stats (congrArg (fun d => d.2.2.2) ((frames_produce N chunks header).of_ok third)) before₂
      exact ih s₄ run (deliver_proportionate short fourth before₃)

theorem reconstruct_proportionate {p : Path} {a : Unit}
    (run : Apply.reconstruct RKFinger.rolling N p limit s = .ok a s') (before : Proportionate s) : Proportionate s' := by
  unfold Apply.reconstruct at run
  obtain ⟨_, s₁, first, run⟩ := bind_success run
  obtain ⟨chunks, s₂, second, run⟩ := bind_success run
  obtain ⟨saw, s₃, third, run⟩ := bind_success run
  obtain ⟨_, s₄, fourth, fifth⟩ := bind_success run
  have small : ∀ c ∈ chunks, c.chunk_size ≤ DELTA_MAX_CHUNK_SIZE := by
    unfold Apply.sign_old at second
    split at second
    · cases second
    · next done =>
      obtain ⟨rfl, _⟩ := EStateM.Result.ok.inj second
      exact generate_small done
  have signed : delivered s₂ = delivered s := ((frames_sign_old _ p).of_ok second).trans ((frames_reading _ _).of_ok first)
  have closed : delivered s' = delivered s₃ := (frames_close_inputs.of_ok fifth).trans ((frames_reading _ _).of_ok fourth)
  have looped := items_proportionate small _ s₂ third (proportionate_stats (congrArg (fun d => d.2.2.2) signed) before)
  exact proportionate_stats (congrArg (fun d => d.2.2.2) closed) looped

end

/-! ### The output -/

/-- The fewest bytes of a record. -/
def RECORD_MIN : Nat := 2 + DELTA_DIGEST_BYTES

theorem varint_some {value : UInt64} {w : List UInt8} (varint : IsVarint value w) : 1 ≤ w.length := by
  obtain ⟨init, last, rfl, _⟩ := varint
  rw [List.length_append, List.length_singleton]
  exact Nat.le_add_left _ _

theorem entry_long {header : DeltaEntryHeader} {w : List UInt8} (entry : IsEntry header w) : RECORD_MIN ≤ w.length := by
  unfold RECORD_MIN
  cases entry with
  | original index digest =>
    have := varint_some index
    simp only [List.length_cons, List.length_append, digest]
    omega
  | added size _ digest =>
    have := varint_some size
    simp only [List.length_cons, List.length_append, digest]
    omega
  | modified index size _ digest =>
    have := varint_some index
    simp only [List.length_cons, List.length_append, digest]
    omega

theorem record_long {r : Record} {w : List UInt8} (record : IsRecord r w) : RECORD_MIN ≤ w.length := by
  cases record with
  | original _ entry => exact entry_long entry
  | added _ entry _ =>
    rw [List.length_append]
    exact Nat.le_trans (entry_long entry) (Nat.le_add_right _ _)
  | modified _ entry _ _ =>
    rw [List.length_append]
    exact Nat.le_trans (entry_long entry) (Nat.le_add_right _ _)

theorem records_long {records : List Record} {w : List UInt8} (many : Many IsRecord records w) :
    RECORD_MIN * records.length ≤ w.length := by
  induction many with
  | nil => exact Nat.zero_le _
  | cons record _ ih =>
    rw [List.length_cons, List.length_append, Nat.mul_succ, Nat.add_comm]
    exact Nat.add_le_add (record_long record) ih

/-- A delta has room for so many records. -/
theorem delta_records {n : Nat} {records : List Record} {trailer content : List UInt8}
    (delta : IsDelta n records trailer content) :
    RECORD_MIN * records.length + (DELTA_HEADER_SIZE + 1 + n) ≤ content.length := by
  obtain ⟨_, rfl, u, rfl, many, rfl⟩ := delta
  have long := records_long many
  have header : (DELTA_MAGIC ++ push_u32_be [] DELTA_FORMAT_VERSION).length = DELTA_HEADER_SIZE := rfl
  rw [List.length_append, header, List.length_append, List.length_cons]
  omega

variable {env : Environment} {sys : System} {output : Path} {content : List UInt8}

theorem apply_delta_proportionate (old delta : Path) (limit : Nat) {stats : ApplyStats}
    (ok : (Apply.apply_delta env RKFinger.rolling U old delta output limit sys).result = .ok stats) :
    stats.bytes_written ≤ DELTA_MAX_CHUNK_SIZE * stats.entries_processed := by
  have opened : ∀ {fuel : Nat} {s : ApplyState U}, s.stats = {} →
      (Apply.apply_opened env RKFinger.rolling fuel old delta output limit s).result = .ok stats →
      stats.bytes_written ≤ DELTA_MAX_CHUNK_SIZE * stats.entries_processed := by
    intro fuel s fresh ok
    cases first : Apply.staging (OutputTransaction.open_ env output [old, delta]) s with
    | error e s₁ =>
      unfold Apply.apply_opened at ok
      rw [first] at ok
      cases ok
    | ok _ s₁ =>
      obtain ⟨s₂, run, rfl⟩ := Limiting.opened_success first ok
      have begun : Proportionate s₁ := by
        rw [Proportionate, (Limiting.staging_kept first).1, fresh]
        exact Nat.le_refl 0
      exact reconstruct_proportionate run begun
  unfold Apply.apply_delta at ok
  split at ok
  · cases ok
  · split at ok
    · cases ok
    · exact opened rfl ok

/-- Whatever the files hold and whatever fails, an application that succeeds has written
    at most one chunk of the largest size for each 18 bytes of its delta. -/
theorem amplification_is_bounded {delta : Path} (stays : Stays env sys delta content) (old output : Path) (limit : Nat) :
    let run := Apply.apply_delta env RKFinger.rolling U old delta output limit sys
    ∀ stats, run.result = .ok stats →
      RECORD_MIN * stats.bytes_written + DELTA_MAX_CHUNK_SIZE * (DELTA_HEADER_SIZE + 1 + U.get_hash_size) ≤
        DELTA_MAX_CHUNK_SIZE * content.length := by
  intro run stats ok
  obtain ⟨records, trailer, shape, entries⟩ := apply_delta_reads stays ok
  have written := apply_delta_proportionate old delta limit ok
  have room := delta_records shape
  rw [entries] at written
  calc RECORD_MIN * stats.bytes_written + DELTA_MAX_CHUNK_SIZE * (DELTA_HEADER_SIZE + 1 + U.get_hash_size)
      ≤ RECORD_MIN * (DELTA_MAX_CHUNK_SIZE * records.length) + DELTA_MAX_CHUNK_SIZE * (DELTA_HEADER_SIZE + 1 + U.get_hash_size) :=
        Nat.add_le_add_right (Nat.mul_le_mul_left _ written) _
    _ = DELTA_MAX_CHUNK_SIZE * (RECORD_MIN * records.length + (DELTA_HEADER_SIZE + 1 + U.get_hash_size)) := by
        rw [Nat.mul_add DELTA_MAX_CHUNK_SIZE (RECORD_MIN * records.length), Nat.mul_left_comm]
    _ ≤ DELTA_MAX_CHUNK_SIZE * content.length := Nat.mul_le_mul_left _ room

/-- Two references to the one chunk of the old file. -/
def twice : List UInt8 :=
  Call.header.bytes ++ (Call.original 0 (StrongHash.padded.digest [7])).bytes ++
    (Call.original 0 (StrongHash.padded.digest [7])).bytes ++ (Call.trailer (StrongHash.padded.hash [7, 7])).bytes

def byteTwice : System := { fs := .holding [((0, "old"), [7]), ((0, "delta"), twice)] }

/-- `amplification_is_bounded` for a delta that makes a chunk of it twice. -/
theorem twice_is_bounded : RECORD_MIN * 2 + DELTA_MAX_CHUNK_SIZE * (DELTA_HEADER_SIZE + 1 + 64) ≤
    DELTA_MAX_CHUNK_SIZE * twice.length := by
  have ok : (Apply.apply_delta {} RKFinger.rolling .padded ⟨"", "old"⟩ ⟨"", "delta"⟩ ⟨"", "out"⟩ UINT64_MAX byteTwice).result =
      .ok { entries_processed := 2, bytes_written := 2 } := by decide +kernel
  exact amplification_is_bounded ⟨⟨1, rfl, rfl⟩, rfl, fun k bad => by cases bad⟩ ⟨"", "old"⟩ ⟨"", "out"⟩ UINT64_MAX _ ok

end Roll.Amplifying
