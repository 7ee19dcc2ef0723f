import Roll.Apply
import Roll.Delta
import Roll.Outcome

/-!
What the applier and the generator leave alone: only the delivery of an output
touches the output of an application, and only the writer that of a generation.
-/
namespace Roll.Framing
open Roll.Parsing Roll.Outcome

/-! ### The applier -/

section
variable {U : StrongHash} {α : Type}

/-- What only the delivery of an output changes. -/
def delivered (s : ApplyState U) : OutputTransaction × System × U.State × ApplyStats :=
  (s.transaction, s.system, s.whole_file_hash, s.stats)

theorem frames_reading (code : DeltaReader → DeltaErrc) (m : ReadM α) : Frames delivered (Apply.reading (U := U) code m) := by
  intro s
  unfold Apply.reading
  cases m s.reader <;> rfl

theorem frames_fail_if (condition : Bool) (code : DeltaErrc) (message : String) :
    Frames delivered (Apply.fail_if (U := U) condition code message) := by
  cases condition with
  | true => exact frames_throw _
  | false => exact frames_pure ()

theorem frames_read_source (source : SignedChunk) (message : String) :
    Frames delivered (Apply.read_source (U := U) source message) := by
  intro s
  unfold Apply.read_source
  rcases s.old_file.read_chunk_at source.chunk_size source.start_offset with ⟨data, file⟩
  dsimp only
  split <;> rfl

theorem frames_patching (step : Except String α) : Frames delivered (Apply.patching (U := U) step) := by
  cases step with
  | ok a => exact frames_pure a
  | error message => exact frames_throw _

theorem frames_opcodes (data : List UInt8) (target_size : Nat) : ∀ (fuel seen : Nat) (d : DiffState),
    Frames delivered (Apply.apply_opcodes (U := U) data target_size fuel seen d) := by
  intro fuel
  induction fuel with
  | zero =>
    intro seen d
    exact frames_throw _
  | succ fuel ih =>
    intro seen d
    unfold Apply.apply_opcodes
    refine frames_bind (frames_reading _ _) (fun more => ?_)
    cases more with
    | true =>
      exact frames_bind (frames_reading _ _) fun o => frames_bind (frames_patching _) fun d' => ih _ d'
    | false => exact frames_bind (frames_reading _ _) fun _ => frames_pure d

theorem frames_applyDiff (fuel : Nat) (data : List UInt8) (target_size : Nat) :
    Frames delivered (Apply.applyDiff (U := U) fuel data target_size) := by
  unfold Apply.applyDiff
  refine frames_bind (frames_opcodes _ _ _ _ _) (fun d => frames_bind (frames_patching _) fun output => ?_)
  split
  · exact frames_pure output
  · exact frames_throw _

theorem frames_find_source (chunks : List SignedChunk) (header : DeltaEntryHeader) :
    Frames delivered (Apply.find_source (U := U) chunks header) := by
  unfold Apply.find_source
  split
  · exact frames_pure _
  · exact frames_throw _

theorem frames_produce (fuel : Nat) (chunks : List SignedChunk) (header : DeltaEntryHeader) :
    Frames delivered (Apply.produce (U := U) fuel chunks header) := by
  unfold Apply.produce
  cases header.type with
  | ORIGINAL_CHUNK =>
    exact frames_bind (frames_find_source _ _) fun source =>
      frames_bind (frames_fail_if _ _ _) fun _ => frames_read_source _ _
  | ADDED_CHUNK =>
    exact frames_bind (frames_reading _ _) fun produced => frames_bind (frames_fail_if _ _ _) fun _ => frames_pure produced
  | MODIFIED_CHUNK =>
    exact frames_bind (frames_find_source _ _) fun source => frames_bind (frames_read_source _ _) fun data =>
      frames_bind (frames_applyDiff _ _ _) fun produced => frames_bind (frames_fail_if _ _ _) fun _ => frames_pure produced

theorem frames_check_trailer (trailer : List UInt8) : Frames delivered (Apply.check_trailer (U := U) trailer) := by
  intro s
  unfold Apply.check_trailer
  split <;> rfl

theorem frames_sign_old (T : RollingHash) (p : Path) : Frames delivered (Apply.sign_old (U := U) T p) := by
  intro s
  unfold Apply.sign_old
  rcases Signature.generate_signatures T U s.old_file .Skip with ⟨_ | _, sig, file⟩ <;> rfl

theorem frames_close_inputs : Frames delivered (Apply.close_inputs (U := U)) := by
  intro s
  unfold Apply.close_inputs
  rcases s.old_file.close with ⟨_ | _, file⟩
  · rfl
  · rcases s.reader.in_.close with ⟨_ | _, delta⟩ <;> rfl

section
variable {Q : OutputTransaction × System × U.State × ApplyStats → Prop} {max_output_bytes : Nat}
  (delivers : ∀ produced, Keeps (fun s => Q (delivered s)) (Apply.deliver (U := U) max_output_bytes produced))
include delivers

/-- What every delivery keeps, the loop over the items keeps. -/
theorem keeps_items (fuel : Nat) (chunks : List SignedChunk) (left : Nat) :
    Keeps (fun s => Q (delivered s)) (Apply.apply_items (U := U) fuel chunks max_output_bytes left) := by
  induction left with
  | zero => exact keeps_throw _
  | succ left ih =>
    unfold Apply.apply_items
    refine keeps_bind ((frames_reading _ _).keeps Q) (fun item => ?_)
    cases item with
    | End => exact keeps_pure false
    | Trailer =>
      exact keeps_bind ((frames_reading _ _).keeps Q) fun trailer =>
        keeps_bind ((frames_check_trailer trailer).keeps Q) fun _ => keeps_pure true
    | Entry =>
      exact keeps_bind ((frames_reading _ _).keeps Q) fun header =>
        keeps_bind ((frames_produce fuel chunks header).keeps Q) fun produced => keeps_bind (delivers produced) fun _ => ih

/-- What every delivery keeps, the whole reconstruction keeps. -/
theorem keeps_reconstruct (T : RollingHash) (fuel : Nat) (p : Path) :
    Keeps (fun s => Q (delivered s)) (Apply.reconstruct (U := U) T fuel p max_output_bytes) := by
  unfold Apply.reconstruct
  exact keeps_bind ((frames_reading _ _).keeps Q) fun _ => keeps_bind ((frames_sign_old T p).keeps Q) fun chunks =>
    keeps_bind (keeps_items delivers fuel chunks fuel) fun saw => keeps_bind ((frames_reading _ _).keeps Q) fun _ =>
      frames_close_inputs.keeps Q

end

end

/-! ### The generator -/

section

/-- What only the writer changes. -/
def written (s : GenerateState) : OutputTransaction × System × Nat := (s.transaction, s.system, s.bytes_written)

theorem frames_read_at (input : Delta.Input) (n position : Nat) : Frames written (Delta.read_at input n position) := by
  intro s
  unfold Delta.read_at
  rcases (Delta.handle s input).read_chunk_at n position with ⟨data, f⟩
  cases input <;> rfl

theorem frames_size_of (input : Delta.Input) : Frames written (Delta.size_of input) := fun _ => rfl

theorem frames_check (condition : Bool) (code : DeltaErrc) (message : String) :
    Frames written (Delta.fail_if condition code message) := by
  cases condition with
  | true => exact frames_throw _
  | false => exact frames_pure ()

theorem frames_readSignedChunk (U : StrongHash) (input : Delta.Input) (chunk : SignedChunk) :
    Frames written (Delta.readSignedChunk U input chunk) := by
  unfold Delta.readSignedChunk
  refine frames_bind (frames_read_at _ _ _) (fun r => ?_)
  exact frames_bind (frames_check _ _ _) fun _ => frames_bind (frames_check _ _ _) fun _ => frames_pure r.1

theorem frames_probe_end (input : Delta.Input) (message : String) : Frames written (Delta.probe_end input message) := by
  unfold Delta.probe_end
  exact frames_bind (frames_size_of _) fun _ => frames_bind (frames_read_at _ _ _) fun _ => frames_check _ _ _

theorem frames_verifyOldFile (U : StrongHash) (chunks : List SignedChunk) :
    Frames written (Delta.verifyOldFile U chunks) := by
  have verify : ∀ chunks, Frames written (Delta.verify_chunks U chunks) := by
    intro chunks
    induction chunks with
    | nil => exact frames_pure ()
    | cons chunk rest ih => exact frames_bind (frames_readSignedChunk _ _ _) fun _ => ih
  exact frames_bind (verify chunks) fun _ => frames_probe_end _ _

theorem frames_hash_chunks (U : StrongHash) : ∀ (chunks : List SignedChunk) (state : U.State),
    Frames written (Delta.hash_chunks U chunks state) := by
  intro chunks
  induction chunks with
  | nil =>
    intro state
    exact frames_pure state
  | cons chunk rest ih =>
    intro state
    exact frames_bind (frames_readSignedChunk _ _ _) fun data => ih _

theorem frames_find_reusable (chunks : List SignedChunk) (i : Nat) (chunk : SignedChunk) :
    Frames written (Delta.find_reusable chunks i chunk) := by
  intro s
  unfold Delta.find_reusable
  split <;> rfl

theorem frames_create_diff (old_data new_data : List UInt8) : Frames written (Delta.create_diff old_data new_data) := by
  intro s
  unfold Delta.create_diff
  split <;> rfl

theorem frames_count_chunk : Frames written Delta.count_chunk := fun _ => rfl

theorem frames_check_sizes (old_chunks new_chunks : List SignedChunk) :
    Frames written (Delta.check_sizes old_chunks new_chunks) := by
  unfold Delta.check_sizes
  exact frames_bind (frames_size_of _) fun _ => frames_bind (frames_size_of _) fun _ => frames_check _ _ _

theorem frames_build_index (chunks : List SignedChunk) : Frames written (Delta.build_index chunks) := fun _ => rfl

theorem frames_closed : Frames written Delta.close_inputs := by
  intro s
  unfold Delta.close_inputs
  rcases s.old.close with ⟨_ | _, f⟩
  · rfl
  · rcases s.file.close with ⟨_ | _, g⟩ <;> rfl

variable {Q : OutputTransaction × System × Nat → Prop}

theorem writing_bind (m : WriteM Unit) (f : Unit → WriteM Unit) :
    Delta.writing (m >>= f) = Delta.writing m >>= fun _ => Delta.writing (f ()) := by
  funext s
  cases run : m { out_ := s.transaction.file_, bytes_written_ := s.bytes_written } with
  | ok a w =>
    have first : Delta.writing m s =
        .ok () { s with transaction := { s.transaction with file_ := w.out_ }, bytes_written := w.bytes_written_ } := by
      simp only [Delta.writing, run]
    rw [bind_ok first]
    simp only [Delta.writing, bind_ok run]
  | error e w =>
    have first : Delta.writing m s = .error ⟨.io_error, e⟩
        { s with transaction := { s.transaction with file_ := w.out_ }, bytes_written := w.bytes_written_ } := by
      simp only [Delta.writing, run]
    rw [bind_error first]
    simp only [Delta.writing, bind_error run]

theorem frames_writing_pure : Frames written (Delta.writing (pure ())) := fun _ => rfl

theorem frames_writing_throw (e : String) : Frames written (Delta.writing (throw e)) := fun _ => rfl

variable {Q : OutputTransaction × System × Nat → Prop}
  (emits : ∀ bytes what, Keeps (fun s => Q (written s)) (Delta.writing (DeltaWriter.emit bytes what)))
include emits

/-- What every block that is emitted keeps, every record keeps. -/
theorem keeps_emitRecord (type : EntryType) (fields : List UInt64) (digest body : List UInt8) (what : String) :
    Keeps (fun s => Q (written s)) (Delta.writing (DeltaWriter.emitRecord type fields digest body what)) := by
  unfold DeltaWriter.emitRecord
  split
  · exact (frames_writing_throw _).keeps Q
  · rw [writing_bind]
    refine keeps_bind (emits _ _) (fun _ => ?_)
    split
    · exact frames_writing_pure.keeps Q
    · exact emits _ _

theorem keeps_write_changed (chunks : List SignedChunk) (i : Nat) (chunk : SignedChunk) (new_data : List UInt8) :
    Keeps (fun s => Q (written s)) (Delta.write_changed chunks i chunk new_data) := by
  unfold Delta.write_changed
  split
  · exact keeps_emitRecord emits _ _ _ _ _
  · refine keeps_bind ((frames_read_at _ _ _).keeps Q) (fun r => ?_)
    refine keeps_bind ((frames_check _ _ _).keeps Q) (fun _ => ?_)
    refine keeps_bind ((frames_create_diff _ _).keeps Q) (fun diff => ?_)
    split
    · exact keeps_emitRecord emits _ _ _ _ _
    · exact keeps_emitRecord emits _ _ _ _ _

theorem keeps_process (U : StrongHash) (old_chunks : List SignedChunk) : ∀ (chunks : List SignedChunk) (i : Nat),
    Keeps (fun s => Q (written s)) (Delta.processMultipleChunks U old_chunks i chunks) := by
  intro chunks
  induction chunks with
  | nil =>
    intro i
    exact keeps_pure ()
  | cons chunk rest ih =>
    intro i
    unfold Delta.processMultipleChunks Delta.process_chunk
    refine keeps_bind (keeps_bind ((frames_find_reusable _ _ _).keeps Q) (fun source => ?_)) fun _ => ih (i + 1)
    cases source with
    | some source =>
      exact keeps_bind (keeps_emitRecord emits _ _ _ _ _) fun _ => frames_count_chunk.keeps Q
    | none =>
      exact keeps_bind ((frames_readSignedChunk _ _ _).keeps Q) fun new_data =>
        keeps_bind (keeps_write_changed emits _ _ _ _) fun _ => frames_count_chunk.keeps Q

theorem keeps_writeTrailer (U : StrongHash) (chunks : List SignedChunk) (precomputed : List UInt8) :
    Keeps (fun s => Q (written s)) (Delta.writeTrailer U chunks precomputed) := by
  unfold Delta.writeTrailer
  have trailer : ∀ digest, Keeps (fun s => Q (written s)) (Delta.probe_end .new
      "New input changed or failed while reading" >>= fun _ => Delta.writing (DeltaWriter.write_trailer digest)) := by
    intro digest
    unfold DeltaWriter.write_trailer
    rw [writing_bind]
    exact keeps_bind ((frames_probe_end _ _).keeps Q) fun _ => keeps_bind (emits _ _) fun _ => emits _ _
  dsimp only
  split
  · exact keeps_bind ((frames_hash_chunks U chunks _).keeps Q) fun state => keeps_bind (keeps_pure _) trailer
  · exact keeps_bind (keeps_pure precomputed) trailer

/-- What every block that is emitted keeps, the whole generation keeps. -/
theorem keeps_build (U : StrongHash) (original newfile : Signature) :
    Keeps (fun s => Q (written s)) (Delta.build U original newfile) := by
  unfold Delta.build
  exact keeps_bind ((frames_check_sizes _ _).keeps Q) fun _ => keeps_bind (emits _ _) fun _ =>
    keeps_bind ((frames_build_index _).keeps Q) fun _ => keeps_bind (keeps_process emits U _ _ 0) fun _ =>
      keeps_bind ((frames_verifyOldFile U _).keeps Q) fun _ => keeps_bind (keeps_writeTrailer emits U _ _) fun _ =>
        frames_closed.keeps Q

end

end Roll.Framing
