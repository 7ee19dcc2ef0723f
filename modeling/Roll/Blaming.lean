import Roll.Creating
import Roll.Discarding

/-!
What a generation blames for a read of an input that raises a stream error. Every
read but the two probes past the end is checked for the error first; a probe that
fails is taken for a changed input.
-/
namespace Roll.Blaming
open Roll.Parsing Roll.Outcome Roll.Cursor Roll.Calm Roll.Committing Roll.Staging Roll.Framing

variable {U : StrongHash} {α β : Type}

/-! ### Errors of the inputs -/

/-- No read of an input has raised an error. -/
def Sound (s : GenerateState) : Prop := s.old.has_error = false ∧ s.file.has_error = false

/-- The failure is an I/O error, or no read has raised one. -/
def Blamed (e : DeltaError) (s : GenerateState) : Prop := e.code = .io_error ∨ Sound s

/-- As long as no read has raised an error, this goes on without one, or blames it. -/
def Blames (m : GenerateM α) : Prop := ∀ s, Sound s → Ends m s (fun _ => Sound) Blamed

theorem blames_pure (a : α) : Blames (pure a : GenerateM α) := fun _ sound => sound

theorem blames_throw (e : DeltaError) : Blames (throw e : GenerateM α) := fun _ sound => .inr sound

theorem blames_bind {m : GenerateM α} {f : α → GenerateM β} (first : Blames m) (second : ∀ a, Blames (f a)) :
    Blames (m >>= f) :=
  fun s sound => ends_bind (first s sound) fun a s' _ sound' => second a s' sound'

theorem fail_if_blames (condition : Bool) (code : DeltaErrc) (message : String) :
    Blames (Delta.fail_if condition code message) := by
  cases condition with
  | true => exact blames_throw _
  | false => exact blames_pure ()

/-- A step that leaves the inputs alone, and fails with an I/O error if at all. -/
theorem writing_blames (m : WriteM Unit) : Blames (Delta.writing m) := by
  intro s sound
  unfold Delta.writing Ends
  dsimp only
  cases m { out_ := s.transaction.file_, bytes_written_ := s.bytes_written } with
  | ok a w => exact sound
  | error message w => exact .inl rfl

theorem size_of_blames (input : Delta.Input) : Blames (Delta.size_of input) := fun _ sound => sound

theorem find_reusable_blames (chunks : List SignedChunk) (i : Nat) (chunk : SignedChunk) :
    Blames (Delta.find_reusable chunks i chunk) := by
  intro s sound
  unfold Delta.find_reusable Ends
  dsimp only
  by_cases aligned : (chunks[i]?.map (·.same chunk)).getD false = true
  · rw [if_pos aligned]
    exact sound
  · rw [if_neg aligned]
    exact sound

theorem create_diff_blames (old_data new_data : List UInt8) : Blames (Delta.create_diff old_data new_data) := by
  intro s sound
  unfold Delta.create_diff Ends
  dsimp only
  cases Diff.createDiff old_data new_data s.scratch with
  | none => exact .inr sound
  | some made => exact sound

/-! ### Reads -/

/-- The handle that was read is the only one that can have an error after it. -/
theorem read_at_runs (input : Delta.Input) (n position : Nat) {s : GenerateState} (sound : Sound s) :
    ∃ data failed s', Delta.read_at input n position s = .ok (data, failed) s' ∧ (failed = false → Sound s') ∧
      failed = ((Delta.handle s input).read_chunk_at n position).2.has_error ∧
      (failed = true → (Delta.handle s' input).has_error = true) := by
  unfold Delta.read_at
  generalize (Delta.handle s input).read_chunk_at n position = r
  obtain ⟨data, f⟩ := r
  refine ⟨data, f.has_error, _, rfl, ?_, rfl, ?_⟩
  · intro quiet
    cases input with
    | old => exact ⟨quiet, sound.2⟩
    | new => exact ⟨sound.1, quiet⟩
  · intro failed
    cases input with
    | old => exact failed
    | new => exact failed

/-- A read whose error is an I/O error of what follows. -/
theorem read_at_blames (input : Delta.Input) (n position : Nat) {f : List UInt8 × Bool → GenerateM β}
    (fails : ∀ data s, ∃ message, f (data, true) s = .error ⟨.io_error, message⟩ s) (reads : ∀ data, Blames (f (data, false))) :
    Blames (Delta.read_at input n position >>= f) := by
  intro s sound
  obtain ⟨data, failed, s', run, quiet, _⟩ := read_at_runs input n position sound
  rw [Ends, bind_ok run]
  cases failed with
  | true =>
    obtain ⟨message, stopped⟩ := fails data s'
    rw [stopped]
    exact .inl rfl
  | false => exact reads data s' (quiet rfl)

theorem readSignedChunk_blames (U : StrongHash) (input : Delta.Input) (chunk : SignedChunk) :
    Blames (Delta.readSignedChunk U input chunk) := by
  unfold Delta.readSignedChunk
  refine read_at_blames input _ _ (fun _ _ => ⟨_, rfl⟩) (fun data => ?_)
  exact blames_bind (fail_if_blames _ _ _) fun _ => blames_bind (fail_if_blames _ _ _) fun _ => blames_pure data

theorem write_changed_blames (chunks : List SignedChunk) (i : Nat) (chunk : SignedChunk) (new_data : List UInt8) :
    Blames (Delta.write_changed chunks i chunk new_data) := by
  unfold Delta.write_changed
  cases chunks[i]? with
  | none => exact writing_blames _
  | some original =>
    refine read_at_blames .old _ _ (fun _ _ => ⟨_, rfl⟩) (fun old_data => ?_)
    refine blames_bind (fail_if_blames _ _ _) fun _ => blames_bind (create_diff_blames _ _) fun diff => ?_
    by_cases pays : Delta.pays i new_data diff = true
    · rw [if_pos pays]
      exact writing_blames _
    · rw [if_neg pays]
      exact writing_blames _

theorem process_blames (U : StrongHash) (olds : List SignedChunk) : ∀ (news : List SignedChunk) (i : Nat),
    Blames (Delta.processMultipleChunks U olds i news) := by
  intro news
  induction news with
  | nil => exact fun _ => blames_pure ()
  | cons chunk rest ih =>
    intro i
    have counts : Blames Delta.count_chunk := fun _ sound => sound
    have round : Blames (Delta.process_chunk U olds i chunk) := by
      unfold Delta.process_chunk
      refine blames_bind (find_reusable_blames _ _ _) fun source => ?_
      cases source with
      | some source => exact blames_bind (writing_blames _) fun _ => counts
      | none =>
        exact blames_bind (readSignedChunk_blames U .new chunk) fun _ =>
          blames_bind (write_changed_blames _ _ _ _) fun _ => counts
    exact blames_bind round fun _ => ih (i + 1)

theorem verify_chunks_blames (U : StrongHash) (chunks : List SignedChunk) : Blames (Delta.verify_chunks U chunks) := by
  induction chunks with
  | nil => exact blames_pure ()
  | cons chunk rest ih => exact blames_bind (readSignedChunk_blames U .old chunk) fun _ => ih

theorem hash_chunks_blames (U : StrongHash) : ∀ (chunks : List SignedChunk) (state : U.State),
    Blames (Delta.hash_chunks U chunks state) := by
  intro chunks
  induction chunks with
  | nil => exact fun state => blames_pure state
  | cons chunk rest ih =>
    exact fun state => blames_bind (readSignedChunk_blames U .new chunk) fun data => ih (U.update state data)

theorem check_sizes_blames (olds news : List SignedChunk) : Blames (Delta.check_sizes olds news) :=
  blames_bind (size_of_blames .old) fun _ => blames_bind (size_of_blames .new) fun _ => fail_if_blames _ _ _

theorem close_inputs_blames : Blames Delta.close_inputs := by
  have quiet : ∀ f : FileIo, f.has_error = false → f.close.1 = true → f.close.2.has_error = false := by
    intro f sound
    unfold FileIo.close
    dsimp only
    by_cases closed : (!f.discard_read_buffer.f_.opened) = true
    · rw [if_pos closed]
      exact fun _ => sound
    · rw [if_neg closed]
      simp [FileIo.has_error]
  intro s sound
  have old_quiet := quiet s.old sound.1
  have new_quiet := quiet s.file sound.2
  unfold Delta.close_inputs Ends
  dsimp only
  generalize s.old.close = r at old_quiet ⊢
  generalize s.file.close = r' at new_quiet ⊢
  obtain ⟨shut, f⟩ := r
  obtain ⟨shut', g⟩ := r'
  cases shut with
  | false => exact .inl rfl
  | true =>
    cases shut' with
    | false => exact .inl rfl
    | true => exact ⟨old_quiet rfl, new_quiet rfl⟩

/-! ### The probes -/

/-- The read that a probe makes raises an error. -/
def ProbeFails (input : Delta.Input) (s : GenerateState) : Prop :=
  ((Delta.handle s input).read_chunk_at 1 (Delta.handle s input).size).2.has_error = true

/-- A probe that fails is taken for a changed input. -/
theorem probe_fails {input : Delta.Input} {s : GenerateState} (sound : Sound s) (fails : ProbeFails input s)
    (message : String) : ∃ s', Delta.probe_end input message s = .error ⟨.integrity_mismatch, message⟩ s' ∧
      (Delta.handle s' input).has_error = true := by
  have size : Delta.size_of input s = .ok (Delta.handle s input).size s := rfl
  obtain ⟨data, failed, s', run, _, flag, flagged⟩ := read_at_runs input 1 (Delta.handle s input).size sound
  rw [show _ = true from fails] at flag
  subst flag
  refine ⟨s', ?_, flagged rfl⟩
  unfold Delta.probe_end
  rw [bind_ok size, bind_ok run]
  simp [Delta.fail_if]
  rfl

theorem probe_blames {input : Delta.Input} {s : GenerateState} (sound : Sound s) (reads : ¬ ProbeFails input s)
    (message : String) : Ends (Delta.probe_end input message) s (fun _ => Sound) Blamed := by
  have size : Delta.size_of input s = .ok (Delta.handle s input).size s := rfl
  obtain ⟨data, failed, s', run, quiet, flag, _⟩ := read_at_runs input 1 (Delta.handle s input).size sound
  rw [show _ = false from (Bool.not_eq_true _).mp reads] at flag
  subst flag
  unfold Delta.probe_end
  rw [Ends, bind_ok size, bind_ok run]
  exact fail_if_blames _ _ _ s' (quiet rfl)

/-! ### The generation -/

/-- What the generation does before it probes the old file. -/
def before_old_probe (U : StrongHash) (original newfile : Signature) : GenerateM Unit := do
  Delta.check_sizes original.get_chunks newfile.get_chunks
  Delta.writing DeltaWriter.write_header
  Delta.build_index original.get_chunks
  Delta.processMultipleChunks U original.get_chunks 0 newfile.get_chunks
  Delta.verify_chunks U original.get_chunks

/-- The digest for the trailer. -/
def trailer_digest (U : StrongHash) (newfile : Signature) : GenerateM (List UInt8) :=
  if newfile.whole_file_hash = [] then do
    let state ← Delta.hash_chunks U newfile.get_chunks U.init
    pure (U.finalize state)
  else pure newfile.whole_file_hash

/-- What it does before it probes the new file. -/
def before_new_probe (U : StrongHash) (original newfile : Signature) : GenerateM (List UInt8) := do
  before_old_probe U original newfile
  Delta.probe_end .old "Old input changed or failed while reading"
  trailer_digest U newfile

theorem build_eq (U : StrongHash) (original newfile : Signature) : Delta.build U original newfile = (do
    let digest ← before_new_probe U original newfile
    Delta.probe_end .new "New input changed or failed while reading"
    Delta.writing (DeltaWriter.write_trailer digest)
    Delta.close_inputs) := by
  unfold Delta.build before_new_probe before_old_probe trailer_digest Delta.verifyOldFile Delta.writeTrailer
  by_cases skipped : newfile.whole_file_hash = []
  · simp [skipped, bind_assoc]
  · simp [skipped, bind_assoc]

/-- No probe of the generation from `s` raises an error. -/
structure ProbesRead (U : StrongHash) (original newfile : Signature) (s : GenerateState) : Prop where
  old : ∀ s', before_old_probe U original newfile s = .ok () s' → ¬ ProbeFails .old s'
  new : ∀ digest s', before_new_probe U original newfile s = .ok digest s' → ¬ ProbeFails .new s'

variable {original newfile : Signature} {s : GenerateState}

theorem before_old_probe_blames (U : StrongHash) (original newfile : Signature) :
    Blames (before_old_probe U original newfile) := by
  have indexed : Blames (Delta.build_index original.get_chunks) := fun _ sound => sound
  unfold before_old_probe
  exact blames_bind (check_sizes_blames _ _) fun _ => blames_bind (writing_blames _) fun _ => blames_bind indexed fun _ =>
    blames_bind (process_blames U _ _ 0) fun _ => verify_chunks_blames U _

theorem trailer_digest_blames (U : StrongHash) (newfile : Signature) : Blames (trailer_digest U newfile) := by
  unfold trailer_digest
  by_cases skipped : newfile.whole_file_hash = []
  · rw [if_pos skipped]
    exact blames_bind (hash_chunks_blames U _ _) fun _ => blames_pure _
  · rw [if_neg skipped]
    exact blames_pure _

theorem before_new_probe_blames (sound : Sound s)
    (reads : ∀ s', before_old_probe U original newfile s = .ok () s' → ¬ ProbeFails .old s') :
    Ends (before_new_probe U original newfile) s (fun _ => Sound) Blamed := by
  unfold before_new_probe
  refine ends_bind (before_old_probe_blames U original newfile s sound) fun _ s₁ run sound₁ => ?_
  refine ends_bind (probe_blames sound₁ (reads s₁ run) _) fun _ s₂ _ sound₂ => ?_
  exact trailer_digest_blames U newfile s₂ sound₂

/-- Where the probes raise no error, every error of a read is blamed. -/
theorem build_blames (sound : Sound s) (probes : ProbesRead U original newfile s) :
    Ends (Delta.build U original newfile) s (fun _ => Sound) Blamed := by
  rw [build_eq]
  refine ends_bind (before_new_probe_blames sound probes.old) fun digest s₁ run sound₁ => ?_
  refine ends_bind (probe_blames sound₁ (probes.new digest s₁ run) _) fun _ s₂ _ sound₂ => ?_
  exact blames_bind (writing_blames _) (fun _ => close_inputs_blames) s₂ sound₂

/-- A probe that raises an error ends the generation, as if the input had changed. -/
theorem build_misreports (sound : Sound s) (fails : ¬ ProbesRead U original newfile s) :
    ∃ message s', Delta.build U original newfile s = .error ⟨.integrity_mismatch, message⟩ s' ∧ ¬ Sound s' := by
  have failed : ∀ {input : Delta.Input} {s' : GenerateState}, (Delta.handle s' input).has_error = true → ¬ Sound s' := by
    intro input s' flagged sound'
    cases input with
    | old => exact Bool.noConfusion (flagged.symm.trans sound'.1)
    | new => exact Bool.noConfusion (flagged.symm.trans sound'.2)
  rw [build_eq]
  by_cases old : ∀ s', before_old_probe U original newfile s = .ok () s' → ¬ ProbeFails .old s'
  · obtain ⟨digest, s₁, run, broken⟩ : ∃ digest s', before_new_probe U original newfile s = .ok digest s' ∧
        ProbeFails .new s' := by
      by_contra none
      exact fails ⟨old, fun digest s' run broken => none ⟨digest, s', run, broken⟩⟩
    have sound₁ := (before_new_probe_blames sound old).of_ok run
    obtain ⟨s₂, stopped, flagged⟩ := probe_fails sound₁ broken "New input changed or failed while reading"
    refine ⟨"New input changed or failed while reading", s₂, ?_, failed flagged⟩
    rw [bind_ok run, bind_error stopped]
  · obtain ⟨s₁, run, broken⟩ : ∃ s', before_old_probe U original newfile s = .ok () s' ∧ ProbeFails .old s' := by
      by_contra none
      exact old fun s' run broken => none ⟨s', run, broken⟩
    have sound₁ := (before_old_probe_blames U original newfile s sound).of_ok run
    obtain ⟨s₂, stopped, flagged⟩ := probe_fails sound₁ broken "Old input changed or failed while reading"
    have early : before_new_probe U original newfile s =
        .error ⟨.integrity_mismatch, "Old input changed or failed while reading"⟩ s₂ := by
      unfold before_new_probe
      rw [bind_ok run, bind_error stopped]
    exact ⟨_, s₂, bind_error early, failed flagged⟩

/-! ### A flag that stays

So the handles that a run leaves tell whether one of its reads has raised an error.
-/

theorem inputs_writing (m : WriteM Unit) : Frames (fun s : GenerateState => (s.old, s.file)) (Delta.writing m) := by
  intro s
  unfold Delta.writing
  cases m { out_ := s.transaction.file_, bytes_written_ := s.bytes_written } <;> rfl

theorem inputs_check (condition : Bool) (code : DeltaErrc) (message : String) :
    Frames (fun s : GenerateState => (s.old, s.file)) (Delta.fail_if condition code message) := by
  cases condition with
  | true => exact frames_throw _
  | false => exact frames_pure ()

theorem inputs_find_reusable (chunks : List SignedChunk) (i : Nat) (chunk : SignedChunk) :
    Frames (fun s : GenerateState => (s.old, s.file)) (Delta.find_reusable chunks i chunk) := by
  intro s
  unfold Delta.find_reusable
  split <;> rfl

theorem inputs_create_diff (old_data new_data : List UInt8) :
    Frames (fun s : GenerateState => (s.old, s.file)) (Delta.create_diff old_data new_data) := by
  intro s
  unfold Delta.create_diff
  split <;> rfl

section
variable (input : Delta.Input)

/-- The handle of this input has an error. -/
def Flagged (s : GenerateState) : Prop := (Delta.handle s input).has_error = true

theorem flagged_frames {m : GenerateM α} (frames : Frames (fun s : GenerateState => (s.old, s.file)) m) :
    Keeps (Flagged input) m := by
  cases input with
  | old => exact frames.keeps fun inputs => inputs.1.has_error = true
  | new => exact frames.keeps fun inputs => inputs.2.has_error = true

theorem read_at_flagged (other : Delta.Input) (n position : Nat) : Keeps (Flagged input) (Delta.read_at other n position) := by
  have sticky : ∀ f : FileIo, f.io_error_ = true → (f.read_chunk_at n position).2.io_error_ = true := by
    intro f errored
    have refused : (!f.discard_read_buffer.f_.opened || !f.discard_read_buffer.readable_ ||
        f.discard_read_buffer.io_error_ || position > STREAMOFF_MAX) = true := by
      simp [FileIo.discard_read_buffer, errored]
    unfold FileIo.read_chunk_at
    dsimp only
    rw [if_pos refused]
  intro s flagged
  unfold Delta.read_at Leaves
  cases input with
  | old =>
    cases other with
    | old => exact sticky s.old flagged
    | new => exact flagged
  | new =>
    cases other with
    | old => exact flagged
    | new => exact sticky s.file flagged

theorem readSignedChunk_flagged (U : StrongHash) (other : Delta.Input) (chunk : SignedChunk) :
    Keeps (Flagged input) (Delta.readSignedChunk U other chunk) := by
  unfold Delta.readSignedChunk
  refine keeps_bind (read_at_flagged input other _ _) fun r => ?_
  exact keeps_bind (flagged_frames input (inputs_check _ _ _)) fun _ =>
    keeps_bind (flagged_frames input (inputs_check _ _ _)) fun _ => keeps_pure r.1

theorem write_changed_flagged (chunks : List SignedChunk) (i : Nat) (chunk : SignedChunk) (new_data : List UInt8) :
    Keeps (Flagged input) (Delta.write_changed chunks i chunk new_data) := by
  unfold Delta.write_changed
  split
  · exact flagged_frames input (inputs_writing _)
  · refine keeps_bind (read_at_flagged input .old _ _) fun r => ?_
    refine keeps_bind (flagged_frames input (inputs_check _ _ _)) fun _ => ?_
    refine keeps_bind (flagged_frames input (inputs_create_diff _ _)) fun diff => ?_
    split
    · exact flagged_frames input (inputs_writing _)
    · exact flagged_frames input (inputs_writing _)

theorem process_flagged (U : StrongHash) (olds : List SignedChunk) : ∀ (news : List SignedChunk) (i : Nat),
    Keeps (Flagged input) (Delta.processMultipleChunks U olds i news) := by
  intro news
  induction news with
  | nil => exact fun _ => keeps_pure ()
  | cons chunk rest ih =>
    intro i
    have counts : Keeps (Flagged input) Delta.count_chunk := flagged_frames input fun _ => rfl
    unfold Delta.processMultipleChunks Delta.process_chunk
    refine keeps_bind (keeps_bind (flagged_frames input (inputs_find_reusable _ _ _)) fun source => ?_) fun _ => ih (i + 1)
    cases source with
    | some source => exact keeps_bind (flagged_frames input (inputs_writing _)) fun _ => counts
    | none =>
      exact keeps_bind (readSignedChunk_flagged input U .new chunk) fun new_data =>
        keeps_bind (write_changed_flagged input _ _ _ _) fun _ => counts

theorem verify_chunks_flagged (U : StrongHash) (chunks : List SignedChunk) :
    Keeps (Flagged input) (Delta.verify_chunks U chunks) := by
  induction chunks with
  | nil => exact keeps_pure ()
  | cons chunk rest ih => exact keeps_bind (readSignedChunk_flagged input U .old chunk) fun _ => ih

theorem hash_chunks_flagged (U : StrongHash) : ∀ (chunks : List SignedChunk) (state : U.State),
    Keeps (Flagged input) (Delta.hash_chunks U chunks state) := by
  intro chunks
  induction chunks with
  | nil => exact fun state => keeps_pure state
  | cons chunk rest ih =>
    exact fun state => keeps_bind (readSignedChunk_flagged input U .new chunk) fun data => ih (U.update state data)

theorem probe_end_flagged (other : Delta.Input) (message : String) :
    Keeps (Flagged input) (Delta.probe_end other message) := by
  unfold Delta.probe_end
  exact keeps_bind (flagged_frames input fun _ => rfl) fun size =>
    keeps_bind (read_at_flagged input other 1 size) fun _ => flagged_frames input (inputs_check _ _ _)

theorem close_inputs_flagged : Keeps (Flagged input) Delta.close_inputs := by
  have sticky : ∀ f : FileIo, f.has_error = true → f.close.2.has_error = true := by
    intro f errored
    unfold FileIo.close
    dsimp only
    split
    · exact errored
    · simp [FileIo.has_error, show f.discard_read_buffer.io_error_ = true from errored]
  intro s flagged
  have old := sticky s.old
  have new := sticky s.file
  unfold Delta.close_inputs Leaves
  dsimp only
  generalize s.old.close = r at old ⊢
  generalize s.file.close = r' at new ⊢
  obtain ⟨shut, f⟩ := r
  obtain ⟨shut', g⟩ := r'
  cases input with
  | old =>
    cases shut with
    | false => exact old flagged
    | true => cases shut' <;> exact old flagged
  | new =>
    cases shut with
    | false => exact flagged
    | true => cases shut' <;> exact new flagged

end

/-- The moments of a generation up to which the inputs have been read: some new chunks are processed,
    some old ones are verified, the old file is probed, some new chunks are hashed, the new file is probed. -/
inductive Moment
  | processed (count : Nat)
  | verified (count : Nat)
  | old_probed
  | hashed (count : Nat)
  | new_probed

/-- What the generation does before it reads an input. -/
def begin_output (original newfile : Signature) : GenerateM Unit := do
  Delta.check_sizes original.get_chunks newfile.get_chunks
  Delta.writing DeltaWriter.write_header
  Delta.build_index original.get_chunks

/-- The state at a moment, or where the generation has failed before. -/
def at_moment (U : StrongHash) (original newfile : Signature) (s : GenerateState) : Moment → GenerateState
  | .processed count => after ((do
      begin_output original newfile
      Delta.processMultipleChunks U original.get_chunks 0 (newfile.get_chunks.take count)) s)
  | .verified count => after ((do
      begin_output original newfile
      Delta.processMultipleChunks U original.get_chunks 0 newfile.get_chunks
      Delta.verify_chunks U (original.get_chunks.take count)) s)
  | .old_probed => after ((do
      before_old_probe U original newfile
      Delta.probe_end .old "Old input changed or failed while reading") s)
  | .hashed count => after ((do
      before_old_probe U original newfile
      Delta.probe_end .old "Old input changed or failed while reading"
      if newfile.whole_file_hash = [] then Delta.hash_chunks U (newfile.get_chunks.take count) U.init else pure U.init) s)
  | .new_probed => after ((do
      let digest ← before_new_probe U original newfile
      Delta.probe_end .new "New input changed or failed while reading"
      pure digest) s)

theorem process_append (U : StrongHash) (olds more : List SignedChunk) : ∀ (news : List SignedChunk) (i : Nat),
    Delta.processMultipleChunks U olds i (news ++ more) = (do
      Delta.processMultipleChunks U olds i news
      Delta.processMultipleChunks U olds (i + news.length) more) := by
  intro news
  induction news with
  | nil =>
    intro i
    simp [Delta.processMultipleChunks]
  | cons chunk rest ih =>
    intro i
    rw [List.cons_append, Delta.processMultipleChunks, Delta.processMultipleChunks, ih, bind_assoc, List.length_cons,
      Nat.add_assoc, Nat.add_comm 1]

theorem verify_append (U : StrongHash) (more : List SignedChunk) : ∀ chunks : List SignedChunk,
    Delta.verify_chunks U (chunks ++ more) = (do
      Delta.verify_chunks U chunks
      Delta.verify_chunks U more) := by
  intro chunks
  induction chunks with
  | nil => simp [Delta.verify_chunks]
  | cons chunk rest ih => rw [List.cons_append, Delta.verify_chunks, Delta.verify_chunks, ih, bind_assoc]

theorem hash_append (U : StrongHash) (more : List SignedChunk) : ∀ (chunks : List SignedChunk) (state : U.State),
    Delta.hash_chunks U (chunks ++ more) state = (do
      let state ← Delta.hash_chunks U chunks state
      Delta.hash_chunks U more state) := by
  intro chunks
  induction chunks with
  | nil =>
    intro state
    simp [Delta.hash_chunks]
  | cons chunk rest ih =>
    intro state
    simp only [List.cons_append, Delta.hash_chunks, ih, bind_assoc]

/-- What is left to do with the digest for the trailer. -/
def end_output (digest : List UInt8) : GenerateM Unit := do
  Delta.probe_end .new "New input changed or failed while reading"
  Delta.writing (DeltaWriter.write_trailer digest)
  Delta.close_inputs

theorem before_old_probe_eq (U : StrongHash) (original newfile : Signature) : before_old_probe U original newfile = (do
    begin_output original newfile
    Delta.processMultipleChunks U original.get_chunks 0 newfile.get_chunks
    Delta.verify_chunks U original.get_chunks) := by
  simp [before_old_probe, begin_output, bind_assoc]

section
variable (input : Delta.Input)

theorem end_output_flagged (digest : List UInt8) : Keeps (Flagged input) (end_output digest) :=
  keeps_bind (probe_end_flagged input .new _) fun _ => keeps_bind (flagged_frames input (inputs_writing _)) fun _ =>
    close_inputs_flagged input

theorem trailer_digest_flagged (U : StrongHash) (newfile : Signature) : Keeps (Flagged input) (trailer_digest U newfile) := by
  unfold trailer_digest
  split
  · exact keeps_bind (hash_chunks_flagged input U _ _) fun _ => keeps_pure _
  · exact keeps_pure _

/-- An error that an input has at any moment stays to the end of the generation. -/
theorem build_flagged (U : StrongHash) (original newfile : Signature) (s : GenerateState) (moment : Moment)
    (flagged : Flagged input (at_moment U original newfile s moment)) :
    Flagged input (after (Delta.build U original newfile s)) := by
  have trailing : Keeps (Flagged input) (trailer_digest U newfile >>= end_output) :=
    keeps_bind (trailer_digest_flagged input U newfile) (end_output_flagged input)
  have probing : Keeps (Flagged input) (do
      Delta.probe_end .old "Old input changed or failed while reading"
      trailer_digest U newfile >>= end_output) := keeps_bind (probe_end_flagged input .old _) fun _ => trailing
  have whole : Delta.build U original newfile = (do
      before_old_probe U original newfile
      Delta.probe_end .old "Old input changed or failed while reading"
      trailer_digest U newfile >>= end_output) := by
    rw [build_eq]
    simp only [before_new_probe, bind_assoc]
    rfl
  cases moment with
  | processed count =>
    have split := process_append U original.get_chunks (newfile.get_chunks.drop count) (newfile.get_chunks.take count) 0
    rw [List.take_append_drop] at split
    have parts : Delta.build U original newfile = (do
        begin_output original newfile
        Delta.processMultipleChunks U original.get_chunks 0 (newfile.get_chunks.take count)) >>= fun _ => (do
          Delta.processMultipleChunks U original.get_chunks (0 + (newfile.get_chunks.take count).length)
            (newfile.get_chunks.drop count)
          Delta.verify_chunks U original.get_chunks
          Delta.probe_end .old "Old input changed or failed while reading"
          trailer_digest U newfile >>= end_output) := by
      rw [whole, before_old_probe_eq, split]
      simp only [bind_assoc]
    rw [parts]
    exact keeps_rest (fun _ => keeps_bind (process_flagged input U _ _ _) fun _ =>
      keeps_bind (verify_chunks_flagged input U _) fun _ => probing) flagged
  | verified count =>
    have split := verify_append U (original.get_chunks.drop count) (original.get_chunks.take count)
    rw [List.take_append_drop] at split
    have parts : Delta.build U original newfile = (do
        begin_output original newfile
        Delta.processMultipleChunks U original.get_chunks 0 newfile.get_chunks
        Delta.verify_chunks U (original.get_chunks.take count)) >>= fun _ => (do
          Delta.verify_chunks U (original.get_chunks.drop count)
          Delta.probe_end .old "Old input changed or failed while reading"
          trailer_digest U newfile >>= end_output) := by
      rw [whole, before_old_probe_eq, split]
      simp only [bind_assoc]
    rw [parts]
    exact keeps_rest (fun _ => keeps_bind (verify_chunks_flagged input U _) fun _ => probing) flagged
  | old_probed =>
    have parts : Delta.build U original newfile = (do
        before_old_probe U original newfile
        Delta.probe_end .old "Old input changed or failed while reading") >>= fun _ => trailer_digest U newfile >>= end_output := by
      rw [whole]
      simp only [bind_assoc]
    rw [parts]
    exact keeps_rest (fun _ => trailing) flagged
  | hashed count =>
    have split := hash_append U (newfile.get_chunks.drop count) (newfile.get_chunks.take count) U.init
    rw [List.take_append_drop] at split
    by_cases skipped : newfile.whole_file_hash = []
    · have parts : Delta.build U original newfile = (do
          before_old_probe U original newfile
          Delta.probe_end .old "Old input changed or failed while reading"
          if newfile.whole_file_hash = [] then Delta.hash_chunks U (newfile.get_chunks.take count) U.init
          else pure U.init) >>= fun state => (do
            let state ← Delta.hash_chunks U (newfile.get_chunks.drop count) state
            end_output (U.finalize state)) := by
        rw [whole, trailer_digest, if_pos skipped, if_pos skipped, split]
        simp only [bind_assoc, pure_bind]
      rw [parts]
      exact keeps_rest (fun state => keeps_bind (hash_chunks_flagged input U _ state) fun _ => end_output_flagged input _) flagged
    · have parts : Delta.build U original newfile = (do
          before_old_probe U original newfile
          Delta.probe_end .old "Old input changed or failed while reading"
          if newfile.whole_file_hash = [] then Delta.hash_chunks U (newfile.get_chunks.take count) U.init
          else pure U.init) >>= fun _ => trailer_digest U newfile >>= end_output := by
        rw [whole, if_neg skipped]
        simp only [bind_assoc, pure_bind]
      rw [parts]
      exact keeps_rest (fun _ => trailing) flagged
  | new_probed =>
    have parts : Delta.build U original newfile = (do
        let digest ← before_new_probe U original newfile
        Delta.probe_end .new "New input changed or failed while reading"
        pure digest) >>= fun digest => (do
          Delta.writing (DeltaWriter.write_trailer digest)
          Delta.close_inputs) := by
      rw [build_eq]
      simp only [bind_assoc, pure_bind]
    rw [parts]
    exact keeps_rest (fun _ => keeps_bind (flagged_frames input (inputs_writing _)) fun _ => close_inputs_flagged input) flagged

end

/-! ### The names -/

/-- No name that was there is another file now, and nothing there is staged. -/
structure Guarded (env : Environment) (fs₀ : FileSystem) (q : OutputTransaction × System) : Prop where
  names : ∀ n, fs₀.names n ≠ none → q.2.fs.names n = fs₀.names n
  staged : ∀ p, q.1.temporary_ = some p → fs₀.names (env.locate p) = none

section
variable {env : Environment} {fs₀ : FileSystem} {q q' : OutputTransaction × System}

theorem guarded_listing (same : Discarding.listing q' = Discarding.listing q) (guarded : Guarded env fs₀ q) :
    Guarded env fs₀ q' := by
  simp only [Discarding.listing, Prod.mk.injEq] at same
  obtain ⟨_, temporary, names, _⟩ := same
  obtain ⟨kept, staged⟩ := guarded
  exact ⟨names ▸ kept, temporary ▸ staged⟩

theorem guarded_create {t : OutputTransaction} {s : System} {n : Name} (guarded : Guarded env fs₀ (t, s))
    (free : s.fs.names n = none) :
    fs₀.names n = none ∧ ∀ m, fs₀.names m ≠ none → (s.fs.create n).names m = fs₀.names m := by
  have absent : fs₀.names n = none := by
    by_contra some
    exact some ((guarded.names n some).symm.trans free)
  refine ⟨absent, fun m some => ?_⟩
  have other : m ≠ n := by
    rintro rfl
    exact some absent
  exact (if_neg other).trans (guarded.names m some)

/-- An attempt creates its file where nothing was. -/
theorem open_candidate_guarded {p : Path} (guarded : Guarded env fs₀ q ∧ q.1.temporary_ = none) :
    Discarding.Settles env (fun q => Guarded env fs₀ q ∧ q.1.temporary_ = none) (Guarded env fs₀) p q := by
  obtain ⟨t, s⟩ := q
  obtain ⟨guarded, nothing⟩ := guarded
  have idle : ∀ {q : OutputTransaction × System}, (∀ n, fs₀.names n ≠ none → q.2.fs.names n = fs₀.names n) →
      q.1.temporary_ = none → Guarded env fs₀ q := by
    intro q names none
    refine ⟨names, fun p' staged => ?_⟩
    rw [none] at staged
    cases staged
  rcases open_candidate_runs env p t s with ⟨clock, run⟩ | ⟨free, _, ⟨clock, run⟩ | ⟨_, _, clock, run⟩⟩
  · exact ⟨false, _, run, idle guarded.names nothing, nothing⟩
  · obtain ⟨absent, names⟩ := guarded_create guarded free
    refine ⟨true, _, run, names, fun p' staged => ?_⟩
    obtain rfl : p = p' := by simpa using staged
    exact absent
  · obtain ⟨_, names⟩ := guarded_create guarded free
    exact ⟨false, _, run, idle names nothing, nothing⟩

theorem open_guarded (env : Environment) (destination : Path) (inputs : List Path) (s : System) :
    Guarded env s.fs (after (OutputTransaction.open_ env destination inputs ({}, s))) := by
  have aimed : OutputTransaction.aim destination inputs ({}, s) =
      .ok () ({ destination_ := destination, inputs_ := inputs }, s) := rfl
  have start : Guarded env s.fs ({ destination_ := destination, inputs_ := inputs }, s) :=
    ⟨fun _ _ => rfl, fun _ staged => by cases staged⟩
  have stages : Discarding.Stages (fun q => Guarded env s.fs q ∧ q.1.temporary_ = none) (Guarded env s.fs) := by
    refine ⟨?_, guarded_listing, And.left⟩
    rintro q q' same ⟨guarded, nothing⟩
    exact ⟨guarded_listing same guarded, (congrArg (fun l => l.2.1) same).trans nothing⟩
  exact Discarding.open_leaves stages aimed ⟨start, rfl⟩ fun _ _ before _ => open_candidate_guarded before

/-- The destructor removes nothing that was there. -/
theorem destroy_guarded {t : OutputTransaction} {s : System} (guarded : Guarded env fs₀ (t, s)) {n : Name}
    (here : fs₀.names n ≠ none) : (t.destroy env s).fs.names n = fs₀.names n := by
  obtain ⟨s', names, _, removed⟩ := Discarding.destroy_runs env t s
  rw [removed]
  have kept : s'.fs.names n = fs₀.names n := names ▸ guarded.names n here
  cases staged : t.temporary_ with
  | none => exact kept
  | some p =>
    have other : n ≠ env.locate p := by
      rintro rfl
      exact here (guarded.staged p staged)
    simp only [System.remove, System.call]
    cases env.faults s'.clock with
    | some message => exact kept
    | none =>
      dsimp only
      split
      · exact (if_neg other).trans kept
      · exact kept

/-- The writer leaves the names alone. -/
theorem build_guarded (U : StrongHash) (original newfile : Signature) :
    Keeps (fun s => Guarded env fs₀ ((written s).1, (written s).2.1)) (Delta.build U original newfile) := by
  refine keeps_build (Q := fun w => Guarded env fs₀ (w.1, w.2.1)) (fun bytes what s guarded => ?_) U original newfile
  unfold Delta.writing DeltaWriter.emit Leaves
  dsimp only
  generalize s.transaction.file_.write_chunk bytes = r
  obtain ⟨done, file⟩ := r
  cases done with
  | true => exact guarded_listing (q := (s.transaction, s.system)) rfl guarded
  | false => exact guarded_listing (q := (s.transaction, s.system)) rfl guarded

end

/-! ### The runs -/

section
variable {env : Environment} {oldfile file_to_check delta_file : Path} {sys : System}

/-- A run in which a read of an input raised a stream error, which the handle keeps, ends with
    an I/O error, and no name that was there is replaced, in particular not the destination. -/
def Reported (sys : System) (run : GenerateRun) : Prop :=
  run.old.has_error = true ∨ run.file.has_error = true → (∃ message, run.result = .error ⟨.io_error, message⟩) ∧
    ∀ n, sys.fs.names n ≠ none → run.system.fs.names n = sys.fs.names n

/-- Whenever the generation gets to a probe past the end of an input, that read raises no error. -/
def ProbesAllRead (env : Environment) (U : StrongHash) (original newfile : Signature)
    (oldfile file_to_check delta_file : Path) (sys : System) : Prop :=
  ∀ f g sys₁ sys₂ s, FileIo.open_in env oldfile sys = (true, f, sys₁) →
    FileIo.open_in env file_to_check sys₁ = (true, g, sys₂) →
    Delta.staging (OutputTransaction.open_ env delta_file [oldfile, file_to_check])
      { old := f, file := g, transaction := {}, system := sys₂ } = .ok () s → ProbesRead U original newfile s

/-- The handle of an input that a run leaves. -/
def handle_left (run : GenerateRun) : Delta.Input → FileIo
  | .old => run.old
  | .new => run.file

/-- Whenever a read of an input has raised an error, the handle that the run leaves has it. -/
def ErrorsStay (env : Environment) (U : StrongHash) (original newfile : Signature)
    (oldfile file_to_check delta_file : Path) (sys : System) : Prop :=
  ∀ f g sys₁ sys₂ s, FileIo.open_in env oldfile sys = (true, f, sys₁) →
    FileIo.open_in env file_to_check sys₁ = (true, g, sys₂) →
    Delta.staging (OutputTransaction.open_ env delta_file [oldfile, file_to_check])
      { old := f, file := g, transaction := {}, system := sys₂ } = .ok () s →
    ∀ (input : Delta.Input) (moment : Moment), Flagged input (at_moment U original newfile s moment) →
      (handle_left (Delta.generate_delta env U original newfile oldfile file_to_check delta_file sys) input).has_error = true

theorem open_in_sound {p : Path} {f : FileIo} {sys' : System} (opened : FileIo.open_in env p sys = (true, f, sys')) :
    f.has_error = false := by
  unfold FileIo.open_in at opened
  dsimp only at opened
  split at opened
  · split at opened
    · cases opened
    · split at opened <;> split at opened <;> cases opened <;> rfl
  · cases opened

/-- A method of the transaction leaves the inputs alone. -/
theorem staging_sound {s : GenerateState} (m : OutputM α) (sound : Sound s) :
    Ends (Delta.staging m) s (fun _ s' => Sound s' ∧ (s'.transaction, s'.system) = after (m (s.transaction, s.system)))
      (fun _ => Sound) := by
  unfold Delta.staging Ends
  dsimp only
  cases m (s.transaction, s.system) with
  | ok a q => exact ⟨sound, rfl⟩
  | error e q => exact sound

theorem conclude_sound {s : GenerateState} (result : Except DeltaError DeltaStats) (checked : Option (List UInt8))
    (sound : Sound s) : Reported sys (Delta.conclude env result checked s) := by
  rintro (failed | failed)
  · exact Bool.noConfusion (failed.symm.trans sound.1)
  · exact Bool.noConfusion (failed.symm.trans sound.2)

/-- With the output staged, where the probes raise no error. -/
theorem staged_reported {s : GenerateState} (U : StrongHash) {original newfile : Signature} (sound : Sound s)
    (guarded : Guarded env sys.fs (s.transaction, s.system)) (probes : ProbesRead U original newfile s) :
    Reported sys (match Delta.build U original newfile s with
      | .error e s => Delta.conclude env (.error e) none s
      | .ok _ s =>
        let checked := s.transaction.file_.f_.data
        match Delta.staging (OutputTransaction.commit env) s with
        | .error e s => Delta.conclude env (.error e) (some checked) s
        | .ok _ s =>
          Delta.conclude env (.ok { chunks_processed := s.chunks_processed, bytes_written := s.bytes_written })
            (some checked) s) := by
  have blamed := build_blames sound probes
  have kept : Leaves (Delta.build U original newfile) s
      (fun _ s => Guarded env sys.fs ((written s).1, (written s).2.1))
      (fun s => Guarded env sys.fs ((written s).1, (written s).2.1)) := build_guarded U original newfile s guarded
  cases built : Delta.build U original newfile s with
  | error e s₁ =>
    have guarded₁ := kept.of_error built
    rcases blamed.of_error built with code | sound₁
    · intro _
      refine ⟨⟨e.message, ?_⟩, fun n here => destroy_guarded guarded₁ here⟩
      cases e
      cases code
      rfl
    · exact conclude_sound _ _ sound₁
  | ok _ s₁ =>
    have committed := staging_sound (OutputTransaction.commit env) (blamed.of_ok built)
    dsimp only
    cases ended : Delta.staging (OutputTransaction.commit env) s₁ with
    | error e s₂ => exact conclude_sound _ _ (committed.of_error ended)
    | ok _ s₂ => exact conclude_sound _ _ (committed.of_ok ended).1

/-- With the inputs open. -/
theorem opened_reported {s : GenerateState} (U : StrongHash) (original newfile : Signature)
    (oldfile file_to_check delta_file : Path) (sound : Sound s) (fresh : s.transaction = {}) (start : s.system.fs = sys.fs) :
    Reported sys (Delta.generate_opened env U original newfile oldfile file_to_check delta_file s) ↔
      ∀ s₁, Delta.staging (OutputTransaction.open_ env delta_file [oldfile, file_to_check]) s = .ok () s₁ →
        ProbesRead U original newfile s₁ := by
  have staged := staging_sound (OutputTransaction.open_ env delta_file [oldfile, file_to_check]) sound
  unfold Delta.generate_opened
  cases first : Delta.staging (OutputTransaction.open_ env delta_file [oldfile, file_to_check]) s with
  | error e s₁ =>
    exact iff_of_true (conclude_sound _ _ (staged.of_error first)) (fun _ impossible => by cases impossible)
  | ok _ s₁ =>
    obtain ⟨sound₁, opened⟩ := staged.of_ok first
    have guarded : Guarded env sys.fs (s₁.transaction, s₁.system) := by
      rw [opened, fresh, ← start]
      exact open_guarded env delta_file [oldfile, file_to_check] s.system
    by_cases probes : ProbesRead U original newfile s₁
    · refine iff_of_true (staged_reported U sound₁ guarded probes) ?_
      rintro _ ⟨⟩
      exact probes
    · refine iff_of_false ?_ (fun all => probes (all s₁ rfl))
      obtain ⟨message, s₂, stopped, unsound⟩ := build_misreports sound₁ probes
      dsimp only
      rw [stopped]
      intro reported
      have flagged : s₂.old.has_error = true ∨ s₂.file.has_error = true := by
        by_contra none
        rw [not_or, Bool.not_eq_true, Bool.not_eq_true] at none
        exact unsound none
      obtain ⟨⟨_, result⟩, _⟩ := reported flagged
      cases result

/-- Neither the commit nor the end of a run touches the inputs. -/
theorem handle_left_built {s₀ s : GenerateState} (U : StrongHash) (original newfile : Signature) (oldfile file_to_check delta_file : Path)
    (staged : Delta.staging (OutputTransaction.open_ env delta_file [oldfile, file_to_check]) s₀ = .ok () s) (input : Delta.Input) :
    handle_left (Delta.generate_opened env U original newfile oldfile file_to_check delta_file s₀) input =
      Delta.handle (after (Delta.build U original newfile s)) input := by
  have concluded : ∀ (result : Except DeltaError DeltaStats) (checked : Option (List UInt8)) (s : GenerateState),
      handle_left (Delta.conclude env result checked s) input = Delta.handle s input := by
    intro result checked s
    cases input <;> rfl
  have kept : ∀ {α : Type} (m : OutputM α) (s : GenerateState), Delta.handle (after (Delta.staging m s)) input = Delta.handle s input := by
    intro α m s
    unfold Delta.staging
    cases m (s.transaction, s.system) with
    | ok a q => cases input <;> rfl
    | error e q => cases input <;> rfl
  unfold Delta.generate_opened
  rw [staged]
  dsimp only
  cases built : Delta.build U original newfile s with
  | error e s₁ => exact concluded _ _ s₁
  | ok _ s₁ =>
    have committed := kept (OutputTransaction.commit env) s₁
    dsimp only
    cases ended : Delta.staging (OutputTransaction.commit env) s₁ with
    | error e s₂ =>
      rw [ended] at committed
      exact (concluded _ _ s₂).trans committed
    | ok _ s₂ =>
      rw [ended] at committed
      exact (concluded _ _ s₂).trans committed

theorem errors_stay (env : Environment) (U : StrongHash) (original newfile : Signature)
    (oldfile file_to_check delta_file : Path) (sys : System) :
    ErrorsStay env U original newfile oldfile file_to_check delta_file sys := by
  intro f g sys₁ sys₂ s first second staged input moment flagged
  have left := handle_left_built U original newfile oldfile file_to_check delta_file staged input
  have opened : Delta.generate_delta env U original newfile oldfile file_to_check delta_file sys =
      Delta.generate_opened env U original newfile oldfile file_to_check delta_file
        { old := f, file := g, transaction := {}, system := sys₂ } := by
    simp only [Delta.generate_delta, first, second]
  rw [opened, left]
  exact build_flagged input U original newfile s moment flagged

theorem reported_iff (env : Environment) (U : StrongHash) (original newfile : Signature)
    (oldfile file_to_check delta_file : Path) (sys : System) :
    Reported sys (Delta.generate_delta env U original newfile oldfile file_to_check delta_file sys) ↔
      ProbesAllRead env U original newfile oldfile file_to_check delta_file sys := by
  have untouched := open_in_untouched env oldfile sys
  unfold Delta.generate_delta ProbesAllRead
  cases first : FileIo.open_in env oldfile sys with
  | mk opened rest =>
    obtain ⟨f, sys₁⟩ := rest
    rw [first] at untouched
    cases opened with
    | false =>
      refine iff_of_true (by rintro (failed | failed) <;> cases failed) ?_
      intro _ _ _ _ _ impossible
      cases impossible
    | true =>
      obtain ⟨clock, rfl⟩ := untouched
      have sound := open_in_sound first
      have untouched' := open_in_untouched env file_to_check (later sys clock)
      dsimp only
      cases second : FileIo.open_in env file_to_check (later sys clock) with
      | mk opened rest =>
        obtain ⟨g, sys₂⟩ := rest
        rw [second] at untouched'
        cases opened with
        | false =>
          refine iff_of_true ?_ ?_
          · rintro (failed | failed)
            · exact Bool.noConfusion (failed.symm.trans sound)
            · cases failed
          · rintro _ _ _ _ _ ⟨⟩ impossible
            rw [second] at impossible
            cases impossible
        | true =>
          obtain ⟨clock', rfl⟩ := untouched'
          have sound' := open_in_sound second
          refine Iff.trans (opened_reported U original newfile oldfile file_to_check delta_file ⟨sound, sound'⟩ rfl rfl) ?_
          constructor
          · rintro all _ _ _ _ s ⟨⟩ same
            rw [second] at same
            cases same
            exact all s
          · exact fun all s => all f g _ _ s rfl second

/-- Every run reports the failed reads of its inputs as I/O errors, and spares the destination,
    exactly where no probe past the end of an input is such a read. Which reads have failed
    can be told from the handles that the run leaves. -/
theorem failed_reads_are_reported (env : Environment) (U : StrongHash) (original newfile : Signature)
    (oldfile file_to_check delta_file : Path) (sys : System) :
    (Reported sys (Delta.generate_delta env U original newfile oldfile file_to_check delta_file sys) ↔
      ProbesAllRead env U original newfile oldfile file_to_check delta_file sys) ∧
    ErrorsStay env U original newfile oldfile file_to_check delta_file sys :=
  ⟨reported_iff env U original newfile oldfile file_to_check delta_file sys,
    errors_stay env U original newfile oldfile file_to_check delta_file sys⟩

/-- The old file cannot be read at its end. -/
def unreadableEnd : Environment where
  media := fun p => if p.filename = "old" then { badFrom := some 1 } else {}

/-- A run in which the probe of the old file fails. -/
def misreportedRun : GenerateRun :=
  Delta.generate_delta unreadableEnd .padded (Creating.signature .padded [7] .Skip) (Creating.signature .padded [7] .Skip)
    ⟨"", "old"⟩ ⟨"", "new"⟩ ⟨"", "delta"⟩ (Creating.bytePair 7 7)

/-- It is reported as a changed input. -/
theorem failed_probe_is_misreported : ¬ Reported (Creating.bytePair 7 7) misreportedRun := by
  have flagged : misreportedRun.old.has_error = true := by decide +kernel
  have result : misreportedRun.result = .error ⟨.integrity_mismatch, "Old input changed or failed while reading"⟩ := by
    decide +kernel
  intro reported
  obtain ⟨⟨message, other⟩, _⟩ := reported (.inl flagged)
  rw [result] at other
  cases other

end

end Roll.Blaming
