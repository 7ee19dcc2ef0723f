import Roll.Counting
import Roll.Creating
import Roll.Indexing

/-!
Which record a new chunk gets, and with it the bytes of a delta: as long as the
inputs keep their bytes, both are determined by the two chunk lists and these
bytes, whatever else happens to a generation that succeeds.
-/
namespace Roll.Selecting
open Roll.Parsing Roll.Outcome Roll.Cursor Roll.Calm Roll.Chunker Roll.Evaluation Roll.Committing Roll.Staging
  Roll.Swapping
  Roll.Generating Roll.Creating Roll.Indexing
open Roll.Counting (Call Counts)
open Roll.Applying (Undisturbed)
open Roll.Chunking (Pieces)

variable {U : StrongHash}

/-! ### The choice -/

/-- The diff of two blocks. -/
def diffOf (old_data new_data : List UInt8) : List UInt8 := ((Diff.createDiff old_data new_data {}).map (·.1)).getD []

/-- The old chunk that is reused for new chunk `i`. -/
def reused (olds : List SignedChunk) (i : Nat) (chunk : SignedChunk) : Option Nat :=
  if (olds[i]?.map (·.same chunk)).getD false then some i else olds.findIdx? (·.same chunk)

/-- The record of new chunk `i`. -/
def select (olds : List SignedChunk) (old new : List UInt8) (i : Nat) (chunk : SignedChunk) : Call :=
  match reused olds i chunk with
  | some source => .original (UInt64.ofNat source) chunk.hash
  | none =>
    match olds[i]? with
    | none => .added chunk.hash (chunkBytes new chunk)
    | some original =>
      let diff := diffOf (chunkBytes old original) (chunkBytes new chunk)
      if Delta.pays i (chunkBytes new chunk) diff then
        .modified (UInt64.ofNat i) (UInt64.ofNat (chunkBytes new chunk).length) chunk.hash diff
      else .added chunk.hash (chunkBytes new chunk)

/-- The records of the new chunks from position `i` on. -/
def selection (olds : List SignedChunk) (old new : List UInt8) (i : Nat) (news : List SignedChunk) : List Call :=
  (news.zipIdx i).map fun q => select olds old new q.2 q.1

/-- The buffers of the generator have no influence on its diffs. -/
theorem createDiff_scratch {old_data new_data diff : List UInt8} {scratch scratch' : Scratch}
    (made : Diff.createDiff old_data new_data scratch = some (diff, scratch')) : diff = diffOf old_data new_data := by
  have free : (Diff.myersSES old_data new_data Diff.D_LIMIT scratch).map (·.1) =
      (Diff.myersSES old_data new_data Diff.D_LIMIT {}).map (·.1) := by
    unfold Diff.myersSES
    split
    · rfl
    · split
      · rfl
      · split
        · rfl
        · rfl
  unfold diffOf
  unfold Diff.createDiff at made ⊢
  generalize Diff.myersSES old_data new_data Diff.D_LIMIT scratch = r at made free
  generalize Diff.myersSES old_data new_data Diff.D_LIMIT {} = r' at free ⊢
  cases r with
  | none => cases made
  | some found =>
    cases r' with
    | none => cases free
    | some found' =>
      obtain ⟨ses, scratch₁⟩ := found
      obtain ⟨ses', scratch₂⟩ := found'
      obtain rfl : ses = ses' := Option.some.inj free
      cases ses with
      | none => exact (Prod.mk.inj (Option.some.inj made)).1.symm
      | some ses => exact (Prod.mk.inj (Option.some.inj made)).1.symm

variable {olds : List SignedChunk}

/-- No flag is set in the generator's calls. -/
def unused (olds : List SignedChunk) : List Bool := List.replicate olds.length false

theorem free_unused {chunk : SignedChunk} {position : Nat} : Free olds (unused olds) chunk position ↔
    ∃ c, olds[position]? = some c ∧ c.same chunk = true := by
  constructor
  · exact fun free => free.2
  · rintro ⟨c, here, same⟩
    have below := (List.getElem?_eq_some_iff.mp here).1
    exact ⟨by rw [unused, List.getElem?_replicate, if_pos below], c, here, same⟩

theorem findIdx_least {chunk : SignedChunk} {source : Nat} : olds.findIdx? (·.same chunk) = some source ↔
    IsLeast {p | ∃ c, olds[p]? = some c ∧ c.same chunk = true} source := by
  rw [List.findIdx?_eq_some_iff_getElem]
  constructor
  · rintro ⟨below, same, earlier⟩
    refine ⟨⟨_, List.getElem?_eq_getElem below, same⟩, fun other here => ?_⟩
    obtain ⟨c, here, same'⟩ := here
    obtain ⟨below', rfl⟩ := List.getElem?_eq_some_iff.mp here
    by_contra before
    exact earlier other (by omega) same'
  · rintro ⟨⟨c, here, same⟩, least⟩
    obtain ⟨below, rfl⟩ := List.getElem?_eq_some_iff.mp here
    refine ⟨below, same, fun other before same' => ?_⟩
    have := least ⟨_, List.getElem?_eq_getElem (Nat.lt_trans before below), same'⟩
    omega

/-- Without flags, the index returns the first chunk that is the same. -/
theorem find_unused_first {index : ChunkIndex} (ready : Ready olds (unused olds) index) (chunk : SignedChunk) :
    (ChunkIndex.find_unused (unused olds) chunk index).1 = olds.findIdx? (·.same chunk) ∧
    Ready olds (unused olds) (ChunkIndex.find_unused (unused olds) chunk index).2 := by
  obtain ⟨scanned, ready'⟩ := find_unused_spec List.length_replicate ready chunk
  refine ⟨?_, ready'⟩
  refine scanned.unique ⟨?_, ?_⟩
  · rw [List.findIdx?_isSome, List.any_eq_true]
    constructor
    · rintro ⟨c, listed, same⟩
      obtain ⟨position, below, rfl⟩ := List.getElem_of_mem listed
      exact ⟨position, free_unused.mpr ⟨_, List.getElem?_eq_getElem below, same⟩⟩
    · rintro ⟨position, free⟩
      obtain ⟨c, here, same⟩ := free_unused.mp free
      exact ⟨c, List.mem_of_getElem? here, same⟩
  · intro position found
    have same : {p | Free olds (unused olds) chunk p} = {p | ∃ c, olds[p]? = some c ∧ c.same chunk = true} :=
      Set.ext fun _ => free_unused
    exact same ▸ findIdx_least.mp found

/-! ### The state of a run -/

/-- The writer of the generator. -/
def writer (s : GenerateState) : DeltaWriter := { out_ := s.transaction.file_, bytes_written_ := s.bytes_written }

/-- The inputs keep the bytes `C`, `written` is in the output, and the index is that of `olds`. -/
structure Clear (C : Delta.Input → List UInt8) (olds : List SignedChunk) (written : List UInt8) (s : GenerateState) :
    Prop where
  inputs : ∀ input, Unreplaced (C input) (Delta.handle s input)
  output : Counts 0 written (writer s)
  ready : Ready olds (unused olds) s.chunk_index

variable {C : Delta.Input → List UInt8} {written : List UInt8} {s : GenerateState}

/-- A size that one read gets from the stream. -/
def Sizable (chunk : SignedChunk) : Prop := 0 < chunk.chunk_size ∧ chunk.chunk_size ≤ DELTA_MAX_CHUNK_SIZE

theorem read_at_clear (clear : Clear C olds written s) (input : Delta.Input) {n : Nat} (some : 0 < n)
    (small : n ≤ FileIo.READ_BUFFER_SIZE) (p : Nat) :
    Yields (Delta.read_at input n p) s
      (fun r s' => Clear C olds written s' ∧ (r.2 = false → r.1 = ((C input).drop p).take n)) True := by
  obtain ⟨kept, read⟩ := read_chunk_at_unreplaced (clear.inputs input) some small p
  refine yields_ok rfl ⟨⟨fun other => ?_, ?_, ?_⟩, read⟩
  · by_cases same : other = input
    · subst same
      rwa [handle_put]
    · rw [handle_put_other same]
      exact clear.inputs other
  · cases input <;> exact clear.output
  · cases input <;> exact clear.ready

/-- A signed chunk is read as what the file has there. -/
theorem readSignedChunk_clear (clear : Clear C olds written s) (input : Delta.Input) {chunk : SignedChunk}
    (sizable : Sizable chunk) :
    Yields (Delta.readSignedChunk U input chunk) s
      (fun data s' => Clear C olds written s' ∧ data = chunkBytes (C input) chunk) True := by
  unfold Delta.readSignedChunk
  refine yields_bind (read_at_clear clear input sizable.1 (Nat.le_trans sizable.2 (by decide)) _) (fun any => any) ?_
  rintro ⟨data, failed⟩ s₁ ⟨clear₁, read⟩
  dsimp only at read ⊢
  refine yields_bind (Generating.fail_if_spec _ _ _) (fun _ => trivial) ?_
  rintro _ _ ⟨rfl, accepted⟩
  obtain ⟨rfl, _⟩ : failed = false ∧ data.length = chunk.chunk_size := by simpa using accepted
  refine yields_bind (Generating.fail_if_spec _ _ _) (fun _ => trivial) ?_
  rintro _ _ ⟨rfl, _⟩
  exact yields_pure ⟨clear₁, read rfl⟩

theorem probe_end_clear (clear : Clear C olds written s) (input : Delta.Input) (message : String) :
    Yields (Delta.probe_end input message) s (fun _ s' => Clear C olds written s') True := by
  have size : Delta.size_of input s = .ok (Delta.handle s input).size s := rfl
  unfold Delta.probe_end
  rw [Yields, Leaves, bind_ok size]
  refine yields_bind (read_at_clear clear input Nat.one_pos (by decide) _) (fun any => any) ?_
  rintro ⟨data, failed⟩ s₁ ⟨clear₁, _⟩
  refine (Generating.fail_if_spec _ _ _).mono ?_ (fun _ => trivial)
  rintro _ _ ⟨rfl, _⟩
  exact clear₁

theorem verify_chunks_clear : ∀ (chunks : List SignedChunk) (s : GenerateState), (∀ c ∈ chunks, Sizable c) →
    Clear C olds written s →
    Yields (Delta.verify_chunks U chunks) s (fun _ s' => Clear C olds written s') True := by
  intro chunks
  induction chunks with
  | nil =>
    intro s _ clear
    exact yields_pure clear
  | cons chunk chunks ih =>
    intro s sizable clear
    obtain ⟨first, rest⟩ := List.forall_mem_cons.mp sizable
    unfold Delta.verify_chunks
    refine yields_bind (readSignedChunk_clear clear .old first) (fun any => any) ?_
    rintro _ s₁ ⟨clear₁, _⟩
    exact ih s₁ rest clear₁

theorem verifyOldFile_clear {chunks : List SignedChunk} (sizable : ∀ c ∈ chunks, Sizable c)
    (clear : Clear C olds written s) :
    Yields (Delta.verifyOldFile U chunks) s (fun _ s' => Clear C olds written s') True := by
  unfold Delta.verifyOldFile
  refine yields_bind (verify_chunks_clear chunks s sizable clear) (fun any => any) ?_
  exact fun _ s₁ clear₁ => probe_end_clear clear₁ .old _

theorem hash_chunks_clear : ∀ (chunks : List SignedChunk) (state : U.State) (s : GenerateState),
    (∀ c ∈ chunks, Sizable c) → Clear C olds written s →
    Yields (Delta.hash_chunks U chunks state) s (fun state' s' => Clear C olds written s' ∧
      state' = (chunks.map (chunkBytes (C .new))).foldl U.update state) True := by
  intro chunks
  induction chunks with
  | nil =>
    intro state s _ clear
    exact yields_pure ⟨clear, rfl⟩
  | cons chunk chunks ih =>
    intro state s sizable clear
    obtain ⟨first, rest⟩ := List.forall_mem_cons.mp sizable
    unfold Delta.hash_chunks
    refine yields_bind (readSignedChunk_clear clear .new first) (fun any => any) ?_
    rintro _ s₁ ⟨clear₁, rfl⟩
    exact ih _ s₁ rest clear₁

/-! ### Records -/

theorem find_reusable_clear (clear : Clear C olds written s) (i : Nat) (chunk : SignedChunk) :
    Yields (Delta.find_reusable olds i chunk) s
      (fun found s' => Clear C olds written s' ∧ found = reused olds i chunk) True := by
  unfold reused
  by_cases aligned : (olds[i]?.map (·.same chunk)).getD false = true
  · have run : Delta.find_reusable olds i chunk s = .ok (some i) s := if_pos aligned
    exact yields_ok run ⟨clear, (if_pos aligned).symm⟩
  · obtain ⟨found, ready⟩ := find_unused_first clear.ready chunk
    have run : Delta.find_reusable olds i chunk s = .ok (ChunkIndex.find_unused (unused olds) chunk s.chunk_index).1
        { s with chunk_index := (ChunkIndex.find_unused (unused olds) chunk s.chunk_index).2 } := if_neg aligned
    exact yields_ok run ⟨⟨clear.inputs, clear.output, ready⟩, by rw [if_neg aligned, found]⟩

theorem create_diff_clear (clear : Clear C olds written s) (old_data new_data : List UInt8) :
    Yields (Delta.create_diff old_data new_data) s
      (fun diff s' => Clear C olds written s' ∧ diff = diffOf old_data new_data) True := by
  cases made : Diff.createDiff old_data new_data s.scratch with
  | none =>
    have run : Delta.create_diff old_data new_data s = .error ⟨.internal_error, "index out of range"⟩ s := by
      simp only [Delta.create_diff, made]
    exact yields_error run trivial
  | some result =>
    obtain ⟨diff, scratch⟩ := result
    have run : Delta.create_diff old_data new_data s = .ok diff { s with scratch := scratch } := by
      simp only [Delta.create_diff, made]
    exact yields_ok run ⟨⟨clear.inputs, clear.output, clear.ready⟩, createDiff_scratch made⟩

/-- A call of the writer leaves the rest of the generator alone. -/
theorem writing_counts (output : Counts 0 written (writer s)) (call : Call) :
    Yields (Delta.writing call.run) s (fun _ s' => Counts 0 (written ++ call.bytes) (writer s') ∧
      (∀ input, Delta.handle s' input = Delta.handle s input) ∧ s'.chunk_index = s.chunk_index) True := by
  have called := Counting.call_counts output call
  unfold Yields Leaves at called ⊢
  unfold Delta.writing
  cases run : call.run (writer s) with
  | error message w =>
    rw [show call.run { out_ := s.transaction.file_, bytes_written_ := s.bytes_written } = _ from run]
    exact trivial
  | ok _ w =>
    rw [run] at called
    rw [show call.run { out_ := s.transaction.file_, bytes_written_ := s.bytes_written } = _ from run]
    exact ⟨called.1, fun input => (by cases input <;> rfl), rfl⟩

theorem call_clear (clear : Clear C olds written s) (call : Call) :
    Yields (Delta.writing call.run) s (fun _ s' => Clear C olds (written ++ call.bytes) s') True := by
  refine (writing_counts clear.output call).mono ?_ (fun any => any)
  rintro _ s' ⟨output, handles, index⟩
  exact ⟨fun input => handles input ▸ clear.inputs input, output, index ▸ clear.ready⟩

theorem write_changed_clear (clear : Clear C olds written s) (sizable : ∀ c ∈ olds, Sizable c) {i : Nat}
    {chunk : SignedChunk} (unlike : reused olds i chunk = none) :
    Yields (Delta.write_changed olds i chunk (chunkBytes (C .new) chunk)) s (fun _ s' =>
      Clear C olds (written ++ (select olds (C .old) (C .new) i chunk).bytes) s') True := by
  unfold Delta.write_changed select
  rw [unlike]
  dsimp only
  cases place : olds[i]? with
  | none => exact call_clear clear (.added chunk.hash (chunkBytes (C .new) chunk))
  | some original =>
    have known := sizable original (List.mem_of_getElem? place)
    dsimp only
    refine yields_bind (read_at_clear clear .old known.1 (Nat.le_trans known.2 (by decide)) _) (fun any => any) ?_
    rintro ⟨old_data, failed⟩ s₁ ⟨clear₁, read⟩
    dsimp only at read ⊢
    refine yields_bind (Generating.fail_if_spec _ _ _) (fun _ => trivial) ?_
    rintro _ _ ⟨rfl, accepted⟩
    obtain ⟨rfl, _⟩ : failed = false ∧ old_data.length = original.chunk_size := by simpa using accepted
    obtain rfl : old_data = chunkBytes (C .old) original := read rfl
    refine yields_bind (create_diff_clear clear₁ _ _) (fun any => any) ?_
    rintro _ s₂ ⟨clear₂, rfl⟩
    by_cases pays : Delta.pays i (chunkBytes (C .new) chunk)
        (diffOf (chunkBytes (C .old) original) (chunkBytes (C .new) chunk)) = true
    · rw [if_pos pays, if_pos pays]
      exact call_clear clear₂ (.modified _ _ chunk.hash _)
    · rw [if_neg pays, if_neg pays]
      exact call_clear clear₂ (.added chunk.hash (chunkBytes (C .new) chunk))

theorem process_chunk_clear (clear : Clear C olds written s) (sizable : ∀ c ∈ olds, Sizable c) (i : Nat)
    {chunk : SignedChunk} (sizable' : Sizable chunk) :
    Yields (Delta.process_chunk U olds i chunk) s (fun _ s' =>
      Clear C olds (written ++ (select olds (C .old) (C .new) i chunk).bytes) s') True := by
  have counted : ∀ {content : List UInt8} {s₁ : GenerateState}, Clear C olds content s₁ →
      Yields Delta.count_chunk s₁ (fun _ s' => Clear C olds content s') True :=
    fun clear₁ => yields_ok rfl ⟨clear₁.inputs, clear₁.output, clear₁.ready⟩
  unfold Delta.process_chunk
  refine yields_bind (find_reusable_clear clear i chunk) (fun any => any) ?_
  rintro found s₁ ⟨clear₁, choice⟩
  cases found with
  | some source =>
    have chosen : select olds (C .old) (C .new) i chunk = .original (UInt64.ofNat source) chunk.hash := by
      rw [select, ← choice]
    rw [chosen]
    exact yields_bind (call_clear clear₁ (.original _ chunk.hash)) (fun any => any) fun _ s₂ clear₂ => counted clear₂
  | none =>
    refine yields_bind (readSignedChunk_clear clear₁ .new sizable') (fun any => any) ?_
    rintro _ s₂ ⟨clear₂, rfl⟩
    exact yields_bind (write_changed_clear clear₂ sizable choice.symm) (fun any => any) fun _ s₃ clear₃ => counted clear₃

theorem process_clear (sizable : ∀ c ∈ olds, Sizable c) : ∀ (news : List SignedChunk) (i : Nat) (written : List UInt8)
    (s : GenerateState), (∀ c ∈ news, Sizable c) → Clear C olds written s →
    Yields (Delta.processMultipleChunks U olds i news) s (fun _ s' =>
      Clear C olds (written ++ ((selection olds (C .old) (C .new) i news).map Call.bytes).flatten) s') True := by
  intro news
  induction news with
  | nil =>
    intro i written s _ clear
    exact yields_pure (by simpa [selection] using clear)
  | cons chunk news ih =>
    intro i written s sizable' clear
    obtain ⟨first, rest⟩ := List.forall_mem_cons.mp sizable'
    unfold Delta.processMultipleChunks
    refine yields_bind (process_chunk_clear clear sizable i first) (fun any => any) ?_
    intro _ s₁ clear₁
    refine (ih (i + 1) _ s₁ rest clear₁).mono ?_ (fun any => any)
    intro _ s₂ clear₂
    rw [List.append_assoc] at clear₂
    exact clear₂

/-! ### The whole delta -/

theorem tiles_sizable : ∀ (chunks : List SignedChunk) (covered size : Nat), Delta.tiles chunks covered size = true →
    ∀ c ∈ chunks, Sizable c := by
  intro chunks
  induction chunks with
  | nil =>
    intro covered size _ c impossible
    cases impossible
  | cons chunk chunks ih =>
    intro covered size tiled
    unfold Delta.tiles at tiled
    by_cases refused : chunk.start_offset ≠ covered ∨ chunk.chunk_size = 0 ∨ chunk.chunk_size > DELTA_MAX_CHUNK_SIZE ∨
        chunk.chunk_size > size - covered
    · rw [if_pos refused] at tiled
      cases tiled
    · rw [if_neg refused] at tiled
      exact List.forall_mem_cons.mpr ⟨⟨by omega, by omega⟩, ih _ _ tiled⟩

/-- The trailer: the digest that the signature of the new file has, or that of its chunks. -/
def trailerOf (U : StrongHash) (news : List SignedChunk) (new precomputed : List UInt8) : List UInt8 :=
  if precomputed = [] then streamed U (news.map (chunkBytes new)) else precomputed

/-- The delta of two chunk lists. -/
def deltaOf (U : StrongHash) (olds news : List SignedChunk) (old new precomputed : List UInt8) : List UInt8 :=
  Call.header.bytes ++ ((selection olds old new 0 news).map Call.bytes).flatten ++
    (Call.trailer (trailerOf U news new precomputed)).bytes

theorem writeTrailer_clear (clear : Clear C olds written s) {news : List SignedChunk} (sizable : ∀ c ∈ news, Sizable c)
    (precomputed : List UInt8) :
    Yields (Delta.writeTrailer U news precomputed) s (fun _ s' =>
      Clear C olds (written ++ (Call.trailer (trailerOf U news (C .new) precomputed)).bytes) s') True := by
  have ends : ∀ {s₁ : GenerateState} (digest : List UInt8), Clear C olds written s₁ →
      Yields (Delta.probe_end .new "New input changed or failed while reading" >>= fun _ =>
        Delta.writing (DeltaWriter.write_trailer digest)) s₁
        (fun _ s' => Clear C olds (written ++ (Call.trailer digest).bytes) s') True := by
    intro s₁ digest clear₁
    refine yields_bind (probe_end_clear clear₁ .new _) (fun any => any) ?_
    exact fun _ s₂ clear₂ => call_clear clear₂ (.trailer digest)
  unfold Delta.writeTrailer trailerOf
  dsimp only
  by_cases skipped : precomputed = []
  · rw [if_pos skipped, if_pos skipped]
    refine yields_bind (hash_chunks_clear news U.init s sizable clear) (fun any => any) ?_
    rintro _ s₁ ⟨clear₁, rfl⟩
    exact ends _ clear₁
  · rw [if_neg skipped, if_neg skipped]
    exact ends precomputed clear

theorem check_sizes_clear (olds news : List SignedChunk) : Yields (Delta.check_sizes olds news) s
    (fun _ s' => s' = s ∧ (∀ c ∈ olds, Sizable c) ∧ ∀ c ∈ news, Sizable c) True := by
  have size : Delta.size_of .old s = .ok s.old.size s := rfl
  have size' : Delta.size_of .new s = .ok s.file.size s := rfl
  unfold Delta.check_sizes
  rw [Yields, Leaves, bind_ok size, bind_ok size']
  refine (fail_if_spec _ _ _).mono ?_ (fun _ => trivial)
  rintro _ _ ⟨rfl, accepted⟩
  simp only [Bool.or_eq_false_iff, Bool.not_eq_false'] at accepted
  exact ⟨rfl, tiles_sizable _ _ _ accepted.1, tiles_sizable _ _ _ accepted.2⟩

/-- The inputs can be closed without a change to the output. -/
theorem close_inputs_counts (output : Counts 0 written (writer s)) :
    Yields Delta.close_inputs s (fun _ s' => Counts 0 written (writer s')) True := by
  unfold Yields Leaves Delta.close_inputs
  generalize s.old.close = r
  generalize s.file.close = r'
  obtain ⟨shut, f⟩ := r
  obtain ⟨shut', g⟩ := r'
  cases shut with
  | false => exact trivial
  | true =>
    cases shut' with
    | false => exact trivial
    | true => exact output

/-- A generation that gets to its commit has written the delta of its chunk lists. -/
theorem build_clear {original newfile : Signature} (inputs : ∀ input, Unreplaced (C input) (Delta.handle s input))
    (output : Counts 0 [] (writer s)) :
    Yields (Delta.build U original newfile) s (fun _ s' => Counts 0
      (deltaOf U original.get_chunks newfile.get_chunks (C .old) (C .new) newfile.whole_file_hash) (writer s')) True := by
  unfold Delta.build
  refine yields_bind (check_sizes_clear original.get_chunks newfile.get_chunks) (fun any => any) ?_
  rintro _ _ ⟨rfl, sizable, sizable'⟩
  refine yields_bind (writing_counts output .header) (fun any => any) ?_
  rintro _ s₁ ⟨output₁, handles, _⟩
  have inputs₁ : ∀ input, Unreplaced (C input) (Delta.handle s₁ input) := fun input => handles input ▸ inputs input
  have indexed : Yields (Delta.build_index original.get_chunks) s₁
      (fun _ s' => Clear C original.get_chunks Call.header.bytes s') True := by
    refine yields_ok rfl ⟨fun input => ?_, output₁, ready_build _ _⟩
    cases input with
    | old => exact inputs₁ .old
    | new => exact inputs₁ .new
  refine yields_bind indexed (fun any => any) ?_
  intro _ s₂ clear₂
  refine yields_bind (process_clear sizable newfile.get_chunks 0 _ s₂ sizable' clear₂) (fun any => any) ?_
  intro _ s₃ clear₃
  refine yields_bind (verifyOldFile_clear sizable clear₃) (fun any => any) ?_
  intro _ s₄ clear₄
  refine yields_bind (writeTrailer_clear clear₄ sizable' newfile.whole_file_hash) (fun any => any) ?_
  exact fun _ s₅ clear₅ => close_inputs_counts clear₅.output

section
variable {env : Environment} {sys : System} {old new : List UInt8} {original newfile : Signature}
  {oldfile file_to_check delta_file : Path}

/-- A generation that succeeds on files that nobody replaces delivers the delta of its chunk
    lists, and counts its bytes. -/
theorem generate_selects (ours : ∀ k < OutputTransaction.ATTEMPTS,
      sys.fs.names (env.locate (attempt env sys delta_file k)) = none → Ours env (attempt env sys delta_file k))
    (lasting : Lasting env sys oldfile old) (lasting' : Lasting env sys file_to_check new) :
    let run := Delta.generate_delta env U original newfile oldfile file_to_check delta_file sys
    let delta := deltaOf U original.get_chunks newfile.get_chunks old new newfile.whole_file_hash
    ∀ stats, run.result = .ok stats → run.system.Holds env delta_file delta ∧ stats.bytes_written = delta.length := by
  intro run delta stats ok
  obtain ⟨f, g, clock, clock', first, second, runIs⟩ := generate_opens ok
  have same : run = _ := runIs
  rw [same] at ok ⊢
  obtain ⟨t, sys', a, succeeds⟩ := opened_succeeds (s := later (later sys clock) clock') ours f g stats ok
  have kept := open_in_unreplaced lasting first
  have lasting₁ : Lasting env (later sys clock) file_to_check new := lasting'
  have kept' := open_in_unreplaced lasting₁ second
  have inputs : ∀ input, Unreplaced (contents old new input)
      (Delta.handle { old := f, file := g, transaction := t, system := sys' } input) := by
    intro input
    cases input with
    | old => exact kept
    | new => exact kept'
  have counts := (build_clear inputs ⟨succeeds.empty, succeeds.quiet, rfl⟩).of_ok succeeds.built
  have data : a.transaction.file_.f_.data = delta := (counts.stores.stored counts.quiet).1
  refine ⟨data ▸ succeeds.holds, ?_⟩
  have count := counts.count
  rw [Nat.zero_add] at count
  rw [succeeds.counts]
  exact count

/-! ### The law -/

/-- The record of new chunk `i`, as the two files alone determine it. The positions of a
    chunk list fit 64 bits. -/
inductive Selects (olds : List SignedChunk) (old new : List UInt8) (i : Nat) (chunk : SignedChunk) : Call → Prop
  | same {c : SignedChunk} : olds[i]? = some c → c.same chunk = true →
      Selects olds old new i chunk (.original (UInt64.ofNat i) chunk.hash)
  | moved {source : Nat} : (¬ ∃ c, olds[i]? = some c ∧ c.same chunk = true) →
      IsLeast {p | ∃ c, olds[p]? = some c ∧ c.same chunk = true} source →
      Selects olds old new i chunk (.original (UInt64.ofNat source) chunk.hash)
  | modified {c : SignedChunk} {data diff : List UInt8} : (∀ d ∈ olds, ¬ d.same chunk = true) → olds[i]? = some c →
      data = chunkBytes new chunk → diff = diffOf (chunkBytes old c) data → diff ≠ [] →
      (Call.modified (UInt64.ofNat i) (UInt64.ofNat data.length) chunk.hash diff).bytes.length <
        (Call.added chunk.hash data).bytes.length →
      Selects olds old new i chunk (.modified (UInt64.ofNat i) (UInt64.ofNat data.length) chunk.hash diff)
  | added {data : List UInt8} : (∀ d ∈ olds, ¬ d.same chunk = true) → data = chunkBytes new chunk →
      (∀ c diff, olds[i]? = some c → diff = diffOf (chunkBytes old c) data → diff = [] ∨
        (Call.added chunk.hash data).bytes.length ≤
          (Call.modified (UInt64.ofNat i) (UInt64.ofNat data.length) chunk.hash diff).bytes.length) →
      Selects olds old new i chunk (.added chunk.hash data)

variable {i : Nat} {chunk : SignedChunk} {call call' : Call}

/-- The sizes that are compared are those of the two records. -/
theorem pays_iff (i : Nat) (digest data diff : List UInt8) : Delta.pays i data diff = true ↔ diff ≠ [] ∧
    (Call.modified (UInt64.ofNat i) (UInt64.ofNat data.length) digest diff).bytes.length <
      (Call.added digest data).bytes.length := by
  unfold Delta.pays DeltaWriter.modified_size DeltaWriter.added_size
  rw [Bool.and_eq_true, decide_eq_true_eq, decide_eq_true_eq]
  refine and_congr_right fun _ => ?_
  simp only [Call.bytes, Counting.push_varint_eq, List.length_append, Counting.varint_length, List.length_singleton]
  omega

theorem aligned_iff : (olds[i]?.map (·.same chunk)).getD false = true ↔ ∃ c, olds[i]? = some c ∧ c.same chunk = true := by
  cases olds[i]? <;> simp

theorem reused_none : reused olds i chunk = none ↔ ∀ c ∈ olds, ¬ c.same chunk = true := by
  unfold reused
  by_cases aligned : (olds[i]?.map (·.same chunk)).getD false = true
  · rw [if_pos aligned]
    obtain ⟨c, here, same⟩ := aligned_iff.mp aligned
    exact iff_of_false nofun fun unlike => unlike c (List.mem_of_getElem? here) same
  · rw [if_neg aligned, List.findIdx?_eq_none_iff]
    exact forall₂_congr fun c _ => (Bool.not_eq_true _).symm.to_iff

/-- `select` follows the law. -/
theorem selects_select (olds : List SignedChunk) (old new : List UInt8) (i : Nat) (chunk : SignedChunk) :
    Selects olds old new i chunk (select olds old new i chunk) := by
  unfold select
  cases choice : reused olds i chunk with
  | some source =>
    unfold reused at choice
    by_cases aligned : (olds[i]?.map (·.same chunk)).getD false = true
    · rw [if_pos aligned] at choice
      obtain rfl := Option.some.inj choice
      obtain ⟨c, here, same⟩ := aligned_iff.mp aligned
      exact .same here same
    · rw [if_neg aligned] at choice
      exact .moved (mt aligned_iff.mpr aligned) (findIdx_least.mp choice)
  | none =>
    have unlike := reused_none.mp choice
    dsimp only
    cases place : olds[i]? with
    | none => exact .added unlike rfl fun c diff here => by rw [place] at here; cases here
    | some original =>
      dsimp only
      by_cases pays : Delta.pays i (chunkBytes new chunk)
          (diffOf (chunkBytes old original) (chunkBytes new chunk)) = true
      · rw [if_pos pays]
        obtain ⟨some, short⟩ := (pays_iff i chunk.hash _ _).mp pays
        exact .modified unlike place rfl rfl some short
      · rw [if_neg pays]
        refine .added unlike rfl fun c diff here made => ?_
        obtain rfl : original = c := Option.some.inj (place.symm.trans here)
        rw [pays_iff i chunk.hash, ← made] at pays
        rw [or_iff_not_imp_left]
        exact fun some => Nat.le_of_not_lt fun short => pays ⟨some, short⟩

/-- The law determines the record. -/
theorem selects_unique (selects : Selects olds old new i chunk call) (selects' : Selects olds old new i chunk call') :
    call = call' := by
  cases selects with
  | same here equal =>
    cases selects' with
    | same => rfl
    | moved other => exact absurd ⟨_, here, equal⟩ other
    | modified unlike => exact absurd equal (unlike _ (List.mem_of_getElem? here))
    | added unlike => exact absurd equal (unlike _ (List.mem_of_getElem? here))
  | moved other least =>
    cases selects' with
    | same here equal => exact absurd ⟨_, here, equal⟩ other
    | moved _ least' => rw [least.unique least']
    | modified unlike =>
      obtain ⟨c, here, equal⟩ := least.1
      exact absurd equal (unlike c (List.mem_of_getElem? here))
    | added unlike =>
      obtain ⟨c, here, equal⟩ := least.1
      exact absurd equal (unlike c (List.mem_of_getElem? here))
  | modified unlike place data diffed some short =>
    cases selects' with
    | same here equal => exact absurd equal (unlike _ (List.mem_of_getElem? here))
    | moved _ least =>
      obtain ⟨c, here, equal⟩ := least.1
      exact absurd equal (unlike c (List.mem_of_getElem? here))
    | modified _ place' data' diffed' =>
      cases Option.some.inj (place.symm.trans place')
      subst data data' diffed diffed'
      rfl
    | added _ data' long =>
      subst data data'
      rcases long _ _ place diffed with none | long
      · exact absurd none some
      · omega
  | added unlike data long =>
    cases selects' with
    | same here equal => exact absurd equal (unlike _ (List.mem_of_getElem? here))
    | moved _ least =>
      obtain ⟨c, here, equal⟩ := least.1
      exact absurd equal (unlike c (List.mem_of_getElem? here))
    | modified _ place data' diffed some short =>
      subst data data'
      rcases long _ _ place diffed with none | long
      · exact absurd none some
      · omega
    | added _ data' =>
      subst data data'
      rfl

theorem selects_selection (olds news : List SignedChunk) (old new : List UInt8) (i : Nat) :
    List.Forall₂ (fun q call => Selects olds old new q.2 q.1 call) (news.zipIdx i) (selection olds old new i news) := by
  rw [selection, List.forall₂_map_right_iff, List.forall₂_same]
  exact fun q _ => selects_select olds old new q.2 q.1

/-- So does a list of records. -/
theorem selects_all {calls : List Call} {news : List SignedChunk}
    (all : List.Forall₂ (fun q call => Selects olds old new q.2 q.1 call) (news.zipIdx i) calls) :
    calls = selection olds old new i news := by
  have law := selects_selection olds news old new i
  generalize selection olds old new i news = calls' at law ⊢
  generalize news.zipIdx i = qs at all law
  induction all generalizing calls' with
  | nil =>
    cases law
    rfl
  | cons selects _ ih =>
    cases law with
    | cons selects' law => rw [selects_unique selects selects', ih _ law]

/-- In a delta of two files that nobody replaces, record `i` is the one of the law, which
    determines it from the two chunk lists alone; so a chunk that the old file has anywhere
    is never sent again. -/
theorem record_selection (ours : ∀ k < OutputTransaction.ATTEMPTS,
      sys.fs.names (env.locate (attempt env sys delta_file k)) = none → Ours env (attempt env sys delta_file k))
    (lasting : Lasting env sys oldfile old) (lasting' : Lasting env sys file_to_check new) :
    let run := Delta.generate_delta env U original newfile oldfile file_to_check delta_file sys
    let olds := original.get_chunks
    ∀ stats, run.result = .ok stats → ∃ (calls : List Call) (trailer : List UInt8),
      run.system.Holds env delta_file
        (Call.header.bytes ++ (calls.map Call.bytes).flatten ++ (Call.trailer trailer).bytes) ∧
      List.Forall₂ (fun q call => Selects olds old new q.2 q.1 call) newfile.get_chunks.zipIdx calls ∧
      (∀ i chunk call call', Selects olds old new i chunk call → Selects olds old new i chunk call' → call = call') ∧
      ∀ (i : Nat) (chunk : SignedChunk), newfile.get_chunks[i]? = some chunk → (∃ c ∈ olds, c.same chunk = true) →
        ∃ (source : Nat) (c : SignedChunk), olds[source]? = some c ∧ c.same chunk = true ∧
          calls[i]? = some (.original (UInt64.ofNat source) chunk.hash) := by
  intro run olds stats ok
  refine ⟨_, _, (generate_selects ours lasting lasting' stats ok).1, selects_selection olds _ old new 0,
    fun _ _ _ _ => selects_unique, ?_⟩
  rintro i chunk here ⟨c, listed, equal⟩
  have record : (selection olds old new 0 newfile.get_chunks)[i]? = some (select olds old new i chunk) := by
    rw [selection, List.getElem?_map, List.getElem?_zipIdx, here]
    simp
  rw [record]
  have law := selects_select olds old new i chunk
  generalize select olds old new i chunk = call at law ⊢
  cases law with
  | same place equal => exact ⟨i, _, place, equal, rfl⟩
  | @moved source _ least =>
    obtain ⟨d, place, equal⟩ := least.1
    exact ⟨source, d, place, equal, rfl⟩
  | modified unlike => exact absurd equal (unlike c listed)
  | added unlike => exact absurd equal (unlike c listed)

/-- Two chunks change places in the new file, and each file may go on. -/
def ordered (rest : List UInt8) : List UInt8 := targetPiece ++ (5 :: targetPiece ++ rest)
def swapped (rest : List UInt8) : List UInt8 := 5 :: targetPiece ++ (targetPiece ++ rest)

theorem ordered_pieces {rest : List UInt8} {cs : List (List UInt8)} (pieces : Pieces Boundary rest cs) :
    Pieces Boundary (ordered rest) (targetPiece :: (5 :: targetPiece) :: cs) := targetPiece_pieces (inserted_pieces pieces)

theorem swapped_pieces {rest : List UInt8} {cs : List (List UInt8)} (pieces : Pieces Boundary rest cs) :
    Pieces Boundary (swapped rest) ((5 :: targetPiece) :: targetPiece :: cs) := inserted_pieces (targetPiece_pieces pieces)

/-- A last chunk, and what becomes of it. -/
def lastPiece : List UInt8 := (List.range 30).map UInt8.ofNat
def changedPiece : List UInt8 := lastPiece.set 12 0xFF

def swapRun (rest : List UInt8) : GenerateRun :=
  Delta.generate_delta {} .padded (signature .padded (ordered rest) .Skip) (signature .padded (swapped changedPiece) .Skip)
    ⟨"", "old"⟩ ⟨"", "new"⟩ ⟨"", "delta"⟩ (filePair (ordered rest) (swapped changedPiece))

theorem ordered_small {rest : List UInt8} (short : rest.length ≤ 30) : (ordered rest).length ≤ STREAMOFF_MAX := by
  have max : 1025 + 30 ≤ STREAMOFF_MAX := by decide
  rw [ordered, List.length_append, List.length_append, List.length_cons, targetPiece_length]
  omega

theorem swapped_small {rest : List UInt8} (short : rest.length ≤ 30) : (swapped rest).length ≤ STREAMOFF_MAX := by
  have max : 1025 + 30 ≤ STREAMOFF_MAX := by decide
  rw [swapped, List.length_append, List.length_append, List.length_cons, targetPiece_length]
  omega

theorem swapRun_succeeds {rest : List UInt8} (short : rest.length ≤ 30) : ∃ stats, (swapRun rest).result = .ok stats :=
  (generate_calm Applying.undisturbed_default (signs_signature .padded _ .Skip) (signs_signature .padded _ .Skip)
    (filePair_old _ _) (filePair_new _ _) (usable_filePair _ _) (ordered_small short) (swapped_small (by decide)) (by decide)).1

theorem changedPiece_pieces : Pieces Boundary changedPiece [changedPiece] := last_short (by decide) (by decide)

theorem swapped_chunks : (signature .padded (swapped changedPiece) .Skip).get_chunks =
    sign .padded 0 [5 :: targetPiece, targetPiece, changedPiece] := by
  rw [(signs_signature .padded (swapped changedPiece) .Skip).spec.1, chunkList_pieces _ (swapped_pieces changedPiece_pieces)]

theorem ordered_chunks {rest : List UInt8} {cs : List (List UInt8)} (pieces : Pieces Boundary rest cs) :
    (signature .padded (ordered rest) .Skip).get_chunks = sign .padded 0 (targetPiece :: (5 :: targetPiece) :: cs) := by
  rw [(signs_signature .padded (ordered rest) .Skip).spec.1, chunkList_pieces _ (ordered_pieces pieces)]

/-- The records of the two chunks, and of the last one: it is modified where the old file has a
    chunk at its position, and added where it has none. -/
def movedCalls : List Call :=
  [.original 1 (StrongHash.padded.digest (5 :: targetPiece)), .original 0 (StrongHash.padded.digest targetPiece)]
def modifiedCall : Call := .modified 2 30 (StrongHash.padded.digest changedPiece) [0x44, 0, 0, 0, 12, 1, 0xFF]
def addedCall : Call := .added (StrongHash.padded.digest changedPiece) changedPiece

/-- `record_selection` for chunks that are moved, modified and added. -/
theorem record_selection_swapped :
    (∃ trailer, (swapRun lastPiece).system.Holds {} ⟨"", "delta"⟩
      (Call.header.bytes ++ ((movedCalls ++ [modifiedCall]).map Call.bytes).flatten ++ (Call.trailer trailer).bytes)) ∧
    ∃ trailer, (swapRun []).system.Holds {} ⟨"", "delta"⟩
      (Call.header.bytes ++ ((movedCalls ++ [addedCall]).map Call.bytes).flatten ++ (Call.trailer trailer).bytes) := by
  constructor
  · obtain ⟨stats, ok⟩ := @swapRun_succeeds lastPiece (by decide)
    obtain ⟨calls, trailer, holds, all, _⟩ := record_selection (fun k _ _ e impossible => by cases impossible)
      ⟨filePair_old _ _, fun e impossible => by cases impossible⟩ ⟨filePair_new _ _, fun e impossible => by cases impossible⟩ stats ok
    rw [ordered_chunks (last_short (by decide) (by decide) : Pieces Boundary lastPiece [lastPiece]), swapped_chunks] at all
    obtain rfl := (selects_all all).trans
      (by decide +kernel : selection _ (ordered lastPiece) (swapped changedPiece) 0 _ = movedCalls ++ [modifiedCall])
    exact ⟨trailer, holds⟩
  · obtain ⟨stats, ok⟩ := @swapRun_succeeds [] (by decide)
    obtain ⟨calls, trailer, holds, all, _⟩ := record_selection (fun k _ _ e impossible => by cases impossible)
      ⟨filePair_old _ _, fun e impossible => by cases impossible⟩ ⟨filePair_new _ _, fun e impossible => by cases impossible⟩ stats ok
    rw [ordered_chunks .nil, swapped_chunks] at all
    obtain rfl := (selects_all all).trans
      (by decide +kernel : selection _ (ordered []) (swapped changedPiece) 0 _ = movedCalls ++ [addedCall])
    exact ⟨trailer, holds⟩

/-! ### The two routes to the trailer -/

/-- A signature of the new file leads to the same trailer in either mode. -/
theorem trailerOf_signs (streams : U.Streams) (signs : Signs U new newfile) :
    trailerOf U newfile.get_chunks new newfile.whole_file_hash = U.hash new := by
  have whole : streamed U (blocks U new) = U.hash new := by
    rw [streamed, streams, blocks_flatten]
  obtain ⟨chunks, digest⟩ := signs.spec
  unfold trailerOf
  by_cases skipped : newfile.whole_file_hash = []
  · rw [if_pos skipped, chunks]
    exact whole
  · rw [if_neg skipped, digest.resolve_left skipped, whole]

/-- Of two files that do not change, generations from signatures in any modes, wherever
    nothing is disturbed, all deliver the same bytes, with the hash of the new file at
    their end. -/
theorem trailer_routes_agree (streams : U.Streams) (small : old.length ≤ STREAMOFF_MAX) (small' : new.length ≤ STREAMOFF_MAX)
    (room : U.get_hash_size ≤ STREAMOFF_MAX) : ∃ body, ∀ (mode mode' : WholeFileHash) (f g : FileIo), Opened old f →
      Opened new g → ∃ original f' newfile g', Signature.generate_signatures RKFinger.rolling U f mode = (true, original, f') ∧
        Signature.generate_signatures RKFinger.rolling U g mode' = (true, newfile, g') ∧
        ∀ (env : Environment) (sys : System) (oldfile file_to_check delta_file : Path), Undisturbed env →
          sys.Holds env oldfile old → sys.Holds env file_to_check new → Usable env sys delta_file [oldfile, file_to_check] →
          let run := Delta.generate_delta env U original newfile oldfile file_to_check delta_file sys
          (∃ stats, run.result = .ok stats) ∧
            run.system.Holds env delta_file (body ++ DELTA_TRAILER_TAG :: U.hash new) := by
  refine ⟨Call.header.bytes ++ ((selection (chunkList U old) old new 0 (chunkList U new)).map Call.bytes).flatten, ?_⟩
  intro mode mode' f g opened opened'
  obtain ⟨_, f', _, signed, _⟩ := generate_spec U mode opened
  obtain ⟨_, g', _, signed', _⟩ := generate_spec U mode' opened'
  refine ⟨_, f', _, g', signed, signed', ?_⟩
  intro env sys oldfile file_to_check delta_file undisturbed holds holds' usable run
  have signs : Signs U old _ := ⟨mode, f, f', opened, signed⟩
  have signs' : Signs U new _ := ⟨mode', g, g', opened', signed'⟩
  have alone : ∀ p : Path, ∀ e ∈ (env.media p).events, e.replaced = none := by
    intro p e member
    rw [undisturbed.still] at member
    cases member
  obtain ⟨⟨stats, ok⟩, _⟩ := generate_calm undisturbed signs signs' holds holds' usable small small' room
  have selects := (generate_selects (fun k _ _ => alone _) ⟨holds, alone _⟩ ⟨holds', alone _⟩ stats ok).1
  rw [deltaOf, trailerOf_signs streams signs', signs.spec.1, signs'.spec.1] at selects
  exact ⟨⟨stats, ok⟩, selects⟩

/-- `trailer_routes_agree` for files of one byte. -/
theorem trailer_routes_agree_bytes : ∃ body, ∀ mode : WholeFileHash, ∃ original f' newfile g',
    Signature.generate_signatures RKFinger.rolling .padded (FileIo.opened [7] none true) .Skip = (true, original, f') ∧
    Signature.generate_signatures RKFinger.rolling .padded (FileIo.opened [8] none true) mode = (true, newfile, g') ∧
    (Delta.generate_delta {} .padded original newfile ⟨"", "old"⟩ ⟨"", "new"⟩ ⟨"", "delta"⟩ (bytePair 7 8)).system.Holds {}
      ⟨"", "delta"⟩ (body ++ DELTA_TRAILER_TAG :: StrongHash.padded.hash [8]) := by
  have small : ([7] : List UInt8).length ≤ STREAMOFF_MAX := by decide
  have small' : ([8] : List UInt8).length ≤ STREAMOFF_MAX := by decide
  obtain ⟨body, routes⟩ := trailer_routes_agree StrongHash.padded_streams small small' (by decide)
  refine ⟨body, fun mode => ?_⟩
  obtain ⟨original, f', newfile, g', signed, signed', delivers⟩ :=
    routes .Skip mode _ _ (opened_opened [7] true) (opened_opened [8] true)
  exact ⟨original, f', newfile, g', signed, signed', (delivers {} _ _ _ _ Applying.undisturbed_default ⟨0, rfl, rfl⟩
    ⟨1, rfl, rfl⟩ (usable_bytePair 7 8)).2⟩

end

end Roll.Selecting
