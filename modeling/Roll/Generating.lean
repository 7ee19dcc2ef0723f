import Roll.Applying
import Roll.Atomic
import Roll.Patching
import Roll.Roundtrip
import Roll.Swapping

/-!
A generation that succeeds, whether its inputs are replaced or not: what it
writes, and what it has seen of the two files.

In calm, where nothing is replaced and nothing fails, it succeeds.
-/
namespace Roll.Generating
open Roll.Parsing Roll.Outcome Roll.Cursor Roll.Chunker Roll.Chunking Roll.Evaluation Roll.Encoding Roll.Grammar
  Roll.Roundtrip Roll.Swapping

/-! ### Signed chunks -/

/-- A chunk of a file that has these bytes. -/
structure Describes (U : StrongHash) (content : List UInt8) (chunk : SignedChunk) : Prop where
  some : 0 < chunk.chunk_size
  small : chunk.chunk_size ≤ DELTA_MAX_CHUNK_SIZE
  inside : chunk.start_offset + chunk.chunk_size ≤ content.length
  hash : chunk.hash = U.digest (chunkBytes content chunk)

variable {U : StrongHash} {content : List UInt8} {chunk : SignedChunk}

theorem Describes.length (described : Describes U content chunk) : (chunkBytes content chunk).length = chunk.chunk_size := by
  have inside := described.inside
  rw [chunkBytes, List.length_take, List.length_drop]
  omega

/-- The bytes of a signed piece are that piece. -/
theorem sign_bytes (U : StrongHash) : ∀ (cs : List (List UInt8)) (a : List UInt8),
    (sign U a.length cs).map (chunkBytes (a ++ cs.flatten)) = cs := by
  intro cs
  induction cs with
  | nil =>
    intro a
    rfl
  | cons c cs ih =>
    intro a
    have rest := ih (a ++ c)
    rw [List.append_assoc, List.length_append] at rest
    rw [sign, List.map_cons, List.flatten_cons, rest]
    simp [chunkBytes]

theorem chunkList_bytes (U : StrongHash) (content : List UInt8) :
    ∃ cs, Pieces Boundary content cs ∧ chunkList U content = sign U 0 cs ∧
      (chunkList U content).map (chunkBytes content) = cs := by
  obtain ⟨cs, pieces, list⟩ := chunkList_spec U content
  have bytes := sign_bytes U cs []
  rw [List.nil_append, pieces_flatten pieces] at bytes
  exact ⟨cs, pieces, list, by rw [list]; exact bytes⟩

theorem chunkList_flatten (U : StrongHash) (content : List UInt8) :
    ((chunkList U content).map (chunkBytes content)).flatten = content := by
  obtain ⟨cs, pieces, _, bytes⟩ := chunkList_bytes U content
  rw [bytes, pieces_flatten pieces]

theorem describes (U : StrongHash) {content : List UInt8} {chunk : SignedChunk} (listed : chunk ∈ chunkList U content) :
    Describes U content chunk := by
  obtain ⟨inside, small⟩ := Applying.within_chunkList U content chunk listed
  obtain ⟨cs, pieces, list, bytes⟩ := chunkList_bytes U content
  obtain ⟨i, below, here⟩ := List.getElem_of_mem listed
  have found : (chunkList U content)[i]? = some chunk := List.getElem?_eq_some_iff.mpr ⟨below, here⟩
  obtain ⟨pre, c, post, split, place, _, size, hash⟩ := sign_get U (list ▸ found)
  have mapped : cs[i]? = some (chunkBytes content chunk) := by
    rw [← bytes, List.getElem?_map, found]
    rfl
  obtain rfl : chunkBytes content chunk = c := by
    rw [split, ← place] at mapped
    simpa using mapped.symm
  have nonempty := pieces_ne_nil pieces (chunkBytes content chunk) (by simp [split])
  exact ⟨by rw [size]; exact List.length_pos_iff.mpr nonempty, small, inside, hash⟩

/-- The chunks of a file tile a size exactly when it is that of the file. -/
theorem tiles_sign (U : StrongHash) {size : Nat} : ∀ (cs : List (List UInt8)) (offset : Nat),
    (∀ c ∈ cs, c ≠ [] ∧ c.length ≤ DELTA_MAX_CHUNK_SIZE) →
    (Delta.tiles (sign U offset cs) offset size = true ↔ offset + cs.flatten.length = size) := by
  intro cs
  induction cs with
  | nil =>
    intro offset _
    simp [sign, Delta.tiles]
  | cons c cs ih =>
    intro offset shaped
    obtain ⟨nonempty, small⟩ := shaped c (by simp)
    have positive := List.length_pos_iff.mpr nonempty
    have rest := ih (offset + c.length) fun c' member => shaped c' (by simp [member])
    rw [List.flatten_cons, List.length_append, ← Nat.add_assoc, ← rest]
    simp only [sign, Delta.tiles, ne_eq, not_true_eq_false, false_or, Nat.not_lt.mpr small, gt_iff_lt,
      Nat.ne_of_gt positive]
    by_cases large : size - offset < c.length
    · rw [if_pos large, rest]
      simp only [Bool.false_eq_true, false_iff]
      omega
    · rw [if_neg large]

theorem coversExactly_iff (U : StrongHash) (content : List UInt8) (size : Nat) :
    Delta.coversExactly (chunkList U content) size = true ↔ content.length = size := by
  obtain ⟨cs, pieces, list, _⟩ := chunkList_bytes U content
  have tiled : Delta.tiles (sign U 0 cs) 0 size = true ↔ 0 + cs.flatten.length = size :=
    tiles_sign U cs 0 fun c member => ⟨pieces_ne_nil pieces c member, piece_short pieces c member⟩
  rw [Nat.zero_add, pieces_flatten pieces] at tiled
  rw [Delta.coversExactly, list]
  exact tiled

/-! ### The index -/

theorem same_iff {a b : SignedChunk} : a.same b = true ↔ a.hash = b.hash ∧ a.chunk_size = b.chunk_size := by
  simp [SignedChunk.same]

/-- The positions in a bucket are those of chunks that are the same as its key. -/
def Indexed (chunks : List SignedChunk) (buckets : List (SignedChunk × Bucket)) : Prop :=
  ∀ entry ∈ buckets, ∀ position ∈ entry.2.positions, ∃ c, chunks[position]? = some c ∧ c.same entry.1 = true

variable {chunks : List SignedChunk}

theorem indexed_push {i : Nat} (here : chunks[i]? = some chunk) : ∀ {buckets : List (SignedChunk × Bucket)},
    Indexed chunks buckets → Indexed chunks (ChunkIndex.push chunk i buckets) := by
  intro buckets
  induction buckets with
  | nil =>
    intro _ entry member position place
    obtain rfl := List.mem_singleton.mp member
    obtain rfl := List.mem_singleton.mp place
    exact ⟨chunk, here, same_iff.mpr ⟨rfl, rfl⟩⟩
  | cons first buckets ih =>
    intro indexed
    obtain ⟨key, bucket⟩ := first
    obtain ⟨mine, rest⟩ := List.forall_mem_cons.mp indexed
    unfold ChunkIndex.push
    by_cases same : key.same chunk = true
    · rw [if_pos same]
      refine List.forall_mem_cons.mpr ⟨?_, rest⟩
      intro position place
      rcases List.mem_append.mp place with place | place
      · exact mine position place
      · obtain rfl := List.mem_singleton.mp place
        obtain ⟨hash, size⟩ := same_iff.mp same
        exact ⟨chunk, here, same_iff.mpr ⟨hash.symm, size.symm⟩⟩
    · rw [if_neg same]
      exact List.forall_mem_cons.mpr ⟨mine, ih rest⟩

theorem indexed_insert : ∀ (rest : List SignedChunk) (i : Nat) {buckets : List (SignedChunk × Bucket)},
    chunks.drop i = rest → Indexed chunks buckets → Indexed chunks (ChunkIndex.insert_from i rest buckets) := by
  intro rest
  induction rest with
  | nil =>
    intro i buckets _ indexed
    exact indexed
  | cons c rest ih =>
    intro i buckets split indexed
    obtain ⟨here, next, _⟩ := Searching.drop_cons split
    exact ih (i + 1) next.symm (indexed_push here indexed)

theorem indexed_build (chunks : List SignedChunk) : Indexed chunks (ChunkIndex.build chunks).buckets_ :=
  indexed_insert chunks 0 rfl fun _ impossible => by cases impossible

/-- What the index finds is the position of a chunk that is the same as the probe. -/
theorem find_in_spec (used : List Bool) (probe : SignedChunk) : ∀ {buckets : List (SignedChunk × Bucket)},
    Indexed chunks buckets → Indexed chunks (ChunkIndex.find_in used probe buckets).2 ∧
      ∀ source, (ChunkIndex.find_in used probe buckets).1 = some source →
        ∃ c, chunks[source]? = some c ∧ c.same probe = true := by
  intro buckets
  induction buckets with
  | nil =>
    intro indexed
    exact ⟨indexed, fun _ impossible => by cases impossible⟩
  | cons first buckets ih =>
    intro indexed
    obtain ⟨key, bucket⟩ := first
    obtain ⟨mine, rest⟩ := List.forall_mem_cons.mp indexed
    unfold ChunkIndex.find_in
    by_cases same : key.same probe = true
    · rw [if_pos same]
      refine ⟨List.forall_mem_cons.mpr ⟨mine, rest⟩, ?_⟩
      intro source found
      obtain ⟨c, here, equal⟩ := mine source (List.mem_of_getElem? found)
      obtain ⟨hash, size⟩ := same_iff.mp equal
      obtain ⟨hash', size'⟩ := same_iff.mp same
      exact ⟨c, here, same_iff.mpr ⟨hash.trans hash', size.trans size'⟩⟩
    · rw [if_neg same]
      obtain ⟨kept, finds⟩ := ih rest
      exact ⟨List.forall_mem_cons.mpr ⟨mine, kept⟩, finds⟩

/-! ### The state of a run -/

/-- A staged file in which `content` was stored without an error; in calm nothing
    disturbs it. -/
structure Holding (calm : Prop) (content : List UInt8) (f : FileIo) : Prop where
  stores : Stores content f
  quiet : f.io_error_ = false
  appends : calm → Appends content f

section
variable {calm : Prop} {C : Delta.Input → List UInt8} {written : List UInt8} {s s' s'' : GenerateState}

/-- The inputs were signed with the contents `C`, and `written` is in the output. -/
structure At (U : StrongHash) (calm : Prop) (C : Delta.Input → List UInt8) (written : List UInt8) (s : GenerateState) :
    Prop where
  inputs : ∀ input, Input calm (C input) (Delta.handle s input)
  output : Holding calm written s.transaction.file_
  indexed : Indexed (chunkList U (C .old)) s.chunk_index.buckets_

/-- The inputs of `s'` are those of `s` some operations later. -/
def Leads (C : Delta.Input → List UInt8) (s s' : GenerateState) : Prop :=
  ∀ input, Onward (C input) (Delta.handle s input) (Delta.handle s' input)

/-- The sizes taken at open are those of the signed contents. -/
def Sized (C : Delta.Input → List UInt8) (s : GenerateState) : Prop :=
  ∀ input, (Delta.handle s input).size_ = (C input).length

theorem leads_refl (s : GenerateState) : Leads C s s := fun input => onward_refl (Delta.handle s input)

theorem Leads.trans (first : Leads C s s') (second : Leads C s' s'') : Leads C s s'' :=
  fun input => (first input).trans (second input)

theorem Sized.leads (sized : Sized C s) (leads : Leads C s s') : Sized C s' :=
  fun input => (leads input).size.trans (sized input)

theorem At.bytes (here : At U calm C written s) (holds : calm) (input : Delta.Input) :
    (Delta.handle s input).f_.data = C input := (here.inputs input).content holds

@[simp] theorem handle_put (s : GenerateState) (f : FileIo) (input : Delta.Input) :
    Delta.handle (Delta.put_handle s f input) input = f := by
  cases input <;> rfl

theorem handle_put_other {input other : Delta.Input} (apart : other ≠ input) (s : GenerateState) (f : FileIo) :
    Delta.handle (Delta.put_handle s f input) other = Delta.handle s other := by
  cases input <;> cases other <;> first | rfl | exact absurd rfl apart

/-- An operation on one input leaves the other one alone. -/
theorem at_put (here : At U calm C written s) {input : Delta.Input} {f : FileIo} (kept : Input calm (C input) f)
    (onward : Onward (C input) (Delta.handle s input) f) :
    At U calm C written (Delta.put_handle s f input) ∧ Leads C s (Delta.put_handle s f input) := by
  refine ⟨⟨fun other => ?_, ?_, ?_⟩, fun other => ?_⟩
  · by_cases same : other = input
    · subst same
      rwa [handle_put]
    · rw [handle_put_other same]
      exact here.inputs other
  · cases input <;> exact here.output
  · cases input <;> exact here.indexed
  · by_cases same : other = input
    · subst same
      rwa [handle_put]
    · rw [handle_put_other same]
      exact onward_refl _

/-! ### Reading -/

theorem fail_if_spec (condition : Bool) (code : DeltaErrc) (message : String) :
    Yields (Delta.fail_if condition code message) s (fun _ s' => s' = s ∧ condition = false) (condition = true) := by
  cases condition with
  | true => exact yields_throw rfl
  | false => exact yields_pure ⟨rfl, rfl⟩

/-- What a read that succeeds returns is there, and it is listed. -/
theorem read_at_spec (here : At U calm C written s) {n : Nat} (some : 0 < n) (small : n ≤ FileIo.READ_BUFFER_SIZE)
    (input : Delta.Input) {p : Nat} (fits : calm → p ≤ STREAMOFF_MAX) :
    Yields (Delta.read_at input n p) s (fun r s' => At U calm C written s' ∧ Leads C s s' ∧ (calm → r.2 = false) ∧
      (r.2 = false → p ≤ STREAMOFF_MAX ∧ r.1 = ((Delta.handle s' input).f_.data.drop p).take n ∧
        r.1 ∈ (Delta.handle s' input).seen)) False := by
  obtain ⟨kept, onward, read⟩ := read_chunk_at_input some small fits (here.inputs input)
  have run : Delta.read_at input n p s = .ok (((Delta.handle s input).read_chunk_at n p).1,
      ((Delta.handle s input).read_chunk_at n p).2.has_error)
      (Delta.put_handle s ((Delta.handle s input).read_chunk_at n p).2 input) := rfl
  obtain ⟨here', leads⟩ := at_put here kept onward
  refine yields_ok run ⟨here', leads, fun holds => (kept.steady holds).quiet, ?_⟩
  rw [handle_put]
  exact read

/-- In the place of a signed chunk: its bytes, or bytes of its size with its digest
    that were read, which in calm they are not. -/
def Vouched (U : StrongHash) (calm : Prop) (content : List UInt8) (seen : List (List UInt8)) (chunk : SignedChunk)
    (d : List UInt8) : Prop :=
  d = chunkBytes content chunk ∨ ¬ calm ∧ d ∈ seen ∧ d.length = chunk.chunk_size ∧ U.digest d = chunk.hash

theorem Vouched.length {seen : List (List UInt8)} {d : List UInt8} (vouched : Vouched U calm content seen chunk d)
    (described : Describes U content chunk) : d.length = chunk.chunk_size := by
  rcases vouched with rfl | ⟨_, _, length, _⟩
  · exact described.length
  · exact length

theorem Vouched.digest {seen : List (List UInt8)} {d : List UInt8} (vouched : Vouched U calm content seen chunk d)
    (described : Describes U content chunk) : U.digest d = chunk.hash := by
  rcases vouched with rfl | ⟨_, _, _, digest⟩
  · exact described.hash.symm
  · exact digest

theorem Vouched.more {seen seen' : List (List UInt8)} {d : List UInt8} (vouched : Vouched U calm content seen chunk d)
    (more : ∀ x ∈ seen, x ∈ seen') : Vouched U calm content seen' chunk d := by
  rcases vouched with here | ⟨wild, member, length, digest⟩
  · exact .inl here
  · exact .inr ⟨wild, more d member, length, digest⟩

/-- A signed chunk that is read is vouched for, and it is what the file then has. -/
theorem readSignedChunk_spec (here : At U calm C written s) {input : Delta.Input}
    (fits : calm → (C input).length ≤ STREAMOFF_MAX) {chunk : SignedChunk} (listed : chunk ∈ chunkList U (C input)) :
    Yields (Delta.readSignedChunk U input chunk) s (fun data s' => At U calm C written s' ∧ Leads C s s' ∧
      Vouched U calm (C input) (Delta.handle s' input).seen chunk data ∧
      data = chunkBytes (Delta.handle s' input).f_.data chunk) (¬ calm) := by
  have described := describes U listed
  have place : calm → chunk.start_offset ≤ STREAMOFF_MAX := by
    intro holds
    have := fits holds
    have := described.inside
    omega
  have room : chunk.chunk_size ≤ FileIo.READ_BUFFER_SIZE := Nat.le_trans described.small (by decide)
  unfold Delta.readSignedChunk
  refine yields_bind (read_at_spec here described.some room input place) (fun impossible => impossible.elim) ?_
  rintro ⟨data, failed⟩ s₁ ⟨here₁, leads, quiet, read⟩
  dsimp only at quiet read ⊢
  have calmly : calm → failed = false ∧ data = chunkBytes (C input) chunk := by
    intro holds
    have bytes := (read (quiet holds)).2.1
    rw [here₁.bytes holds input] at bytes
    exact ⟨quiet holds, bytes⟩
  refine yields_bind (fail_if_spec _ _ _) ?_ ?_
  · intro refused holds
    obtain ⟨rfl, rfl⟩ := calmly holds
    simp [described.length] at refused
  · rintro _ _ ⟨rfl, accepted⟩
    obtain ⟨rfl, length⟩ : failed = false ∧ data.length = chunk.chunk_size := by simpa using accepted
    refine yields_bind (fail_if_spec _ _ _) ?_ ?_
    · intro refused holds
      obtain ⟨_, rfl⟩ := calmly holds
      have size : chunk.hash.length = DELTA_DIGEST_BYTES := by rw [described.hash, U.digest_length]
      have enough := U.enough
      have hash : chunk.hash = (U.hash (chunkBytes (C input) chunk)).take DELTA_DIGEST_BYTES := described.hash
      simp [size, U.hash_length, Nat.not_lt.mpr enough, ← hash] at refused
    · rintro _ _ ⟨rfl, matched⟩
      obtain ⟨_, bytes, member⟩ := read rfl
      have digest : U.digest data = chunk.hash := by
        simp only [Bool.or_eq_false_iff, decide_eq_false_iff_not, not_not] at matched
        exact matched.2.symm
      refine yields_pure ⟨here₁, leads, ?_, bytes⟩
      by_cases holds : calm
      · exact .inl (calmly holds).2
      · exact .inr ⟨holds, member, length, digest⟩

/-- The probe past the end finds the end where the size taken at open has it. -/
theorem probe_end_spec (here : At U calm C written s) (sized : Sized C s) {input : Delta.Input}
    (fits : calm → (C input).length ≤ STREAMOFF_MAX) (message : String) :
    Yields (Delta.probe_end input message) s (fun _ s' => At U calm C written s' ∧ Leads C s s' ∧
      (C input).length ≤ STREAMOFF_MAX) (¬ calm) := by
  have size : Delta.size_of input s = .ok (C input).length s := by
    rw [← sized input]
    rfl
  unfold Delta.probe_end
  rw [Yields, Leaves, bind_ok size]
  refine yields_bind (read_at_spec here Nat.one_pos (by decide) input fits) (fun impossible => impossible.elim) ?_
  rintro ⟨data, failed⟩ s₁ ⟨here₁, leads, quiet, read⟩
  dsimp only at quiet read ⊢
  refine (fail_if_spec _ _ _).mono ?_ ?_
  · rintro _ _ ⟨rfl, accepted⟩
    obtain ⟨rfl, rfl⟩ : data = [] ∧ failed = false := by simpa using accepted
    exact ⟨here₁, leads, (read rfl).1⟩
  · intro refused holds
    obtain rfl := quiet holds
    have bytes := (read rfl).2.1
    rw [here₁.bytes holds input, List.drop_length, List.take_nil] at bytes
    simp [bytes] at refused

/-- After the pass over the old file, whatever was read of it before stands for what
    was signed. -/
theorem verify_chunks_spec (fits : calm → (C .old).length ≤ STREAMOFF_MAX) : ∀ (chunks : List SignedChunk)
    (s : GenerateState), (∀ c ∈ chunks, c ∈ chunkList U (C .old)) → At U calm C written s →
    Yields (Delta.verify_chunks U chunks) s (fun _ s' => At U calm C written s' ∧ Leads C s s' ∧
      ∀ c ∈ chunks, ∀ v, Version (C .old) v s.old.f_ → Vouched U calm (C .old) s'.old.seen c (chunkBytes v c))
      (¬ calm) := by
  intro chunks
  induction chunks with
  | nil =>
    intro s _ here
    exact yields_pure ⟨here, leads_refl s, fun c impossible => by cases impossible⟩
  | cons chunk chunks ih =>
    intro s listed here
    unfold Delta.verify_chunks
    refine yields_bind (readSignedChunk_spec here fits (listed chunk (by simp))) (fun wild => wild) ?_
    rintro data s₁ ⟨here₁, leads₁, vouched, bytes⟩
    refine (ih s₁ (fun c member => listed c (by simp [member])) here₁).mono ?_ (fun wild => wild)
    rintro _ s₂ ⟨here₂, leads₂, rest⟩
    refine ⟨here₂, leads₁.trans leads₂, List.forall_mem_cons.mpr ⟨?_, ?_⟩⟩
    · intro v version
      -- What the chunk was before is what was signed, or what was read now.
      rcases version.follows (leads₁ .old).follows with rfl | same
      · exact .inl rfl
      · have again : data = chunkBytes v chunk := by
          rw [bytes]
          exact congrArg (chunkBytes · chunk) same
        rw [← again]
        exact vouched.more (leads₂ .old).seen
    · intro c member v version
      exact rest c member v (version.follows (leads₁ .old).follows)

theorem hash_chunks_spec (fits : calm → (C .new).length ≤ STREAMOFF_MAX) : ∀ (chunks : List SignedChunk)
    (state : U.State) (s : GenerateState), (∀ c ∈ chunks, c ∈ chunkList U (C .new)) → At U calm C written s →
    Yields (Delta.hash_chunks U chunks state) s (fun state' s' => At U calm C written s' ∧ Leads C s s' ∧
      ∃ parts, List.Forall₂ (Vouched U calm (C .new) s'.file.seen) chunks parts ∧ state' = parts.foldl U.update state)
      (¬ calm) := by
  intro chunks
  induction chunks with
  | nil =>
    intro state s _ here
    exact yields_pure ⟨here, leads_refl s, [], .nil, rfl⟩
  | cons chunk chunks ih =>
    intro state s listed here
    unfold Delta.hash_chunks
    refine yields_bind (readSignedChunk_spec here fits (listed chunk (by simp))) (fun wild => wild) ?_
    rintro data s₁ ⟨here₁, leads₁, vouched, _⟩
    refine (ih _ s₁ (fun c member => listed c (by simp [member])) here₁).mono ?_ (fun wild => wild)
    rintro state' s₂ ⟨here₂, leads₂, parts, all, total⟩
    exact ⟨here₂, leads₁.trans leads₂, data :: parts, .cons (vouched.more (leads₂ .new).seen) all, total⟩

/-- A chunk that is reused is the same as one of the old file. -/
theorem find_reusable_spec (here : At U calm C written s) (i : Nat) (chunk : SignedChunk) :
    Yields (Delta.find_reusable (chunkList U (C .old)) i chunk) s (fun found s' => At U calm C written s' ∧ Leads C s s' ∧
      ∀ source, found = some source → ∃ c, (chunkList U (C .old))[source]? = some c ∧ c.same chunk = true) False := by
  by_cases aligned : ((chunkList U (C .old))[i]?.map (·.same chunk)).getD false = true
  · have run : Delta.find_reusable (chunkList U (C .old)) i chunk s = .ok (some i) s := if_pos aligned
    refine yields_ok run ⟨here, leads_refl s, ?_⟩
    intro source found
    obtain rfl : i = source := Option.some.inj found
    cases at_i : (chunkList U (C .old))[i]? with
    | none => simp [at_i] at aligned
    | some c => exact ⟨c, rfl, by simpa [at_i] using aligned⟩
  · obtain ⟨kept, finds⟩ := find_in_spec (List.replicate (chunkList U (C .old)).length false) chunk here.indexed
    have run : Delta.find_reusable (chunkList U (C .old)) i chunk s = .ok (ChunkIndex.find_in (List.replicate
        (chunkList U (C .old)).length false) chunk s.chunk_index.buckets_).1 { s with chunk_index := { buckets_ :=
          (ChunkIndex.find_in (List.replicate (chunkList U (C .old)).length false) chunk s.chunk_index.buckets_).2 } } :=
      if_neg aligned
    exact yields_ok run ⟨⟨here.inputs, here.output, kept⟩, leads_refl s, finds⟩

/-- The diff of two blocks of bounded size is there, and its opcodes rebuild the new one. -/
theorem create_diff_spec (here : At U calm C written s) {old_data new_data : List UInt8}
    (small : old_data.length ≤ DELTA_MAX_CHUNK_SIZE) (small' : new_data.length ≤ DELTA_MAX_CHUNK_SIZE) :
    Yields (Delta.create_diff old_data new_data) s (fun diff s' => At U calm C written s' ∧ Leads C s s' ∧
      ∃ opcodes, diff = runBytes opcodes ∧ (∃ scratch scratch', Diff.createDiff old_data new_data scratch =
          some (diff, scratch')) ∧ (∀ o ∈ opcodes, Writable o) ∧
        rebuild old_data new_data.length opcodes = some new_data) False := by
  have max : DELTA_MAX_CHUNK_SIZE = 16384 := rfl
  have short : old_data.length < 2 ^ 32 := by omega
  have short' : new_data.length < 2 ^ 32 := by omega
  obtain ⟨opcodes, scratch', made, writable, rebuilt, _⟩ := Patching.createDiff_spec short' short s.scratch
  have run : Delta.create_diff old_data new_data s = .ok (runBytes opcodes) { s with scratch := scratch' } := by
    simp only [Delta.create_diff, made]
  exact yields_ok run ⟨⟨here.inputs, here.output, here.indexed⟩, leads_refl s, opcodes, rfl,
    ⟨s.scratch, scratch', made⟩, writable, rebuilt⟩

/-! ### Writing -/

theorem emit_holds (here : At U calm C written s) {bytes : List UInt8} (fits : calm → bytes.length ≤ STREAMOFF_MAX)
    (what : String) :
    Yields (Delta.writing (DeltaWriter.emit bytes what)) s
      (fun _ s' => At U calm C (written ++ bytes) s' ∧ Leads C s s') (¬ calm) := by
  obtain ⟨stores, agrees⟩ := write_chunk_stores here.output.stores bytes
  have calmly : calm → (s.transaction.file_.write_chunk bytes).1 = true ∧
      Appends (written ++ bytes) (s.transaction.file_.write_chunk bytes).2 :=
    fun holds => write_chunk_spec (here.output.appends holds) (fits holds)
  unfold Delta.writing DeltaWriter.emit Yields Leaves
  dsimp only
  generalize s.transaction.file_.write_chunk bytes = r at stores agrees calmly ⊢
  obtain ⟨wrote, out⟩ := r
  cases wrote with
  | true =>
    have quiet : out.io_error_ = false := by simpa using agrees.symm
    exact ⟨⟨here.inputs, ⟨stores, quiet, fun holds => (calmly holds).2⟩, here.indexed⟩, leads_refl s⟩
  | false => exact fun holds => by cases (calmly holds).1

theorem emitRecord_holds (here : At U calm C written s) (type : EntryType) {fields : List UInt64} {digest : List UInt8}
    (few : fields.length ≤ 2) (length : digest.length = DELTA_DIGEST_BYTES) {body : List UInt8}
    (fits : body.length ≤ STREAMOFF_MAX) (what : String) :
    Yields (Delta.writing (DeltaWriter.emitRecord type fields digest body what)) s
      (fun _ s' => At U calm C (written ++ (DeltaWriter.recordHead type fields digest ++ body)) s' ∧ Leads C s s')
      (¬ calm) := by
  have valid : ¬ (fields.length > 2 ∨ digest.length ≠ DELTA_DIGEST_BYTES) := by
    rw [not_or]
    exact ⟨by omega, not_not.mpr length⟩
  unfold DeltaWriter.emitRecord
  rw [if_neg valid, Framing.writing_bind]
  refine yields_bind (emit_holds here (fun _ => recordHead_length type few digest) what) (fun wild => wild) ?_
  rintro _ s₁ ⟨here₁, leads₁⟩
  by_cases nothing : body = []
  · rw [if_pos nothing, nothing, List.append_nil]
    exact yields_ok rfl ⟨here₁, leads₁⟩
  · rw [if_neg nothing]
    refine (emit_holds here₁ (fun _ => fits) what).mono ?_ (fun wild => wild)
    rintro _ s₂ ⟨here₂, leads₂⟩
    rw [← List.append_assoc]
    exact ⟨here₂, leads₁.trans leads₂⟩

/-- A record that is written is a word of the grammar. -/
theorem write_holds (here : At U calm C written s) {entry : Written} (valid : entry.Valid) :
    Yields (Delta.writing entry.write) s (fun _ s' => ∃ bytes, IsRecord entry.record bytes ∧
      At U calm C (written ++ bytes) s' ∧ Leads C s s') (¬ calm) := by
  cases valid with
  | original length =>
    refine (emitRecord_holds here .ORIGINAL_CHUNK (by simp) length (by simp) _).mono ?_ (fun wild => wild)
    rintro _ s' ⟨here', leads⟩
    rw [List.append_nil] at here'
    exact ⟨_, isRecord_original _ length, here', leads⟩
  | added length small =>
    refine (emitRecord_holds here .ADDED_CHUNK (by simp) length (Nat.le_trans small (by decide)) _).mono ?_
      (fun wild => wild)
    rintro _ s' ⟨here', leads⟩
    exact ⟨_, isRecord_added small length, here', leads⟩
  | modified length small some writable fits =>
    refine (emitRecord_holds here .MODIFIED_CHUNK (by simp) length fits _).mono ?_ (fun wild => wild)
    rintro _ s' ⟨here', leads⟩
    exact ⟨_, isRecord_modified _ _ small length some (isRun_bytes writable), here', leads⟩

/-! ### The entries -/

/-- How the entry for the new chunk at position `i` comes about, where an old chunk is
    read as `Old` says, and a new one as `New` says. -/
inductive Made (chunks : List SignedChunk) (Old New : SignedChunk → List UInt8 → Prop) (i : Nat) (chunk : SignedChunk) :
    Written → Prop
  | original {source : Nat} {c : SignedChunk} : chunks[source]? = some c → c.same chunk = true →
      Made chunks Old New i chunk (.original (UInt64.ofNat source) chunk.hash)
  | added {data : List UInt8} : New chunk data → Made chunks Old New i chunk (.added chunk.hash data)
  | modified {c : SignedChunk} {old_data data : List UInt8} {opcodes : List DiffOpcode} : chunks[i]? = some c →
      Old c old_data → New chunk data →
      (∃ scratch scratch', Diff.createDiff old_data data scratch = some (runBytes opcodes, scratch')) → opcodes ≠ [] →
      (∀ o ∈ opcodes, Writable o) → rebuild old_data data.length opcodes = some data →
      Made chunks Old New i chunk (.modified (UInt64.ofNat i) (UInt64.ofNat data.length) chunk.hash opcodes)

theorem Made.mono {chunks : List SignedChunk} {Old New Old' New' : SignedChunk → List UInt8 → Prop} {i : Nat}
    {chunk : SignedChunk} {entry : Written} (made : Made chunks Old New i chunk entry)
    (older : ∀ c ∈ chunks, ∀ d, Old c d → Old' c d) (newer : ∀ d, New chunk d → New' chunk d) :
    Made chunks Old' New' i chunk entry := by
  cases made with
  | original here same => exact .original here same
  | added data => exact .added (newer _ data)
  | modified here old_data data diff some writable rebuilt =>
    exact .modified here (older _ (List.mem_of_getElem? here) _ old_data) (newer _ data) diff some writable rebuilt

/-- Bytes of an old chunk that were read and not checked. -/
def Unchecked (C : Delta.Input → List UInt8) (s : GenerateState) (chunk : SignedChunk) (d : List UInt8) : Prop :=
  ∃ v, Version (C .old) v s.old.f_ ∧ d = chunkBytes v chunk

/-- Bytes of a new chunk that were read and checked. -/
def Read (U : StrongHash) (calm : Prop) (C : Delta.Input → List UInt8) (s : GenerateState) (chunk : SignedChunk)
    (d : List UInt8) : Prop := Vouched U calm (C .new) s.file.seen chunk d

/-- Between `s` and `s'` the entry for one new chunk was written. -/
def Entered (U : StrongHash) (calm : Prop) (C : Delta.Input → List UInt8) (written : List UInt8) (i : Nat)
    (chunk : SignedChunk) (s s' : GenerateState) : Prop :=
  ∃ entry bytes, IsRecord entry.record bytes ∧ At U calm C (written ++ bytes) s' ∧ Leads C s s' ∧
    Made (chunkList U (C .old)) (Unchecked C s') (Read U calm C s') i chunk entry

theorem made_leads {i : Nat} {chunk : SignedChunk} {entry : Written} (leads : Leads C s s')
    (made : Made (chunkList U (C .old)) (Unchecked C s) (Read U calm C s) i chunk entry) :
    Made (chunkList U (C .old)) (Unchecked C s') (Read U calm C s') i chunk entry := by
  refine made.mono ?_ ?_
  · rintro c _ d ⟨v, version, same⟩
    exact ⟨v, version.follows (leads .old).follows, same⟩
  · intro d vouched
    exact vouched.more (leads .new).seen

/-- An entry that is valid is written. -/
theorem entered_write (here : At U calm C written s) {i : Nat} {chunk : SignedChunk} {entry : Written}
    (valid : entry.Valid) (made : Made (chunkList U (C .old)) (Unchecked C s) (Read U calm C s) i chunk entry) :
    Yields (Delta.writing entry.write) s (fun _ s' => Entered U calm C written i chunk s s') (¬ calm) := by
  refine (write_holds here valid).mono ?_ (fun wild => wild)
  rintro _ s' ⟨bytes, word, here', leads⟩
  exact ⟨entry, bytes, word, here', leads, made_leads leads made⟩

theorem Entered.after {i : Nat} {chunk : SignedChunk} (leads : Leads C s s')
    (entered : Entered U calm C written i chunk s' s'') : Entered U calm C written i chunk s s'' := by
  obtain ⟨entry, bytes, word, here, leads', made⟩ := entered
  exact ⟨entry, bytes, word, here, leads.trans leads', made⟩

/-- A record that pays for itself is shorter than the chunk. -/
theorem pays_short {i : Nat} {new_data diff : List UInt8} (pays : Delta.pays i new_data diff = true) :
    diff ≠ [] ∧ diff.length < new_data.length := by
  obtain ⟨some, less⟩ := Bool.and_eq_true_iff.mp pays
  have smaller := of_decide_eq_true less
  unfold DeltaWriter.modified_size DeltaWriter.added_size at smaller
  exact ⟨of_decide_eq_true some, by omega⟩

theorem write_changed_spec (fits : calm → (C .old).length ≤ STREAMOFF_MAX) (here : At U calm C written s) (i : Nat)
    {chunk : SignedChunk} (listed : chunk ∈ chunkList U (C .new)) {new_data : List UInt8}
    (read : Read U calm C s chunk new_data) :
    Yields (Delta.write_changed (chunkList U (C .old)) i chunk new_data) s
      (fun _ s' => Entered U calm C written i chunk s s') (¬ calm) := by
  have described := describes U listed
  have small : new_data.length ≤ DELTA_MAX_CHUNK_SIZE := by
    rw [read.length described]
    exact described.small
  have digest : chunk.hash.length = DELTA_DIGEST_BYTES := by rw [described.hash, U.digest_length]
  have added : (Written.added chunk.hash new_data).Valid := .added digest small
  unfold Delta.write_changed
  cases original : (chunkList U (C .old))[i]? with
  | none => exact entered_write (i := i) here added (.added read)
  | some c =>
    have described' := describes U (List.mem_of_getElem? original)
    have room : c.chunk_size ≤ FileIo.READ_BUFFER_SIZE := Nat.le_trans described'.small (by decide)
    have place : calm → c.start_offset ≤ STREAMOFF_MAX := by
      intro holds
      have := fits holds
      have := described'.inside
      omega
    refine yields_bind (read_at_spec here described'.some room .old place) (fun impossible => impossible.elim) ?_
    rintro ⟨old_data, failed⟩ s₁ ⟨here₁, leads₁, quiet, bytes⟩
    dsimp only at quiet bytes ⊢
    refine yields_bind (fail_if_spec _ _ _) ?_ ?_
    · intro refused holds
      have exactly_ := (bytes (quiet holds)).2.1
      rw [here₁.bytes holds .old] at exactly_
      have length : old_data.length = c.chunk_size := by
        rw [exactly_]
        exact described'.length
      simp [quiet holds, length] at refused
    · rintro _ _ ⟨rfl, accepted⟩
      obtain ⟨rfl, length⟩ : failed = false ∧ old_data.length = c.chunk_size := by simpa using accepted
      obtain ⟨_, exactly_, _⟩ := bytes rfl
      refine yields_bind (create_diff_spec here₁ (by rw [length]; exact described'.small) small)
        (fun impossible => impossible.elim) ?_
      rintro diff s₂ ⟨here₂, leads₂, opcodes, rfl, diffed, writable, rebuilt⟩
      have leads := leads₁.trans leads₂
      have read₂ : Read U calm C s₂ chunk new_data := read.more (leads .new).seen
      by_cases pays : Delta.pays i new_data (runBytes opcodes) = true
      · obtain ⟨some, short⟩ := pays_short pays
        have max : STREAMOFF_MAX = 2 ^ 63 - 1 := rfl
        have bound : DELTA_MAX_CHUNK_SIZE = 16384 := rfl
        have opcodes_some : opcodes ≠ [] := by
          rintro rfl
          exact some rfl
        have unchecked : Unchecked C s₂ c old_data :=
          ⟨_, Version.follows (.inr rfl) (leads₂ .old).follows, exactly_⟩
        have valid : (Written.modified (UInt64.ofNat i) (UInt64.ofNat new_data.length) chunk.hash opcodes).Valid :=
          .modified digest (by rw [ofNat_size small]; exact small) opcodes_some writable (by omega)
        rw [if_pos pays]
        refine (entered_write here₂ valid (.modified original unchecked read₂ diffed opcodes_some writable rebuilt)).mono
          ?_ (fun wild => wild)
        exact fun _ s' entered => entered.after leads
      · rw [if_neg pays]
        refine (entered_write (i := i) here₂ added (.added read₂)).mono ?_ (fun wild => wild)
        exact fun _ s' entered => entered.after leads

theorem process_chunk_spec (fits : ∀ input, calm → (C input).length ≤ STREAMOFF_MAX) (here : At U calm C written s)
    (i : Nat) {chunk : SignedChunk} (listed : chunk ∈ chunkList U (C .new)) :
    Yields (Delta.process_chunk U (chunkList U (C .old)) i chunk) s
      (fun _ s' => Entered U calm C written i chunk s s') (¬ calm) := by
  have described := describes U listed
  have digest : chunk.hash.length = DELTA_DIGEST_BYTES := by rw [described.hash, U.digest_length]
  have counted : ∀ {s₁ : GenerateState}, Entered U calm C written i chunk s s₁ →
      Yields Delta.count_chunk s₁ (fun _ s' => Entered U calm C written i chunk s s') (¬ calm) := by
    rintro s₁ ⟨entry, bytes, word, here₁, leads, made⟩
    exact yields_ok rfl ⟨entry, bytes, word, ⟨here₁.inputs, here₁.output, here₁.indexed⟩, leads, made⟩
  unfold Delta.process_chunk
  refine yields_bind (find_reusable_spec here i chunk) (fun impossible => impossible.elim) ?_
  rintro found s₁ ⟨here₁, leads₁, same⟩
  cases found with
  | some source =>
    obtain ⟨c, original, equal⟩ := same source rfl
    refine yields_bind (entered_write (i := i) here₁ (.original digest) (.original original equal)) (fun wild => wild) ?_
    exact fun _ s₂ entered => counted (entered.after leads₁)
  | none =>
    refine yields_bind (readSignedChunk_spec here₁ (fits .new) listed) (fun wild => wild) ?_
    rintro new_data s₂ ⟨here₂, leads₂, vouched, _⟩
    refine yields_bind (write_changed_spec (fits .old) here₂ i listed vouched) (fun wild => wild) ?_
    exact fun _ s₃ entered => counted (entered.after (leads₁.trans leads₂))

/-- Position by position, the entries for the new chunks from `i` on. -/
abbrev MadeFrom (chunks : List SignedChunk) (Old New : SignedChunk → List UInt8 → Prop) (i : Nat)
    (news : List SignedChunk) (entries : List Written) : Prop :=
  List.Forall₂ (fun q entry => Made chunks Old New q.2 q.1 entry) (news.zipIdx i) entries

theorem process_spec (fits : ∀ input, calm → (C input).length ≤ STREAMOFF_MAX) : ∀ (news : List SignedChunk) (i : Nat)
    (written : List UInt8) (s : GenerateState), (∀ c ∈ news, c ∈ chunkList U (C .new)) → At U calm C written s →
    Yields (Delta.processMultipleChunks U (chunkList U (C .old)) i news) s (fun _ s' => ∃ entries bytes,
      Many IsRecord (entries.map Written.record) bytes ∧ At U calm C (written ++ bytes) s' ∧ Leads C s s' ∧
      MadeFrom (chunkList U (C .old)) (Unchecked C s') (Read U calm C s') i news entries) (¬ calm) := by
  intro news
  induction news with
  | nil =>
    intro i written s _ here
    exact yields_pure ⟨[], [], .nil, by rwa [List.append_nil], leads_refl s, .nil⟩
  | cons chunk news ih =>
    intro i written s listed here
    unfold Delta.processMultipleChunks
    refine yields_bind (process_chunk_spec fits here i (listed chunk (by simp))) (fun wild => wild) ?_
    rintro _ s₁ ⟨entry, bytes, word, here₁, leads₁, made⟩
    refine (ih (i + 1) _ s₁ (fun c member => listed c (by simp [member])) here₁).mono ?_ (fun wild => wild)
    rintro _ s₂ ⟨entries, bytes', words, here₂, leads₂, rest⟩
    rw [List.append_assoc] at here₂
    exact ⟨entry :: entries, bytes ++ bytes', .cons word words, here₂, leads₁.trans leads₂,
      .cons (made_leads leads₂ made) rest⟩

/-! ### The whole body -/

theorem check_sizes_spec (sized : calm → Sized C s) :
    Yields (Delta.check_sizes (chunkList U (C .old)) (chunkList U (C .new))) s (fun _ s' => s' = s ∧ Sized C s)
      (¬ calm) := by
  have size : Delta.size_of .old s = .ok s.old.size_ s := rfl
  have size' : Delta.size_of .new s = .ok s.file.size_ s := rfl
  unfold Delta.check_sizes
  rw [Yields, Leaves, bind_ok size, bind_ok size']
  refine (fail_if_spec _ _ _).mono ?_ ?_
  · rintro _ _ ⟨rfl, accepted⟩
    simp only [Bool.or_eq_false_iff, Bool.not_eq_false', coversExactly_iff] at accepted
    refine ⟨rfl, fun input => ?_⟩
    cases input with
    | old => exact accepted.1.symm
    | new => exact accepted.2.symm
  · intro refused holds
    have covers : Delta.coversExactly (chunkList U (C .old)) s.old.size_ = true :=
      (coversExactly_iff U _ _).mpr (sized holds .old).symm
    have covers' : Delta.coversExactly (chunkList U (C .new)) s.file.size_ = true :=
      (coversExactly_iff U _ _).mpr (sized holds .new).symm
    simp [covers, covers'] at refused

theorem verifyOldFile_spec (fits : calm → (C .old).length ≤ STREAMOFF_MAX) (sized : Sized C s)
    (here : At U calm C written s) :
    Yields (Delta.verifyOldFile U (chunkList U (C .old))) s (fun _ s' => At U calm C written s' ∧ Leads C s s' ∧
      (C .old).length ≤ STREAMOFF_MAX ∧
      ∀ c ∈ chunkList U (C .old), ∀ d, Unchecked C s c d → Vouched U calm (C .old) s'.old.seen c d) (¬ calm) := by
  unfold Delta.verifyOldFile
  refine yields_bind (verify_chunks_spec fits _ s (fun c member => member) here) (fun wild => wild) ?_
  rintro _ s₁ ⟨here₁, leads₁, checked⟩
  refine (probe_end_spec here₁ (sized.leads leads₁) fits _).mono ?_ (fun wild => wild)
  rintro _ s₂ ⟨here₂, leads₂, small⟩
  refine ⟨here₂, leads₁.trans leads₂, small, ?_⟩
  rintro c member d ⟨v, version, rfl⟩
  exact (checked c member v version).more (leads₂ .old).seen

/-- The trailer is the digest that the signature has, or that of bytes that are vouched for. -/
def Closes (U : StrongHash) (calm : Prop) (C : Delta.Input → List UInt8) (precomputed : List UInt8) (s : GenerateState)
    (trailer : List UInt8) : Prop :=
  precomputed ≠ [] ∧ trailer = precomputed ∨
    ∃ parts, List.Forall₂ (Read U calm C s) (chunkList U (C .new)) parts ∧ trailer = streamed U parts

theorem read_leads (leads : Leads C s s') {c : SignedChunk} {d : List UInt8} (read : Read U calm C s c d) :
    Read U calm C s' c d := read.more (leads .new).seen

theorem Closes.leads {precomputed trailer : List UInt8} (closes : Closes U calm C precomputed s trailer)
    (leads : Leads C s s') : Closes U calm C precomputed s' trailer := by
  rcases closes with here | ⟨parts, all, total⟩
  · exact .inl here
  · exact .inr ⟨parts, all.imp fun _ _ read => read_leads leads read, total⟩

theorem write_trailer_holds (here : At U calm C written s) {digest : List UInt8}
    (fits : calm → digest.length ≤ STREAMOFF_MAX) :
    Yields (Delta.writing (DeltaWriter.write_trailer digest)) s
      (fun _ s' => At U calm C (written ++ DELTA_TRAILER_TAG :: digest) s' ∧ Leads C s s') (¬ calm) := by
  unfold DeltaWriter.write_trailer
  rw [Framing.writing_bind]
  refine yields_bind (emit_holds here (fun _ => by decide) _) (fun wild => wild) ?_
  rintro _ s₁ ⟨here₁, leads₁⟩
  refine (emit_holds here₁ fits _).mono ?_ (fun wild => wild)
  rintro _ s₂ ⟨here₂, leads₂⟩
  rw [List.append_assoc] at here₂
  exact ⟨here₂, leads₁.trans leads₂⟩

theorem writeTrailer_spec (fits : calm → (C .new).length ≤ STREAMOFF_MAX) (room : calm → U.get_hash_size ≤ STREAMOFF_MAX)
    (sized : Sized C s) (here : At U calm C written s) {precomputed : List UInt8}
    (whole : precomputed ≠ [] → precomputed.length = U.get_hash_size) :
    Yields (Delta.writeTrailer U (chunkList U (C .new)) precomputed) s (fun _ s' => ∃ trailer,
      At U calm C (written ++ DELTA_TRAILER_TAG :: trailer) s' ∧ Leads C s s' ∧ trailer.length = U.get_hash_size ∧
      (C .new).length ≤ STREAMOFF_MAX ∧ Closes U calm C precomputed s' trailer) (¬ calm) := by
  have ends : ∀ {s₁ : GenerateState} {trailer : List UInt8}, At U calm C written s₁ → Leads C s s₁ →
      trailer.length = U.get_hash_size → Closes U calm C precomputed s₁ trailer →
      Yields (Delta.probe_end .new "New input changed or failed while reading" >>= fun _ =>
        Delta.writing (DeltaWriter.write_trailer trailer)) s₁ (fun _ s' => ∃ trailer,
        At U calm C (written ++ DELTA_TRAILER_TAG :: trailer) s' ∧ Leads C s s' ∧ trailer.length = U.get_hash_size ∧
        (C .new).length ≤ STREAMOFF_MAX ∧ Closes U calm C precomputed s' trailer) (¬ calm) := by
    intro s₁ trailer here₁ leads₁ length closes
    refine yields_bind (probe_end_spec here₁ (sized.leads leads₁) fits _) (fun wild => wild) ?_
    rintro _ s₂ ⟨here₂, leads₂, small⟩
    refine (write_trailer_holds here₂ (fun holds => by rw [length]; exact room holds)).mono ?_ (fun wild => wild)
    rintro _ s₃ ⟨here₃, leads₃⟩
    exact ⟨trailer, here₃, leads₁.trans (leads₂.trans leads₃), length, small, closes.leads (leads₂.trans leads₃)⟩
  unfold Delta.writeTrailer
  dsimp only
  by_cases skipped : precomputed = []
  · rw [if_pos skipped]
    refine yields_bind (hash_chunks_spec fits _ U.init s (fun c member => member) here) (fun wild => wild) ?_
    rintro state s₁ ⟨here₁, leads₁, parts, all, rfl⟩
    exact ends here₁ leads₁ (U.finalize_length _) (.inr ⟨parts, all, rfl⟩)
  · rw [if_neg skipped]
    exact ends here (leads_refl s) (whole skipped) (.inl ⟨skipped, rfl⟩)

/-- The inputs can be closed, and what was read of them stays listed. -/
theorem close_inputs_spec (here : At U calm C written s) :
    Yields Delta.close_inputs s (fun _ s' => s'.transaction = s.transaction ∧ s'.old.seen = s.old.seen ∧
      s'.file.seen = s.file.seen) (¬ calm) := by
  have closed : ∀ input, calm → (Delta.handle s input).close.1 = true :=
    fun input holds => close_steady ((here.inputs input).steady holds)
  have first := closed .old
  have second := closed .new
  have seen := close_seen s.old
  have seen' := close_seen s.file
  unfold Yields Leaves Delta.close_inputs
  dsimp only [Delta.handle] at first second ⊢
  generalize s.old.close = r at first seen ⊢
  generalize s.file.close = r' at second seen' ⊢
  obtain ⟨shut, f⟩ := r
  obtain ⟨shut', g⟩ := r'
  cases shut with
  | false => exact fun holds => by cases first holds
  | true =>
    cases shut' with
    | false => exact fun holds => by cases second holds
    | true => exact ⟨rfl, seen, seen'⟩

theorem build_index_spec (here : At U calm C written s) : Yields (Delta.build_index (chunkList U (C .old))) s
    (fun _ s' => At U calm C written s' ∧ Leads C s s') False :=
  yields_ok rfl ⟨⟨here.inputs, here.output, indexed_build _⟩, leads_refl s⟩

/-- What a run that gets to its commit has written, and what it rests on. -/
structure Built (U : StrongHash) (calm : Prop) (C : Delta.Input → List UInt8) (precomputed : List UInt8)
    (s : GenerateState) (entries : List Written) (trailer delta : List UInt8) : Prop where
  output : Holding calm delta s.transaction.file_
  shape : IsDelta U.get_hash_size (entries.map Written.record) trailer delta
  made : MadeFrom (chunkList U (C .old)) (Vouched U calm (C .old) s.old.seen) (Read U calm C s) 0
    (chunkList U (C .new)) entries
  closes : Closes U calm C precomputed s trailer
  small : ∀ input, (C input).length ≤ STREAMOFF_MAX

theorem build_spec (fits : ∀ input, calm → (C input).length ≤ STREAMOFF_MAX)
    (room : calm → U.get_hash_size ≤ STREAMOFF_MAX) {original newfile : Signature}
    (old_chunks : original.get_chunks = chunkList U (C .old)) (new_chunks : newfile.get_chunks = chunkList U (C .new))
    (whole : newfile.whole_file_hash ≠ [] → newfile.whole_file_hash.length = U.get_hash_size)
    (sized : calm → Sized C s) (here : At U calm C [] s) :
    Yields (Delta.build U original newfile) s (fun _ s' => ∃ entries trailer delta,
      Built U calm C newfile.whole_file_hash s' entries trailer delta) (¬ calm) := by
  unfold Delta.build
  rw [old_chunks, new_chunks]
  refine yields_bind (check_sizes_spec sized) (fun wild => wild) ?_
  rintro _ _ ⟨rfl, sized⟩
  refine yields_bind (emit_holds here (fun _ => by decide) _) (fun wild => wild) ?_
  rintro _ s₁ ⟨here₁, leads₁⟩
  refine yields_bind (build_index_spec here₁) (fun impossible => impossible.elim) ?_
  rintro _ s₁' ⟨here₁', leads₁'⟩
  refine yields_bind (process_spec fits (chunkList U (C .new)) 0 _ s₁' (fun c member => member) here₁')
    (fun wild => wild) ?_
  rintro _ s₂ ⟨entries, bytes, words, here₂, leads₂, made⟩
  have leads₁₂ := leads₁.trans (leads₁'.trans leads₂)
  refine yields_bind (verifyOldFile_spec (fits .old) (sized.leads leads₁₂) here₂) (fun wild => wild) ?_
  rintro _ s₃ ⟨here₃, leads₃, small, checked⟩
  refine yields_bind (writeTrailer_spec (fits .new) room (sized.leads (leads₁₂.trans leads₃)) here₃ whole)
    (fun wild => wild) ?_
  rintro _ s₄ ⟨trailer, here₄, leads₄, length, small', closes⟩
  refine (close_inputs_spec here₄).mono ?_ (fun wild => wild)
  rintro _ s₅ ⟨transaction, seen, seen'⟩
  rw [List.nil_append, List.append_assoc, Patching.push_append] at here₄
  refine ⟨entries, trailer, _, ?_, ⟨_, rfl, bytes, rfl, words, length⟩, ?_, ?_, ?_⟩
  · rw [transaction]
    exact here₄.output
  · refine made.imp fun q entry here => here.mono ?_ ?_
    · intro c member d unchecked
      rw [seen]
      exact (checked c member d unchecked).more (leads₄ .old).seen
    · intro d read
      unfold Read
      rw [seen']
      exact read_leads (leads₃.trans leads₄) read
  · unfold Closes Read
    rw [seen']
    exact closes
  · intro input
    cases input with
    | old => exact small
    | new => exact small'

end

end Roll.Generating
