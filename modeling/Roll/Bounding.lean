import Roll.Constant
import Roll.Selecting

/-!
The sizes of a delta's records beside those of literals. Only a diff is compared
with the literal before it is chosen; a reference is not, and its index can take
more bytes than a chunk at the end of a file has.
-/
namespace Roll.Bounding
open Roll.Encoding Roll.Evaluation Roll.Chunker Roll.Chunking Roll.Constant Roll.Committing Roll.Staging Roll.Swapping Roll.Generating Roll.Creating Roll.Selecting
open Roll.Counting (Call)

variable {U : StrongHash}

/-! ### Varints of indices -/

theorem groupBytes_mono : ∀ (fuel : Nat) {v w : UInt64}, v ≤ w →
    (groupBytes fuel v).length ≤ (groupBytes fuel w).length := by
  intro fuel
  induction fuel with
  | zero =>
    intro v w _
    exact Nat.le_refl 1
  | succ fuel ih =>
    intro v w le
    unfold groupBytes
    by_cases more : v ≥ 0x80
    · have more' : w ≥ 0x80 := UInt64.le_trans more le
      have shifted : v >>> 7 ≤ w >>> 7 := by
        rw [UInt64.le_iff_toNat_le] at le ⊢
        simp only [UInt64.toNat_shiftRight, Nat.shiftRight_eq_div_pow]
        exact Nat.div_le_div_right le
      rw [if_pos more, if_pos more', List.length_cons, List.length_cons]
      exact Nat.succ_le_succ (ih shifted)
    · rw [if_neg more]
      by_cases more' : w ≥ 0x80
      · simp [if_pos more']
      · rw [if_neg more']
        exact Nat.le_refl 1

theorem varint_size_mono {v w : UInt64} (le : v ≤ w) : varint_size v ≤ varint_size w := by
  rw [← Counting.varint_length, ← Counting.varint_length]
  exact groupBytes_mono VARINT_MAX_BYTES le

theorem varint_size_pos (v : UInt64) : 1 ≤ varint_size v := varint_size_mono (v := 0) (by simp)

/-- The bytes that the index of old chunk `source` takes beyond those of a chunk of `size` bytes
    and its length. -/
def excess (source size : Nat) : Nat :=
  varint_size (UInt64.ofNat source) - (varint_size (UInt64.ofNat size) + size)

theorem excess_le {source : Nat} {size : Nat} (some : 0 < size) : excess source size ≤ 8 := by
  have longest := Counting.varint_size_le (UInt64.ofNat source)
  have least := varint_size_pos (UInt64.ofNat size)
  have : VARINT_MAX_BYTES = 10 := rfl
  unfold excess
  omega

/-- A chunk that is not tiny is longer than any index. -/
theorem excess_long {source size : Nat} (long : 9 ≤ size) : excess source size = 0 := by
  have longest := Counting.varint_size_le (UInt64.ofNat source)
  have least := varint_size_pos (UInt64.ofNat size)
  have : VARINT_MAX_BYTES = 10 := rfl
  unfold excess
  omega

/-- Two bytes are enough for the indices of so few chunks. -/
theorem excess_few {source size : Nat} (few : source < 2 ^ 14) (some : 0 < size) : excess source size = 0 := by
  have index : varint_size (UInt64.ofNat source) ≤ varint_size 16383 := by
    refine varint_size_mono ?_
    rw [UInt64.le_iff_toNat_le, UInt64.toNat_ofNat', Nat.mod_eq_of_lt (by omega)]
    exact Nat.le_of_lt_succ few
  have two : varint_size 16383 = 2 := by decide
  have least := varint_size_pos (UInt64.ofNat size)
  unfold excess
  omega

theorem excess_mono {source source' size : Nat} (le : source ≤ source') (small : source' < 2 ^ 64) :
    excess source size ≤ excess source' size := by
  have index : varint_size (UInt64.ofNat source) ≤ varint_size (UInt64.ofNat source') := by
    refine varint_size_mono ?_
    rw [UInt64.le_iff_toNat_le, UInt64.toNat_ofNat', UInt64.toNat_ofNat', Nat.mod_eq_of_lt (by omega),
      Nat.mod_eq_of_lt small]
    exact le
  unfold excess
  omega

/-! ### Records -/

/-- The record that has the bytes of the chunk. -/
def literal (new : List UInt8) (chunk : SignedChunk) : Call := .added chunk.hash (chunkBytes new chunk)

variable {old new : List UInt8} {olds : List SignedChunk} {chunk : SignedChunk} {call : Call} {i : Nat}

theorem original_length (described : Describes U new chunk) (source : Nat) :
    (Call.original (UInt64.ofNat source) chunk.hash).bytes.length = 17 + varint_size (UInt64.ofNat source) := by
  have digest : chunk.hash.length = 16 := by
    rw [described.hash, U.digest_length]
    rfl
  simp only [Call.bytes, Counting.push_varint_eq, List.length_append, Counting.varint_length, List.length_singleton, digest]
  omega

theorem literal_length (described : Describes U new chunk) :
    (literal new chunk).bytes.length = DeltaWriter.added_size chunk.chunk_size := by
  have digest : chunk.hash.length = DELTA_DIGEST_BYTES := by rw [described.hash, U.digest_length]
  simp only [literal, Call.bytes, Counting.push_varint_eq, List.length_append, Counting.varint_length,
    List.length_singleton, described.length, digest, DeltaWriter.added_size]

/-- Where a record stands beside the literal of its chunk: it is longer in one case only, that
    of a reference to an index that takes more bytes than the chunk. -/
structure Bounded (olds : List SignedChunk) (new : List UInt8) (chunk : SignedChunk) (call : Call) : Prop where
  longer : (literal new chunk).bytes.length < call.bytes.length ↔
    ∃ source < olds.length, call = .original (UInt64.ofNat source) chunk.hash ∧ 0 < excess source chunk.chunk_size
  most : call.bytes.length ≤ (literal new chunk).bytes.length + excess (olds.length - 1) chunk.chunk_size

theorem original_bounded (few : olds.length < 2 ^ 64) (described : Describes U new chunk) {source : Nat}
    (below : source < olds.length) : Bounded olds new chunk (.original (UInt64.ofNat source) chunk.hash) := by
  have size := original_length described source
  have size' := literal_length described
  rw [DeltaWriter.added_size, show DELTA_DIGEST_BYTES = 16 from rfl] at size'
  have last : excess source chunk.chunk_size ≤ excess (olds.length - 1) chunk.chunk_size :=
    excess_mono (Nat.le_sub_one_of_lt below) (by omega)
  constructor
  · constructor
    · intro longer
      refine ⟨source, below, rfl, ?_⟩
      unfold excess
      omega
    · rintro ⟨source', _, same, longer⟩
      injection same with same
      rw [excess, ← same] at longer
      omega
  · unfold excess at last ⊢
    omega

theorem short_bounded (short : call.bytes.length ≤ (literal new chunk).bytes.length)
    (other : ∀ k, call ≠ .original k chunk.hash) : Bounded olds new chunk call :=
  ⟨⟨fun longer => absurd short (by omega), fun ⟨_, _, same, _⟩ => absurd same (other _)⟩, Nat.le_add_right_of_le short⟩

theorem selects_bounded (few : olds.length < 2 ^ 64) (described : Describes U new chunk)
    (selects : Selects olds old new i chunk call) : Bounded olds new chunk call := by
  cases selects with
  | same here _ => exact original_bounded few described (List.getElem?_eq_some_iff.mp here).1
  | moved _ least =>
    obtain ⟨c, here, _⟩ := least.1
    exact original_bounded few described (List.getElem?_eq_some_iff.mp here).1
  | modified _ _ data _ _ short =>
    subst data
    exact short_bounded (Nat.le_of_lt short) nofun
  | added _ data =>
    subst data
    exact short_bounded (Nat.le_refl _) nofun

/-- Every chunk but the last one is long enough for any index. -/
theorem tiny_is_last (U : StrongHash) {new : List UInt8} (here : (chunkList U new)[i]? = some chunk)
    (tiny : chunk.chunk_size < DELTA_MIN_CHUNK_SIZE) : i + 1 = (chunkList U new).length := by
  obtain ⟨cs, pieces, list⟩ := chunkList_spec U new
  rw [list] at here ⊢
  obtain ⟨pre, c, post, split, position, _, size, _⟩ := sign_get U here
  rw [sign_length, split, List.length_append, position, List.length_cons]
  by_cases last : post = []
  · rw [last]
    rfl
  · have long := boundary_long (pieces_accepted pieces split last)
    omega

/-! ### The whole delta -/

/-- The size of a delta in which every chunk has its literal. -/
def literalSize (U : StrongHash) (news : List SignedChunk) : Nat :=
  DELTA_HEADER_SIZE + (news.map fun chunk => DeltaWriter.added_size chunk.chunk_size).sum + (1 + U.get_hash_size)

/-- The excess that the last record can have. -/
def lastExcess (olds news : List SignedChunk) : Nat :=
  (news.getLast?.map fun chunk => excess (olds.length - 1) chunk.chunk_size).getD 0

theorem lastExcess_le {news : List SignedChunk} (described : ∀ chunk ∈ news, Describes U new chunk) :
    lastExcess olds news ≤ 8 := by
  unfold lastExcess
  cases last : news.getLast? with
  | none => exact Nat.zero_le 8
  | some chunk => exact excess_le (described chunk (List.mem_of_getLast? last)).some

theorem lastExcess_few {news : List SignedChunk} (few : olds.length ≤ 2 ^ 14)
    (described : ∀ chunk ∈ news, Describes U new chunk) : lastExcess olds news = 0 := by
  unfold lastExcess
  cases last : news.getLast? with
  | none => rfl
  | some chunk => exact excess_few (by omega) (described chunk (List.mem_of_getLast? last)).some

theorem records_length (U : StrongHash) {total : Nat} : ∀ (rest : List SignedChunk) {calls : List Call} {i : Nat},
    (∀ chunk ∈ rest, Describes U new chunk) →
    List.Forall₂ (fun q call => Bounded olds new q.1 call ∧
      (excess (olds.length - 1) q.1.chunk_size = 0 ∨ q.2 + 1 = total)) (rest.zipIdx i) calls →
    i + rest.length = total →
    (calls.map Call.bytes).flatten.length ≤
      (rest.map fun chunk => DeltaWriter.added_size chunk.chunk_size).sum + lastExcess olds rest := by
  intro rest
  induction rest with
  | nil =>
    intro calls i _ all _
    cases all
    exact Nat.zero_le _
  | cons chunk rest ih =>
    intro calls i described all whole
    rw [List.zipIdx_cons] at all
    cases all with
    | @cons _ call _ calls first all =>
      obtain ⟨⟨_, most⟩, position⟩ := first
      rw [literal_length (described chunk List.mem_cons_self)] at most
      simp only [List.map_cons, List.flatten_cons, List.length_append, List.sum_cons]
      cases rest with
      | nil =>
        cases all
        simpa [lastExcess] using most
      | cons next rest =>
        rw [List.length_cons] at whole
        have others := ih (fun c member => described c (List.mem_cons_of_mem _ member)) all (by omega)
        rw [List.length_cons] at whole
        have none : excess (olds.length - 1) chunk.chunk_size = 0 := by
          refine position.resolve_right fun last => ?_
          dsimp only at last
          omega
        have same : lastExcess olds (chunk :: next :: rest) = lastExcess olds (next :: rest) := by
          simp [lastExcess, List.getLast?_cons_cons]
        rw [none] at most
        rw [same]
        simp only [List.map_cons, List.sum_cons] at others ⊢
        omega

section
variable {env : Environment} {sys : System} {original newfile : Signature} {oldfile file_to_check delta_file : Path}

theorem trailerOf_length (U : StrongHash) (signs : Signs U new newfile) :
    (trailerOf U newfile.get_chunks new newfile.whole_file_hash).length = U.get_hash_size := by
  unfold trailerOf
  by_cases skipped : newfile.whole_file_hash = []
  · rw [if_pos skipped]
    exact streamed_length U _
  · rw [if_neg skipped, signs.spec.2.resolve_left skipped]
    exact streamed_length U _

theorem chunkList_short (U : StrongHash) (content : List UInt8) : (chunkList U content).length ≤ content.length := by
  obtain ⟨cs, pieces, list⟩ := chunkList_spec U content
  have some : ∀ l ∈ cs.map List.length, 1 ≤ l := by
    intro l member
    obtain ⟨c, listed, rfl⟩ := List.mem_map.mp member
    exact List.length_pos_iff.mpr (pieces_ne_nil pieces c listed)
  have sum := List.length_le_sum_of_one_le _ some
  rw [List.length_map, ← List.length_flatten, pieces_flatten pieces] at sum
  rw [list, sign_length]
  exact sum

/-- No record is longer than the literal of its chunk, but for a reference to an index that
    takes more bytes than the chunk; the chunk is then the last one of the new file and has
    fewer than nine bytes, and the old file has more than 2¹⁴ chunks. Only by this excess can
    a delta be longer than one of literals. -/
theorem delta_is_bounded (ours : ∀ k < OutputTransaction.ATTEMPTS,
      sys.fs.names (env.locate (attempt env sys delta_file k)) = none → Ours env (attempt env sys delta_file k))
    (lasting : Lasting env sys oldfile old) (lasting' : Lasting env sys file_to_check new)
    (signs : Signs U old original) (signs' : Signs U new newfile) (small : old.length ≤ STREAMOFF_MAX) :
    let run := Delta.generate_delta env U original newfile oldfile file_to_check delta_file sys
    let olds := original.get_chunks
    let news := newfile.get_chunks
    ∀ stats, run.result = .ok stats → ∃ (calls : List Call) (trailer : List UInt8) (delta : List UInt8),
      delta = Call.header.bytes ++ (calls.map Call.bytes).flatten ++ (Call.trailer trailer).bytes ∧
      run.system.Holds env delta_file delta ∧
      List.Forall₂ (fun q call => Bounded olds new q.1 call ∧
        ((literal new q.1).bytes.length < call.bytes.length →
          q.2 + 1 = news.length ∧ q.1.chunk_size < 9 ∧ 2 ^ 14 < olds.length)) news.zipIdx calls ∧
      delta.length ≤ literalSize U news + lastExcess olds news ∧ lastExcess olds news ≤ 8 ∧
      (olds.length ≤ 2 ^ 14 → lastExcess olds news = 0) := by
  intro run olds news stats ok
  have few : olds.length < 2 ^ 64 := by
    have short := chunkList_short U old
    have : STREAMOFF_MAX < 2 ^ 64 := by decide
    rw [← signs.spec.1] at short
    exact Nat.lt_of_le_of_lt (Nat.le_trans short small) this
  have described : ∀ chunk ∈ news, Describes U new chunk := fun chunk listed => describes U (signs'.spec.1 ▸ listed)
  have last : ∀ q ∈ news.zipIdx, q.1.chunk_size < 9 → q.2 + 1 = news.length := by
    rintro ⟨chunk, i⟩ member tiny
    have here := (List.mem_zipIdx_iff_getElem?.mp member)
    have whole : news = chunkList U new := signs'.spec.1
    rw [whole] at here ⊢
    exact tiny_is_last U here (Nat.lt_trans tiny (by decide))
  have listed : ∀ q ∈ news.zipIdx, Describes U new q.1 := by
    rintro ⟨chunk, i⟩ member
    exact described chunk (List.mem_of_getElem? (List.mem_zipIdx_iff_getElem?.mp member))
  have bounded : ∀ q ∈ news.zipIdx, Bounded olds new q.1 (select olds old new q.2 q.1) :=
    fun q member => selects_bounded few (listed q member) (selects_select olds old new q.2 q.1)
  refine ⟨selection olds old new 0 news, _, _, rfl, (generate_selects ours lasting lasting' stats ok).1, ?_, ?_, ?_, ?_⟩
  · rw [selection, List.forall₂_map_right_iff, List.forall₂_same]
    intro q member
    refine ⟨bounded q member, fun longer => ?_⟩
    obtain ⟨source, below, _, some⟩ := (bounded q member).longer.mp longer
    have tiny : q.1.chunk_size < 9 := by
      by_contra long
      rw [excess_long (by omega)] at some
      omega
    refine ⟨last q member tiny, tiny, ?_⟩
    by_contra few
    rw [excess_few (by omega) (listed q member).some] at some
    omega
  · have all : List.Forall₂ (fun q call => Bounded olds new q.1 call ∧
        (excess (olds.length - 1) q.1.chunk_size = 0 ∨ q.2 + 1 = news.length)) news.zipIdx (selection olds old new 0 news) := by
      rw [selection, List.forall₂_map_right_iff, List.forall₂_same]
      intro q member
      refine ⟨bounded q member, ?_⟩
      by_cases tiny : q.1.chunk_size < 9
      · exact .inr (last q member tiny)
      · exact .inl (excess_long (by omega))
    have records := records_length U news described all (Nat.zero_add _)
    have header : Call.header.bytes.length = DELTA_HEADER_SIZE := rfl
    have trailer := trailerOf_length U signs'
    rw [List.length_append, List.length_append, header, Call.bytes, List.length_cons, trailer, literalSize]
    omega
  · exact lastExcess_le described
  · exact fun few => lastExcess_few few described

end

/-! ### An index that takes more bytes than the chunk -/

/-- A run of `q` maximal chunks and one byte more. -/
def longRun (q : Nat) (c : UInt8) : List UInt8 := List.replicate (q * DELTA_MAX_CHUNK_SIZE + 1) c

theorem longRun_chunks (U : StrongHash) (q : Nat) (c : UInt8) : chunkList U (longRun q c) =
    sign U 0 (List.replicate q (List.replicate DELTA_MAX_CHUNK_SIZE c) ++ [[c]]) :=
  chunkList_pieces U (constant_pieces c (by decide) q)

theorem byte_chunks (U : StrongHash) (c : UInt8) : chunkList U [c] = sign U 0 [[c]] :=
  chunkList_pieces U (residual_pieces c (r := 1) (by decide))

/-- The chunk of the byte is the last one of the run. -/
theorem byte_found (U : StrongHash) (q : Nat) (c : UInt8) {chunk : SignedChunk} (here : chunkList U [c] = [chunk]) :
    IsLeast {p | ∃ d, (chunkList U (longRun q c))[p]? = some d ∧ d.same chunk = true} q := by
  rw [byte_chunks, sign_cons, sign_nil] at here
  obtain rfl := List.singleton_inj.mp here
  rw [longRun_chunks]
  constructor
  · have last : ∀ offset, ∃ d, (sign U offset [[c]])[0]? = some d ∧ d.hash = U.digest [c] ∧ d.chunk_size = 1 :=
      fun offset => ⟨_, rfl, rfl, rfl⟩
    obtain ⟨d, place, hash, size⟩ := last _
    refine ⟨d, ?_, by simp [SignedChunk.same, hash, size]⟩
    rw [sign_append, List.getElem?_append_right (by rw [sign_length, List.length_replicate]), sign_length,
      List.length_replicate, Nat.sub_self]
    exact place
  · rintro p ⟨d, place, same⟩
    by_contra before
    obtain ⟨pre, w, post, split, position, _, size, _⟩ := sign_get U place
    have piece : (pre ++ w :: post)[p]? = some w := by
      rw [List.getElem?_append_right (Nat.le_of_eq position), position, Nat.sub_self]
      rfl
    rw [← split, List.getElem?_append_left (by rw [List.length_replicate]; omega),
      List.getElem?_replicate_of_lt (by omega)] at piece
    obtain rfl := Option.some.inj piece
    have : d.chunk_size = 1 := by simpa [SignedChunk.same] using (Bool.and_eq_true_iff.mp same).2
    rw [size, List.length_replicate] at this
    exact absurd this (by decide)

/-- The delta of a byte that is found at the end of a run. -/
theorem byte_delta (c : UInt8) {q : Nat} (some : 0 < q) (small : (longRun q c).length ≤ STREAMOFF_MAX) :
    let run := Delta.generate_delta {} .padded (signature .padded (longRun q c) .Skip) (signature .padded [c] .Skip)
      ⟨"", "old"⟩ ⟨"", "new"⟩ ⟨"", "delta"⟩ (filePair (longRun q c) [c])
    (∃ stats, run.result = .ok stats) ∧ ∃ delta, run.system.Holds {} ⟨"", "delta"⟩ delta ∧
      delta.length = DELTA_HEADER_SIZE + (17 + varint_size (UInt64.ofNat q)) + (1 + StrongHash.padded.get_hash_size) := by
  intro run
  have holds := filePair_old (longRun q c) [c]
  have holds' := filePair_new (longRun q c) [c]
  have signs := signs_signature .padded (longRun q c) .Skip
  have signs' := signs_signature .padded [c] .Skip
  obtain ⟨⟨stats, ok⟩, _⟩ := generate_calm Applying.undisturbed_default signs signs' holds holds' (usable_filePair _ _) small
    (show 1 ≤ STREAMOFF_MAX by decide) (by decide)
  have delivered := (generate_selects (fun k _ _ e impossible => by cases impossible)
    ⟨holds, fun e impossible => by cases impossible⟩ ⟨holds', fun e impossible => by cases impossible⟩ stats ok).1
  refine ⟨⟨stats, ok⟩, _, delivered, ?_⟩
  obtain ⟨chunk, single⟩ : ∃ chunk, chunkList .padded [c] = [chunk] := ⟨_, byte_chunks _ c⟩
  have described : Describes .padded [c] chunk := describes _ (single ▸ List.mem_singleton_self chunk)
  have found := byte_found .padded q c single
  have record := selects_unique (selects_select (chunkList .padded (longRun q c)) (longRun q c) [c] 0 chunk)
    (.moved (fun first => absurd (found.2 first) (by omega)) found)
  have size := original_length described q
  have trailer := trailerOf_length _ signs'
  have header : Call.header.bytes.length = DELTA_HEADER_SIZE := rfl
  have records : selection (chunkList .padded (longRun q c)) (longRun q c) [c] 0 [chunk] =
      [.original (UInt64.ofNat q) chunk.hash] := by
    rw [← record]
    rfl
  rw [signs'.spec.1, single] at trailer
  rw [signs.spec.1, signs'.spec.1, single, deltaOf, records, List.length_append, List.length_append, header, Call.bytes,
    List.length_cons, trailer]
  simp only [List.map_cons, List.map_nil, List.flatten_cons, List.flatten_nil, List.append_nil, size]
  omega

/-- The reference to chunk 2¹⁴ takes one byte more than the literal of a chunk of one byte. -/
theorem reference_exceeds_literal :
    let run := Delta.generate_delta {} .padded (signature .padded (longRun (2 ^ 14) 7) .Skip) (signature .padded [7] .Skip)
      ⟨"", "old"⟩ ⟨"", "new"⟩ ⟨"", "delta"⟩ (filePair (longRun (2 ^ 14) 7) [7])
    (∃ stats, run.result = .ok stats) ∧ ∃ delta, run.system.Holds {} ⟨"", "delta"⟩ delta ∧
      literalSize .padded (signature .padded [7] .Skip).get_chunks < delta.length := by
  have small : (longRun (2 ^ 14) 7).length ≤ STREAMOFF_MAX := by
    rw [longRun, List.length_replicate]
    decide
  obtain ⟨ok, delta, holds, size⟩ := byte_delta 7 (by decide) small
  refine ⟨ok, delta, holds, ?_⟩
  have literals : literalSize .padded (signature .padded [7] .Skip).get_chunks = 92 := by decide +kernel
  have index : varint_size (UInt64.ofNat (2 ^ 14)) = 3 := by decide +kernel
  rw [size, literals, index]
  decide

/-- `delta_is_bounded` for chunks that are moved, modified and added. -/
theorem delta_is_bounded_swapped :
    (∃ delta, (swapRun lastPiece).system.Holds {} ⟨"", "delta"⟩ delta ∧
      delta.length ≤ literalSize .padded (sign .padded 0 [5 :: targetPiece, targetPiece, changedPiece])) ∧
    ∃ delta, (swapRun []).system.Holds {} ⟨"", "delta"⟩ delta ∧
      delta.length ≤ literalSize .padded (sign .padded 0 [5 :: targetPiece, targetPiece, changedPiece]) := by
  constructor
  · obtain ⟨stats, ok⟩ := @swapRun_succeeds lastPiece (by decide)
    obtain ⟨calls, trailer, delta, _, holds, _, size, _, few⟩ := delta_is_bounded (fun k _ _ e impossible => by cases impossible)
      ⟨filePair_old _ _, fun e impossible => by cases impossible⟩ ⟨filePair_new _ _, fun e impossible => by cases impossible⟩
      (signs_signature .padded _ .Skip) (signs_signature .padded _ .Skip) (ordered_small (by decide)) stats ok
    rw [ordered_chunks (last_short (by decide) (by decide) : Pieces Boundary lastPiece [lastPiece]), swapped_chunks] at size few
    rw [few (by rw [sign_length]; decide), Nat.add_zero] at size
    exact ⟨delta, holds, size⟩
  · obtain ⟨stats, ok⟩ := @swapRun_succeeds [] (by decide)
    obtain ⟨calls, trailer, delta, _, holds, _, size, _, few⟩ := delta_is_bounded (fun k _ _ e impossible => by cases impossible)
      ⟨filePair_old _ _, fun e impossible => by cases impossible⟩ ⟨filePair_new _ _, fun e impossible => by cases impossible⟩
      (signs_signature .padded _ .Skip) (signs_signature .padded _ .Skip) (ordered_small (by decide))
      stats ok
    rw [ordered_chunks .nil, swapped_chunks] at size few
    rw [few (by rw [sign_length]; decide), Nat.add_zero] at size
    exact ⟨delta, holds, size⟩

end Roll.Bounding
