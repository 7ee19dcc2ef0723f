import Mathlib.Algebra.Order.BigOperators.Group.List
import Roll.Bounding

/-!
What an edit costs. Outside the part that changed, up to where both files are
cut at the same place again, the delta only refers to the old file.
-/
namespace Roll.Editing
open Roll.Chunking Roll.Chunker Roll.Constant Roll.Evaluation Roll.Committing Roll.Staging Roll.Swapping Roll.Generating
  Roll.Creating Roll.Selecting Roll.Bounding
open Roll.Counting (Call)

variable {U : StrongHash}

/-! ### Chunks of pieces -/

/-- The chunk is that of this piece. -/
def Signed (U : StrongHash) (c : List UInt8) (chunk : SignedChunk) : Prop :=
  chunk.chunk_size = c.length ∧ chunk.hash = U.digest c

theorem sign_mem {cs : List (List UInt8)} {n : Nat} {chunk : SignedChunk} (listed : chunk ∈ sign U n cs) :
    ∃ c ∈ cs, Signed U c chunk := by
  obtain ⟨i, here⟩ := List.mem_iff_getElem?.mp listed
  obtain ⟨pre, c, post, rfl, _, _, size, hash⟩ := sign_get U here
  exact ⟨c, by simp, size, hash⟩

theorem mem_sign {c : List UInt8} : ∀ {cs : List (List UInt8)}, c ∈ cs → ∀ n, ∃ chunk ∈ sign U n cs, Signed U c chunk := by
  intro cs
  induction cs with
  | nil => exact fun impossible => by cases impossible
  | cons d cs ih =>
    intro listed n
    rcases List.mem_cons.mp listed with rfl | listed
    · exact ⟨_, List.mem_cons_self, rfl, rfl⟩
    · obtain ⟨chunk, member, signed⟩ := ih listed (n + d.length)
      exact ⟨chunk, List.mem_cons_of_mem _ member, signed⟩

/-- A piece that the old file has too is found there. -/
theorem sign_found {cs ds : List (List UInt8)} (listed : ∀ d ∈ ds, d ∈ cs) (n m : Nat) :
    ∀ chunk ∈ sign U m ds, ∃ c ∈ sign U n cs, c.same chunk = true := by
  intro chunk member
  obtain ⟨d, inside, size, hash⟩ := sign_mem member
  obtain ⟨c, found, size', hash'⟩ := mem_sign (U := U) (listed d inside) n
  exact ⟨c, found, by simp [SignedChunk.same, size, hash, size', hash']⟩

/-- A chunk starts at `n`, or the file ends there. -/
def CutAt (U : StrongHash) (content : List UInt8) (n : Nat) : Prop :=
  n = content.length ∨ ∃ chunk ∈ chunkList U content, chunk.start_offset = n

theorem cutAt_ends {content : List UInt8} {cs : List (List UInt8)} {n : Nat} (pieces : Pieces Boundary content cs)
    (cut : CutAt U content n) : EndsAt cs n := by
  rcases cut with rfl | ⟨chunk, listed, rfl⟩
  · exact ⟨cs, [], (List.append_nil cs).symm, by rw [pieces_flatten pieces]⟩
  · rw [chunkList_pieces U pieces] at listed
    obtain ⟨i, here⟩ := List.mem_iff_getElem?.mp listed
    obtain ⟨pre, c, post, rfl, _, start, _⟩ := sign_get U here
    exact ⟨pre, c :: post, rfl, by rw [start, Nat.zero_add]⟩

/-- A file is cut where one of its pieces ends. -/
theorem ends_cutAt {content c : List UInt8} {pre post : List (List UInt8)} (pieces : Pieces Boundary content (pre ++ c :: post)) :
    CutAt U content pre.flatten.length := by
  refine .inr ?_
  rw [chunkList_pieces U pieces, sign_append, sign_cons]
  exact ⟨_, List.mem_append_right _ List.mem_cons_self, Nat.zero_add _⟩

/-! ### Costs -/

/-- The bytes of a chunk that the old file does not have. -/
def fresh (olds : List SignedChunk) (chunk : SignedChunk) : Nat :=
  if olds.any (·.same chunk) then 0 else chunk.chunk_size

/-- The most that a record takes besides the bytes of its chunk: a tag, a digest and a
    varint. -/
def RECORD_MAX : Nat := 1 + DELTA_DIGEST_BYTES + VARINT_MAX_BYTES

variable {new : List UInt8} {olds : List SignedChunk} {chunk : SignedChunk}

theorem select_found (old new : List UInt8) (i : Nat) (found : ∃ c ∈ olds, c.same chunk = true) :
    ∃ source, select olds old new i chunk = .original (UInt64.ofNat source) chunk.hash := by
  unfold select
  cases choice : reused olds i chunk with
  | some source => exact ⟨source, rfl⟩
  | none =>
    obtain ⟨c, listed, same⟩ := found
    exact absurd same (reused_none.mp choice c listed)

theorem select_length (olds : List SignedChunk) (old : List UInt8) (i : Nat) (described : Describes U new chunk) :
    (select olds old new i chunk).bytes.length ≤ RECORD_MAX + fresh olds chunk := by
  have width : RECORD_MAX = 27 := rfl
  have longest : VARINT_MAX_BYTES = 10 := rfl
  unfold fresh
  by_cases found : olds.any (·.same chunk) = true
  · obtain ⟨source, reference⟩ := select_found old new i (List.any_eq_true.mp found)
    have index := Counting.varint_size_le (UInt64.ofNat source)
    rw [if_pos found, reference, original_length described]
    omega
  · have size := literal_length described
    have length := Counting.varint_size_le (UInt64.ofNat chunk.chunk_size)
    rw [DeltaWriter.added_size, show DELTA_DIGEST_BYTES = 16 from rfl] at size
    have other : ∀ c ∈ olds, ¬ c.same chunk = true := by simpa using found
    rw [if_neg found]
    have law := selects_select olds old new i chunk
    generalize select olds old new i chunk = call at law ⊢
    cases law with
    | same here same => exact absurd same (other _ (List.mem_of_getElem? here))
    | moved _ least =>
      obtain ⟨c, here, same⟩ := least.1
      exact absurd same (other c (List.mem_of_getElem? here))
    | modified _ _ data _ _ short =>
      subst data
      rw [literal] at size
      omega
    | added _ data =>
      subst data
      rw [literal] at size
      omega

theorem selection_append (olds : List SignedChunk) (old new : List UInt8) (i : Nat) (news news' : List SignedChunk) :
    selection olds old new i (news ++ news') =
      selection olds old new i news ++ selection olds old new (i + news.length) news' := by
  simp only [selection, List.zipIdx_append, List.map_append]

theorem selection_found (old new : List UInt8) (i : Nat) {news : List SignedChunk}
    (found : ∀ chunk ∈ news, ∃ c ∈ olds, c.same chunk = true) :
    ∀ call ∈ selection olds old new i news, ∃ source digest, call = .original source digest := by
  intro call member
  obtain ⟨⟨chunk, j⟩, listed, rfl⟩ := List.mem_map.mp member
  obtain ⟨source, reference⟩ := select_found old new j (found chunk (List.fst_mem_of_mem_zipIdx listed))
  exact ⟨_, _, reference⟩

theorem selection_length (olds : List SignedChunk) (old : List UInt8) : ∀ {news : List SignedChunk} (i : Nat),
    (∀ chunk ∈ news, Describes U new chunk) →
    ((selection olds old new i news).map Call.bytes).flatten.length ≤
      RECORD_MAX * news.length + (news.map (fresh olds)).sum := by
  intro news
  induction news with
  | nil => exact fun _ _ => Nat.le_refl 0
  | cons chunk news ih =>
    intro i described
    have first := select_length olds old i (described chunk List.mem_cons_self)
    have rest := ih (i + 1) fun c member => described c (List.mem_cons_of_mem chunk member)
    have split : selection olds old new i (chunk :: news) = select olds old new i chunk :: selection olds old new (i + 1) news := by
      simp only [selection, List.zipIdx_cons, List.map_cons]
    rw [split]
    simp only [List.map_cons, List.flatten_cons, List.length_append, List.length_cons, List.sum_cons, Nat.mul_add, Nat.mul_one]
    omega

theorem fresh_found {news : List SignedChunk} (found : ∀ chunk ∈ news, ∃ c ∈ olds, c.same chunk = true) :
    (news.map (fresh olds)).sum = 0 := by
  refine List.sum_eq_zero fun n member => ?_
  obtain ⟨chunk, listed, rfl⟩ := List.mem_map.mp member
  exact if_pos (List.any_eq_true.mpr (found chunk listed))

theorem fresh_sign (U : StrongHash) (olds : List SignedChunk) (cs : List (List UInt8)) (n : Nat) :
    ((sign U n cs).map (fresh olds)).sum ≤ cs.flatten.length := by
  have sizes : ((sign U n cs).map (·.chunk_size)).sum = cs.flatten.length := by
    rw [sizes_sign, List.length_flatten]
  rw [← sizes]
  refine List.sum_le_sum fun chunk _ => ?_
  unfold fresh
  split
  · exact Nat.zero_le _
  · exact Nat.le_refl _

/-! ### Edits -/

/-- The records of the chunks of pieces of which only some in a row, `mid`, are not found. -/
theorem selection_cost {cs pre mid post : List (List UInt8)} (kept : ∀ c ∈ pre ++ post, c ∈ cs)
    (described : ∀ chunk ∈ sign U 0 (pre ++ mid ++ post), Describes U new chunk) (old : List UInt8) :
    ∃ before during after : List Call,
      selection (sign U 0 cs) old new 0 (sign U 0 (pre ++ mid ++ post)) = before ++ during ++ after ∧
      (∀ call ∈ before ++ after, ∃ source digest, call = .original source digest) ∧
      during.length = mid.length ∧
      (during.map Call.bytes).flatten.length ≤ RECORD_MAX * during.length + mid.flatten.length ∧
      ((before ++ during ++ after).map Call.bytes).flatten.length ≤
        RECORD_MAX * (pre ++ mid ++ post).length + mid.flatten.length := by
  set olds := sign U 0 cs
  have news : sign U 0 (pre ++ mid ++ post) =
      sign U 0 pre ++ sign U pre.flatten.length mid ++ sign U (pre ++ mid).flatten.length post := by
    rw [sign_append, sign_append, Nat.zero_add, Nat.zero_add]
  have found : ∀ chunk ∈ sign U 0 pre, ∃ c ∈ olds, c.same chunk = true :=
    sign_found (fun d member => kept d (List.mem_append_left post member)) 0 0
  have found' : ∀ chunk ∈ sign U (pre ++ mid).flatten.length post, ∃ c ∈ olds, c.same chunk = true :=
    sign_found (fun d member => kept d (List.mem_append_right pre member)) 0 _
  have fewer := fresh_sign U olds mid pre.flatten.length
  have all := selection_length olds old 0 described
  rw [sign_length, news, List.map_append, List.map_append, List.sum_append, List.sum_append, fresh_found found,
    fresh_found found', selection_append, selection_append] at all
  rw [news] at described ⊢
  have count : (selection olds old new (0 + (sign U 0 pre).length) (sign U pre.flatten.length mid)).length = mid.length := by
    rw [selection, List.length_map, List.length_zipIdx, sign_length]
  refine ⟨_, _, _, by rw [selection_append, selection_append], ?_, count, ?_, by omega⟩
  · intro call member
    exact (List.mem_append.mp member).elim (selection_found old new _ found call) (selection_found old new _ found' call)
  · have part := selection_length olds old (0 + (sign U 0 pre).length) fun chunk member =>
      described chunk (List.mem_append_left _ (List.mem_append_right _ member))
    rw [selection, List.length_map, List.length_zipIdx]
    exact Nat.le_trans part (by omega)

section
variable {env : Environment} {sys : System} {original newfile : Signature} {oldfile file_to_check delta_file : Path}
  {p x y tail : List UInt8}

/-- As many records as hold so many bytes and a chunk more. -/
def recordsFor (bytes : Nat) : Nat := (bytes + DELTA_MAX_CHUNK_SIZE) / DELTA_MIN_CHUNK_SIZE + 1

/-- A part `x` of a file becomes `y`, and both files are cut after it. Then the records of
    the delta, one for each chunk of the new file, are references to old chunks but for
    some in a row, `during`. How many these are and what they take depends on the length
    of `y` alone. -/
theorem edits_cost_their_bytes (ours : ∀ k < OutputTransaction.ATTEMPTS,
      sys.fs.names (env.locate (attempt env sys delta_file k)) = none → Ours env (attempt env sys delta_file k))
    (lasting : Lasting env sys oldfile (p ++ x ++ tail)) (lasting' : Lasting env sys file_to_check (p ++ y ++ tail))
    (signs : Signs U (p ++ x ++ tail) original) (signs' : Signs U (p ++ y ++ tail) newfile)
    (cut : CutAt U (p ++ x ++ tail) (p ++ x).length) (cut' : CutAt U (p ++ y ++ tail) (p ++ y).length) :
    let run := Delta.generate_delta env U original newfile oldfile file_to_check delta_file sys
    ∀ stats, run.result = .ok stats → ∃ (before during after : List Call) (trailer delta : List UInt8),
      delta = Call.header.bytes ++ ((before ++ during ++ after).map Call.bytes).flatten ++ (Call.trailer trailer).bytes ∧
      run.system.Holds env delta_file delta ∧ (before ++ during ++ after).length = newfile.get_chunks.length ∧
      (∀ call ∈ before ++ after, ∃ source digest, call = .original source digest) ∧
      during.length ≤ recordsFor y.length ∧
      (during.map Call.bytes).flatten.length ≤ RECORD_MAX * recordsFor y.length + (y.length + DELTA_MAX_CHUNK_SIZE) ∧
      delta.length ≤ DELTA_HEADER_SIZE + RECORD_MAX * newfile.get_chunks.length + (y.length + DELTA_MAX_CHUNK_SIZE) +
        (1 + U.get_hash_size) := by
  intro run stats ok
  obtain ⟨cs, pieces, list⟩ := chunkList_spec U (p ++ x ++ tail)
  obtain ⟨ds, pieces', list'⟩ := chunkList_spec U (p ++ y ++ tail)
  obtain ⟨pre, mid, post, rfl, kept, short⟩ :=
    pieces_edit pieces pieces' (cutAt_ends pieces cut) (cutAt_ends pieces' cut') (piece_short pieces')
  obtain ⟨before, during, after, records, references, count, some, all⟩ :=
    selection_cost kept (fun chunk listed => describes U (list' ▸ listed)) (p ++ x ++ tail)
  have holds := (generate_selects ours lasting lasting' stats ok).1
  have trailer := trailerOf_length U signs'
  rw [deltaOf, signs.spec.1, signs'.spec.1, list, list', records] at holds
  rw [signs'.spec.1, list'] at trailer ⊢
  have whole : (before ++ during ++ after).length = (sign U 0 (pre ++ mid ++ post)).length := by
    rw [← records, selection, List.length_map, List.length_zipIdx]
  -- A piece that another one follows is no shorter than the smallest chunk.
  have few : during.length ≤ recordsFor y.length := by
    have least : DELTA_MIN_CHUNK_SIZE * (mid.length - 1) ≤ mid.flatten.length :=
      pieces_count (fun _ => boundary_long) pieces'
    have quotient : mid.length - 1 ≤ (y.length + DELTA_MAX_CHUNK_SIZE) / DELTA_MIN_CHUNK_SIZE :=
      (Nat.le_div_iff_mul_le (by decide)).mpr (by rw [Nat.mul_comm]; omega)
    rw [recordsFor, count]
    omega
  refine ⟨before, during, after, _, _, rfl, holds, whole, references, few, ?_, ?_⟩
  · have frames := Nat.mul_le_mul_left RECORD_MAX few
    omega
  · have header : Call.header.bytes.length = DELTA_HEADER_SIZE := rfl
    rw [List.length_append, List.length_append, header, Call.bytes, List.length_cons, sign_length]
    omega

/-- A file of three chunks, and the file after a byte is inserted into the second. -/
def threeChunks : List UInt8 := targetPiece ++ targetPiece ++ [7, 8, 9]
def insertedByte : List UInt8 := targetPiece ++ (5 :: targetPiece) ++ [7, 8, 9]

theorem threeChunks_pieces : Pieces Boundary threeChunks [targetPiece, targetPiece, [7, 8, 9]] := by
  rw [threeChunks, List.append_assoc]
  exact targetPiece_pieces (targetPiece_pieces (last_short (by decide) (by decide)))

theorem insertedByte_pieces : Pieces Boundary insertedByte [targetPiece, 5 :: targetPiece, [7, 8, 9]] := by
  rw [insertedByte, List.append_assoc]
  exact targetPiece_pieces (inserted_pieces (last_short (by decide) (by decide)))

theorem threeChunks_cut (U : StrongHash) : CutAt U threeChunks (targetPiece ++ targetPiece).length := by
  have ended : CutAt U threeChunks [targetPiece, targetPiece].flatten.length := ends_cutAt threeChunks_pieces
  rwa [List.flatten_cons, List.flatten_cons, List.flatten_nil, List.append_nil] at ended

theorem insertedByte_cut (U : StrongHash) : CutAt U insertedByte (targetPiece ++ 5 :: targetPiece).length := by
  have ended : CutAt U insertedByte [targetPiece, 5 :: targetPiece].flatten.length := ends_cutAt insertedByte_pieces
  rwa [List.flatten_cons, List.flatten_cons, List.flatten_nil, List.append_nil] at ended

def insertionRun : GenerateRun :=
  Delta.generate_delta {} .padded (signature .padded threeChunks .Skip) (signature .padded insertedByte .Skip) ⟨"", "old"⟩
    ⟨"", "new"⟩ ⟨"", "delta"⟩ (filePair threeChunks insertedByte)

/-- `edits_cost_their_bytes` where the byte is inserted. -/
theorem insertion_costs_its_chunk :
    (∃ stats, insertionRun.result = .ok stats) ∧ ∃ (before during after : List Call) (trailer delta : List UInt8),
      delta = Call.header.bytes ++ ((before ++ during ++ after).map Call.bytes).flatten ++ (Call.trailer trailer).bytes ∧
      insertionRun.system.Holds {} ⟨"", "delta"⟩ delta ∧ (before ++ during ++ after).length = 3 ∧
      (∀ call ∈ before ++ after, ∃ source digest, call = .original source digest) ∧ during.length ≤ recordsFor 513 := by
  have length := targetPiece_length
  have length' : (5 :: targetPiece).length = 513 := by rw [List.length_cons, length]
  have holds := filePair_old threeChunks insertedByte
  have holds' := filePair_new threeChunks insertedByte
  have signs := signs_signature .padded threeChunks .Skip
  have signs' := signs_signature .padded insertedByte .Skip
  have small : threeChunks.length ≤ STREAMOFF_MAX := by
    rw [threeChunks, List.length_append, List.length_append, length]
    decide
  have small' : insertedByte.length ≤ STREAMOFF_MAX := by
    rw [insertedByte, List.length_append, List.length_append, length, length']
    decide
  obtain ⟨stats, ok⟩ := (generate_calm Applying.undisturbed_default signs signs' holds holds' (usable_filePair _ _) small
    small' (by decide)).1
  obtain ⟨before, during, after, trailer, delta, shape, written, records, references, few, _, _⟩ :=
    @edits_cost_their_bytes .padded {} (filePair threeChunks insertedByte) (signature .padded threeChunks .Skip)
      (signature .padded insertedByte .Skip) ⟨"", "old"⟩ ⟨"", "new"⟩ ⟨"", "delta"⟩ targetPiece targetPiece
      (5 :: targetPiece) [7, 8, 9] (fun k _ _ e impossible => by cases impossible)
      ⟨holds, fun e impossible => by cases impossible⟩ ⟨holds', fun e impossible => by cases impossible⟩ signs signs'
      (threeChunks_cut .padded) (insertedByte_cut .padded) stats ok
  have three : (signature .padded insertedByte .Skip).get_chunks.length = 3 := by
    rw [signs'.spec.1, chunkList_pieces _ insertedByte_pieces, sign_length]
    rfl
  rw [three] at records
  rw [length'] at few
  exact ⟨⟨stats, ok⟩, before, during, after, trailer, delta, shape, written, records, references, few⟩

end

end Roll.Editing
