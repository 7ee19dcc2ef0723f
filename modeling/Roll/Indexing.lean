import Roll.ChunkIndex
import Mathlib.Order.Bounds.Basic
import Mathlib.Data.List.Forall2

/-!
The index answers like a linear scan, whatever was asked before.

Every content has one bucket, with all positions of that content in ascending
order (`lookup_build`). A cursor only passes positions whose flag is set, and a
set flag stays set, so what a cursor has passed is never wanted again (`Ready`).
-/
namespace Roll.Indexing
open ChunkIndex

theorem same_symm {a b : SignedChunk} (same : a.same b = true) : b.same a = true := by
  simp only [SignedChunk.same, Bool.and_eq_true, decide_eq_true_eq] at same ⊢
  exact ⟨same.1.symm, same.2.symm⟩

/-- Chunks that are the same are the same as the same chunks. -/
theorem same_congr {a b : SignedChunk} (same : a.same b = true) (c : SignedChunk) : a.same c = b.same c := by
  simp only [SignedChunk.same, Bool.and_eq_true, decide_eq_true_eq] at same ⊢
  rw [same.1, same.2]

/-! ### The bucket of a content -/

/-- The bucket that a probe gets to; an empty one where it gets to none. -/
def lookup (probe : SignedChunk) : List (SignedChunk × Bucket) → Bucket
  | [] => {}
  | (key, bucket) :: rest => if key.same probe then bucket else lookup probe rest

/-- The positions of the chunks that are the same as the probe, in ascending order. -/
def positionsOf (chunks : List SignedChunk) (probe : SignedChunk) : List Nat := chunks.findIdxs (·.same probe)

theorem lookup_push (chunk probe : SignedChunk) (i : Nat) : ∀ buckets : List (SignedChunk × Bucket),
    lookup probe (push chunk i buckets) =
      if chunk.same probe then { lookup probe buckets with positions := (lookup probe buckets).positions ++ [i] }
      else lookup probe buckets := by
  intro buckets
  induction buckets with
  | nil => rfl
  | cons first rest ih =>
    obtain ⟨key, bucket⟩ := first
    unfold push
    by_cases mine : key.same chunk = true
    · rw [if_pos mine, ← same_congr mine probe]
      by_cases here : key.same probe = true
      · simp [lookup, here]
      · simp [lookup, here]
    · rw [if_neg mine]
      by_cases here : key.same probe = true
      · have apart : ¬ chunk.same probe = true :=
          fun equal => mine (by rw [same_congr here chunk]; exact same_symm equal)
        simp [lookup, here, apart]
      · simp only [lookup, here, Bool.false_eq_true, if_false, ih]

theorem lookup_insert (probe : SignedChunk) : ∀ (chunks : List SignedChunk) (i : Nat)
    (buckets : List (SignedChunk × Bucket)), lookup probe (insert_from i chunks buckets) =
      { lookup probe buckets with
        positions := (lookup probe buckets).positions ++ chunks.findIdxs (·.same probe) i } := by
  intro chunks
  induction chunks with
  | nil =>
    intro i buckets
    simp [insert_from]
  | cons chunk chunks ih =>
    intro i buckets
    rw [insert_from, ih, lookup_push]
    by_cases here : chunk.same probe = true
    · simp [here]
    · simp [here]

theorem lookup_build (chunks : List SignedChunk) (probe : SignedChunk) :
    lookup probe (build chunks).buckets_ = { positions := positionsOf chunks probe } := by
  rw [build, lookup_insert, lookup, List.nil_append, positionsOf]

/-- A call takes the bucket of its probe and leaves it with its cursor moved. -/
theorem find_in_lookup (used : List Bool) (probe : SignedChunk) : ∀ buckets : List (SignedChunk × Bucket),
    (find_in used probe buckets).1 =
      (advance used (lookup probe buckets)).positions[(advance used (lookup probe buckets)).cursor]? ∧
    ∀ other, lookup other (find_in used probe buckets).2 =
      if probe.same other then advance used (lookup other buckets) else lookup other buckets := by
  intro buckets
  induction buckets with
  | nil => exact ⟨rfl, fun other => (ite_self _).symm⟩
  | cons first rest ih =>
    obtain ⟨key, bucket⟩ := first
    obtain ⟨found, kept⟩ := ih
    unfold find_in
    by_cases mine : key.same probe = true
    · rw [if_pos mine]
      refine ⟨by simp [lookup, mine], fun other => ?_⟩
      rw [← same_congr mine other]
      by_cases here : key.same other = true
      · simp [lookup, here]
      · simp [lookup, here]
    · rw [if_neg mine]
      refine ⟨by rw [lookup, if_neg mine]; exact found, fun other => ?_⟩
      by_cases here : key.same other = true
      · have apart : ¬ probe.same other = true :=
          fun equal => mine (by rw [same_congr here probe]; exact same_symm equal)
        simp [lookup, here, apart]
      · simp only [lookup, here, Bool.false_eq_true, if_false, kept]

/-! ### The cursor -/

theorem marked_iff {used : List Bool} {position : Nat} : used.getD position false = true ↔ used[position]? = some true := by
  rw [List.getD_eq_getElem?_getD]
  cases used[position]? <;> simp

/-- What the cursor has passed is consumed. -/
def Passed (used : List Bool) (bucket : Bucket) : Prop :=
  ∀ position ∈ bucket.positions.take bucket.cursor, used[position]? = some true

/-- The first position that is not consumed. -/
def first_free (used : List Bool) (positions : List Nat) : Option Nat :=
  positions.find? fun position => !used.getD position false

/-- Positions that are consumed do not change which position is the first that is not. -/
theorem first_free_append {used : List Bool} {before : List Nat} (passed : ∀ p ∈ before, used[p]? = some true)
    (after : List Nat) : first_free used (before ++ after) = first_free used after := by
  have none : first_free used before = none := by
    refine List.find?_eq_none.mpr fun p member => ?_
    simp [passed p member]
  rw [first_free, List.find?_append, ← first_free, none, Option.none_or, first_free]

theorem skip_used_spec (used : List Bool) : ∀ (after before : List Nat), (∀ p ∈ before, used[p]? = some true) →
    (before ++ after)[skip_used used after before.length]? = first_free used after ∧
    ∀ p ∈ (before ++ after).take (skip_used used after before.length), used[p]? = some true := by
  intro after
  induction after with
  | nil =>
    intro before passed
    exact ⟨by simp [skip_used, first_free], by simpa [skip_used] using passed⟩
  | cons position after ih =>
    intro before passed
    by_cases here : used.getD position false = true
    · have both : ∀ p ∈ before ++ [position], used[p]? = some true := by
        intro p member
        rcases List.mem_append.mp member with member | member
        · exact passed p member
        · rw [List.mem_singleton.mp member]
          exact marked_iff.mp here
      have rest := ih (before ++ [position]) both
      rw [List.append_assoc, List.length_append] at rest
      rw [skip_used, if_pos here, ← List.singleton_append, first_free_append fun p member => both p (by simp [member])]
      exact rest
    · rw [skip_used, if_neg here]
      refine ⟨?_, by simpa using passed⟩
      rw [first_free, List.find?_cons_of_pos (by simpa using here)]
      simp

theorem advance_spec {used : List Bool} {bucket : Bucket} (passed : Passed used bucket) :
    (advance used bucket).positions[(advance used bucket).cursor]? = first_free used bucket.positions ∧
    Passed used (advance used bucket) := by
  have split := List.take_append_drop bucket.cursor bucket.positions
  rcases Nat.le_total bucket.cursor bucket.positions.length with inside | beyond
  · have skipped := skip_used_spec used (bucket.positions.drop bucket.cursor) _ passed
    rw [← first_free_append passed, List.length_take, Nat.min_eq_left inside, split] at skipped
    exact skipped
  · have stays : advance used bucket = bucket := by rw [advance, List.drop_eq_nil_of_le beyond, skip_used]
    have none := first_free_append passed (bucket.positions.drop bucket.cursor)
    rw [split, List.drop_eq_nil_of_le beyond] at none
    rw [stays, none, List.getElem?_eq_none beyond]
    exact ⟨rfl, passed⟩

/-! ### The whole index -/

/-- A free position of the probe: its flag is not set, and the chunk is the same as the probe. -/
def Free (chunks : List SignedChunk) (used : List Bool) (probe : SignedChunk) (position : Nat) : Prop :=
  used[position]? = some false ∧ ∃ chunk, chunks[position]? = some chunk ∧ chunk.same probe = true

/-- The answer of a linear scan. -/
structure Scanned (chunks : List SignedChunk) (used : List Bool) (probe : SignedChunk) (found : Option Nat) : Prop where
  succeeds : found.isSome = true ↔ ∃ position, Free chunks used probe position
  least : ∀ position, found = some position → IsLeast {p | Free chunks used probe p} position

/-- Every bucket has all positions of its content, and its cursor has passed consumed ones only. -/
def Ready (chunks : List SignedChunk) (used : List Bool) (index : ChunkIndex) : Prop :=
  ∀ probe, (lookup probe index.buckets_).positions = positionsOf chunks probe ∧ Passed used (lookup probe index.buckets_)

variable {chunks : List SignedChunk} {used used' : List Bool}

theorem mem_positionsOf {probe : SignedChunk} {position : Nat} :
    position ∈ positionsOf chunks probe ↔ ∃ chunk, chunks[position]? = some chunk ∧ chunk.same probe = true := by
  rw [positionsOf, List.mem_findIdxs_iff_exists_getElem_pos]
  constructor
  · rintro ⟨below, same⟩
    exact ⟨_, List.getElem?_eq_getElem below, same⟩
  · rintro ⟨chunk, here, same⟩
    obtain ⟨below, rfl⟩ := List.getElem?_eq_some_iff.mp here
    exact ⟨below, same⟩

theorem unmarked_iff (sized : used.length = chunks.length) {probe : SignedChunk} {position : Nat}
    (here : position ∈ positionsOf chunks probe) :
    used.getD position false = false ↔ Free chunks used probe position := by
  obtain ⟨chunk, listed, same⟩ := mem_positionsOf.mp here
  obtain ⟨below, _⟩ := List.getElem?_eq_some_iff.mp listed
  have inside : position < used.length := sized ▸ below
  rw [List.getD_eq_getElem?_getD, List.getElem?_eq_getElem inside, Option.getD_some]
  constructor
  · intro unmarked
    exact ⟨by rw [List.getElem?_eq_getElem inside, unmarked], chunk, listed, same⟩
  · rintro ⟨unmarked, _⟩
    simpa [inside] using unmarked

/-- The first free position of a content is the least one. -/
theorem first_free_scans (sized : used.length = chunks.length) (probe : SignedChunk) :
    Scanned chunks used probe (first_free used (positionsOf chunks probe)) := by
  constructor
  · rw [first_free, List.find?_isSome]
    constructor
    · rintro ⟨position, here, unmarked⟩
      exact ⟨position, (unmarked_iff sized here).mp (by simpa using unmarked)⟩
    · rintro ⟨position, free⟩
      have here := mem_positionsOf.mpr free.2
      have unmarked := (unmarked_iff sized here).mpr free
      exact ⟨position, here, by rw [unmarked]; rfl⟩
  · intro position found
    obtain ⟨unmarked, before, after, split, passed⟩ := List.find?_eq_some_iff_append.mp found
    have here : position ∈ positionsOf chunks probe := by simp [split]
    refine ⟨(unmarked_iff sized here).mp (by simpa using unmarked), fun other free => ?_⟩
    have sorted : (positionsOf chunks probe).Pairwise (· < ·) := List.pairwise_findIdxs
    have other_here := mem_positionsOf.mpr free.2
    have other_unmarked := (unmarked_iff sized other_here).mpr free
    rw [split] at other_here sorted
    rcases List.mem_append.mp other_here with earlier | later
    · have marked := passed other earlier
      rw [other_unmarked] at marked
      cases marked
    · rcases List.mem_cons.mp later with rfl | later
      · exact Nat.le_refl _
      · have above := (List.pairwise_cons.mp (List.pairwise_append.mp sorted).2.1).1 other later
        exact Nat.le_of_lt above

theorem ready_build (chunks : List SignedChunk) (used : List Bool) : Ready chunks used (build chunks) := by
  intro probe
  rw [lookup_build]
  exact ⟨rfl, fun position impossible => by cases impossible⟩

/-- The flags of a later call: what was set is set. -/
def Marks (used used' : List Bool) : Prop := ∀ position : Nat, used[position]? = some true → used'[position]? = some true

theorem Ready.marks {index : ChunkIndex} (ready : Ready chunks used index) (marks : Marks used used') :
    Ready chunks used' index := by
  intro probe
  obtain ⟨positions, passed⟩ := ready probe
  exact ⟨positions, fun position member => marks position (passed position member)⟩

/-- One call: the answer of a scan, and the index is as ready as before. -/
theorem find_unused_spec (sized : used.length = chunks.length) {index : ChunkIndex} (ready : Ready chunks used index)
    (probe : SignedChunk) : Scanned chunks used probe (find_unused used probe index).1 ∧
      Ready chunks used (find_unused used probe index).2 := by
  obtain ⟨found, kept⟩ := find_in_lookup used probe index.buckets_
  obtain ⟨positions, passed⟩ := ready probe
  constructor
  · have answer : (find_unused used probe index).1 = first_free used (positionsOf chunks probe) := by
      rw [← positions, ← (advance_spec passed).1]
      exact found
    rw [answer]
    exact first_free_scans sized probe
  · intro other
    have after : lookup other (find_unused used probe index).2.buckets_ =
      if probe.same other then advance used (lookup other index.buckets_) else lookup other index.buckets_ := kept other
    obtain ⟨positions', passed'⟩ := ready other
    rw [after]
    by_cases same : probe.same other = true
    · rw [if_pos same]
      exact ⟨positions', (advance_spec passed').2⟩
    · rw [if_neg same]
      exact ⟨positions', passed'⟩

/-! ### A history of calls -/

/-- One call of `find_unused`: the flags it is shown and what it looks for. -/
structure Lookup where
  used : List Bool
  probe : SignedChunk

/-- The answers to calls made one after another on one index. -/
def answers : List Lookup → ChunkIndex → List (Option Nat)
  | [], _ => []
  | call :: rest, index =>
    let (found, index) := index.find_unused call.used call.probe
    found :: answers rest index

theorem answers_scan : ∀ (calls : List Lookup) (used : List Bool) (index : ChunkIndex), Ready chunks used index →
    (∀ call ∈ calls, call.used.length = chunks.length) → (∀ call ∈ calls, Marks used call.used) →
    calls.Pairwise (fun earlier later => Marks earlier.used later.used) →
    List.Forall₂ (fun call found => Scanned chunks call.used call.probe found) calls (answers calls index) := by
  intro calls
  induction calls with
  | nil =>
    intro used index _ _ _ _
    exact .nil
  | cons call calls ih =>
    intro used index ready sized marks pairwise
    obtain ⟨mine, others⟩ := List.pairwise_cons.mp pairwise
    obtain ⟨scanned, ready'⟩ := find_unused_spec (sized call (by simp)) (ready.marks (marks call (by simp))) call.probe
    exact .cons scanned (ih call.used _ ready' (fun c member => sized c (by simp [member])) mine others)

theorem Marks.trans {used'' : List Bool} (first : Marks used used') (second : Marks used' used'') : Marks used used'' :=
  fun position set => second position (first position set)

instance : IsTrans Lookup fun earlier later => Marks earlier.used later.used where
  trans _ _ _ first second := first.trans second

/-- A scan has one answer. -/
theorem Scanned.unique {probe : SignedChunk} {found found' : Option Nat} (scanned : Scanned chunks used probe found)
    (scanned' : Scanned chunks used probe found') : found = found' := by
  cases found with
  | none =>
    cases found' with
    | none => rfl
    | some position =>
      have := scanned.succeeds.mpr (scanned'.succeeds.mp rfl)
      cases this
  | some position =>
    cases found' with
    | none =>
      have := scanned'.succeeds.mpr (scanned.succeeds.mp rfl)
      cases this
    | some position' => rw [(scanned.least position rfl).unique (scanned'.least position' rfl)]

/-- What a list that answers call by call holds at a place. -/
theorem answer_at {R : Lookup → Option Nat → Prop} {calls : List Lookup} {founds : List (Option Nat)}
    (all : List.Forall₂ R calls founds) {i : Nat} {call : Lookup} (here : calls[i]? = some call) :
    ∃ found, founds[i]? = some found ∧ R call found := by
  obtain ⟨below, rfl⟩ := List.getElem?_eq_some_iff.mp here
  have below' : i < founds.length := all.length_eq ▸ below
  exact ⟨founds[i], List.getElem?_eq_getElem below', all.get below below'⟩

/-- Whatever calls are made, as long as flags are only ever set between them, every
    call answers as a scan of the chunks does: a position that was marked is not
    returned again, and a call that is repeated has the same answer. -/
theorem index_answers_scan (chunks : List SignedChunk) (calls : List Lookup)
    (sized : ∀ call ∈ calls, call.used.length = chunks.length)
    (monotone : calls.IsChain fun earlier later => Marks earlier.used later.used) :
    List.Forall₂ (fun call found => Scanned chunks call.used call.probe found) calls
      (answers calls (ChunkIndex.build chunks)) ∧
    (∀ (i j : Nat) (call : Lookup) (position : Nat), i ≤ j → calls[i]? = some call →
      call.used[position]? = some true → (answers calls (ChunkIndex.build chunks))[j]? ≠ some (some position)) ∧
    ∀ i j : Nat, calls[i]? = calls[j]? →
      (answers calls (ChunkIndex.build chunks))[i]? = (answers calls (ChunkIndex.build chunks))[j]? := by
  have pairwise := List.isChain_iff_pairwise.mp monotone
  have unset : ∀ call : Lookup, Marks (List.replicate chunks.length false) call.used := by
    intro call position set
    rw [List.getElem?_replicate] at set
    split at set <;> cases set
  have scans := answers_scan calls _ _ (ready_build chunks (List.replicate chunks.length false)) sized
    (fun call _ => unset call) pairwise
  refine ⟨scans, ?_, ?_⟩
  · intro i j call position le called marked returned
    have below := (List.getElem?_eq_some_iff.mp returned).1
    rw [← scans.length_eq] at below
    obtain ⟨found, here, scanned⟩ := answer_at scans (List.getElem?_eq_getElem below)
    obtain rfl : found = some position := by simpa [here] using returned
    have free := (scanned.least position rfl).1.1
    have later : Marks call.used calls[j].used := by
      obtain ⟨inside, rfl⟩ := List.getElem?_eq_some_iff.mp called
      rcases Nat.lt_or_eq_of_le le with before | rfl
      · exact List.pairwise_iff_getElem.mp pairwise i j inside below before
      · exact fun _ set => set
    rw [later position marked] at free
    cases free
  · intro i j same
    rcases Nat.lt_or_ge i calls.length with inside | beyond
    · have here := List.getElem?_eq_getElem inside
      obtain ⟨found, found_at, scanned⟩ := answer_at scans here
      obtain ⟨found', found_at', scanned'⟩ := answer_at scans (same ▸ here)
      rw [found_at, found_at', scanned.unique scanned']
    · have beyond' := List.getElem?_eq_none_iff.mp (same ▸ List.getElem?_eq_none beyond)
      rw [scans.length_eq] at beyond beyond'
      rw [List.getElem?_eq_none beyond, List.getElem?_eq_none beyond']

/-- Two calls on two equal chunks, the first of which is marked in between. -/
theorem index_answers_scan_twice :
    let chunk : SignedChunk := { signature := 0, hash := [1], start_offset := 0, chunk_size := 3 }
    let calls : List Lookup := [{ used := [false, false], probe := chunk }, { used := [true, false], probe := chunk }]
    List.Forall₂ (fun call found => Scanned [chunk, chunk] call.used call.probe found) calls
      (answers calls (ChunkIndex.build [chunk, chunk])) ∧
    answers calls (ChunkIndex.build [chunk, chunk]) = [some 0, some 1] := by
  intro chunk calls
  refine ⟨(index_answers_scan [chunk, chunk] calls ?_ ?_).1, by decide⟩
  · intro call member
    rcases List.mem_cons.mp member with rfl | member
    · rfl
    · rw [List.mem_singleton.mp member]
      rfl
  · refine List.isChain_cons_cons.mpr ⟨fun position set => ?_, .singleton _⟩
    rcases position with _ | _ | position
    · cases set
    · cases set
    · cases set

end Roll.Indexing
