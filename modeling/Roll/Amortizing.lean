import Roll.Indexing
import Roll.Refinement

/-!
What the lookups in an index of chunks cost together: the cursor of a bucket only
moves on, so each position is passed once in the life of the index.
-/
namespace Roll.Amortizing
open Roll.ChunkIndex Roll.Indexing
open Roll.Refinement (Machine)

/-- The number of flags that the loop of `find_unused` looks at. -/
def looks (used : List Bool) : List Nat → Nat
  | [] => 0
  | position :: rest => if used.getD position false then looks used rest + 1 else 1

/-- What a call costs beside finding its bucket. -/
def cost (index : ChunkIndex) (call : Lookup) : Nat :=
  let bucket := lookup call.probe index.buckets_
  looks call.used (bucket.positions.drop bucket.cursor)

/-- The calls on an index, and the cost of each. -/
def looking : Machine ChunkIndex Lookup Nat where
  step index call := (index.find_unused call.used call.probe).2
  events index call := [cost index call]

/-- The positions that the cursors have passed. -/
def passed (index : ChunkIndex) : Nat := (index.buckets_.map (·.2.cursor)).sum

/-- All positions of an index. -/
def positions (buckets : List (SignedChunk × Bucket)) : Nat := (buckets.map (·.2.positions.length)).sum

/-- The cursors are within the buckets, which have `n` positions together. -/
structure Within (n : Nat) (index : ChunkIndex) : Prop where
  cursors : ∀ entry ∈ index.buckets_, entry.2.cursor ≤ entry.2.positions.length
  all : positions index.buckets_ = n

variable {n : Nat} {index : ChunkIndex}

/-- The loop passes all that it looks at but the last. -/
theorem skip_used_looks (used : List Bool) : ∀ (rest : List Nat) (cursor : Nat),
    looks used rest + cursor ≤ skip_used used rest cursor + 1 ∧ cursor ≤ skip_used used rest cursor ∧
      skip_used used rest cursor ≤ cursor + rest.length := by
  intro rest
  induction rest with
  | nil =>
    intro cursor
    simp [looks, skip_used]
  | cons position rest ih =>
    intro cursor
    have next := ih (cursor + 1)
    unfold looks skip_used
    split
    · rw [List.length_cons]
      omega
    · rw [List.length_cons]
      omega

/-- A call moves the cursor of one bucket. -/
theorem find_in_passes (used : List Bool) (probe : SignedChunk) : ∀ buckets : List (SignedChunk × Bucket),
    (∀ entry ∈ buckets, entry.2.cursor ≤ entry.2.positions.length) →
      let after := (find_in used probe buckets).2
      (∀ entry ∈ after, entry.2.cursor ≤ entry.2.positions.length) ∧ positions after = positions buckets ∧
        looks used ((lookup probe buckets).positions.drop (lookup probe buckets).cursor) + (buckets.map (·.2.cursor)).sum ≤
          (after.map (·.2.cursor)).sum + 1 := by
  intro buckets
  induction buckets with
  | nil =>
    intro _
    refine ⟨?_, rfl, Nat.zero_le _⟩
    intro entry member
    cases member
  | cons first rest ih =>
    obtain ⟨key, bucket⟩ := first
    intro within
    have first : bucket.cursor ≤ bucket.positions.length := within (key, bucket) List.mem_cons_self
    have others : ∀ entry ∈ rest, entry.2.cursor ≤ entry.2.positions.length :=
      fun entry member => within entry (List.mem_cons_of_mem _ member)
    unfold find_in
    by_cases here : key.same probe = true
    · obtain ⟨paid, _, inside⟩ := skip_used_looks used (bucket.positions.drop bucket.cursor) bucket.cursor
      rw [List.length_drop] at inside
      simp only [if_pos here, lookup]
      refine ⟨?_, rfl, ?_⟩
      · intro entry member
        rcases List.mem_cons.mp member with rfl | member
        · simp only [advance]
          omega
        · exact others entry member
      · simp only [List.map_cons, List.sum_cons, advance]
        omega
    · obtain ⟨inside, same, paid⟩ := ih others
      simp only [if_neg here, lookup]
      refine ⟨?_, ?_, ?_⟩
      · intro entry member
        rcases List.mem_cons.mp member with rfl | member
        · exact first
        · exact inside entry member
      · simp only [positions, List.map_cons, List.sum_cons] at same ⊢
        rw [same]
      · simp only [List.map_cons, List.sum_cons]
        omega

theorem looking_within (call : Lookup) (within : Within n index) : Within n (looking.step index call) := by
  obtain ⟨cursors, same, _⟩ := find_in_passes call.used call.probe index.buckets_ within.cursors
  exact ⟨cursors, same.trans within.all⟩

theorem looking_pays (call : Lookup) (within : Within n index) :
    (looking.events index call).sum + passed index ≤ passed (looking.step index call) + 1 := by
  obtain ⟨_, _, paid⟩ := find_in_passes call.used call.probe index.buckets_ within.cursors
  rw [show looking.events index call = [cost index call] from rfl, List.sum_singleton]
  exact paid

theorem sum_cursors : ∀ {buckets : List (SignedChunk × Bucket)},
    (∀ entry ∈ buckets, entry.2.cursor ≤ entry.2.positions.length) → (buckets.map (·.2.cursor)).sum ≤ positions buckets := by
  intro buckets
  induction buckets with
  | nil => exact fun _ => Nat.le_refl 0
  | cons entry rest ih =>
    intro within
    have first := within entry List.mem_cons_self
    have others := ih fun entry member => within entry (List.mem_cons_of_mem _ member)
    simp only [positions, List.map_cons, List.sum_cons] at others ⊢
    omega

theorem passed_within (within : Within n index) : passed index ≤ n := by
  rw [← within.all]
  exact sum_cursors within.cursors

/-- A chunk adds its position, and moves no cursor. -/
theorem push_positions (chunk : SignedChunk) (i : Nat) : ∀ buckets : List (SignedChunk × Bucket),
    positions (push chunk i buckets) = positions buckets + 1 ∧
      ((∀ entry ∈ buckets, entry.2.cursor = 0) → ∀ entry ∈ push chunk i buckets, entry.2.cursor = 0) := by
  intro buckets
  induction buckets with
  | nil => exact ⟨rfl, fun _ entry member => by rw [List.mem_singleton.mp member]⟩
  | cons first rest ih =>
    obtain ⟨key, bucket⟩ := first
    unfold push
    by_cases mine : key.same chunk = true
    · simp only [if_pos mine]
      refine ⟨?_, fun unmoved entry member => ?_⟩
      · simp only [positions, List.map_cons, List.sum_cons, List.length_append, List.length_singleton]
        omega
      · rcases List.mem_cons.mp member with rfl | member
        · exact unmoved (key, bucket) List.mem_cons_self
        · exact unmoved entry (List.mem_cons_of_mem _ member)
    · simp only [if_neg mine]
      obtain ⟨more, still⟩ := ih
      refine ⟨?_, fun unmoved entry member => ?_⟩
      · simp only [positions, List.map_cons, List.sum_cons] at more ⊢
        omega
      · rcases List.mem_cons.mp member with rfl | member
        · exact unmoved (key, bucket) List.mem_cons_self
        · exact still (fun entry member => unmoved entry (List.mem_cons_of_mem _ member)) entry member

theorem insert_from_positions : ∀ (chunks : List SignedChunk) (i : Nat) (buckets : List (SignedChunk × Bucket)),
    (∀ entry ∈ buckets, entry.2.cursor = 0) → (∀ entry ∈ insert_from i chunks buckets, entry.2.cursor = 0) ∧
      positions (insert_from i chunks buckets) = positions buckets + chunks.length := by
  intro chunks
  induction chunks with
  | nil => exact fun i buckets unmoved => ⟨unmoved, rfl⟩
  | cons chunk rest ih =>
    intro i buckets unmoved
    obtain ⟨more, still⟩ := push_positions chunk i buckets
    obtain ⟨unmoved', all⟩ := ih (i + 1) (push chunk i buckets) (still unmoved)
    refine ⟨unmoved', ?_⟩
    rw [insert_from, all, more, List.length_cons]
    omega

/-- A new index has one position for each chunk. -/
theorem build_within (chunks : List SignedChunk) : Within chunks.length (build chunks) := by
  obtain ⟨unmoved, all⟩ := insert_from_positions chunks 0 [] fun entry member => by cases member
  refine ⟨fun entry member => ?_, ?_⟩
  · rw [unmoved entry member]
    exact Nat.zero_le _
  · exact all.trans (Nat.zero_add _)

/-! ### What is passed -/

/-- The positions that the loop of `find_unused` passes. -/
def passes (used : List Bool) : List Nat → List Nat
  | [] => []
  | position :: rest => if used.getD position false then position :: passes used rest else []

/-- The calls on an index, and the positions that each of them passes. -/
def passing : Machine ChunkIndex Lookup Nat where
  step := looking.step
  events index call :=
    let bucket := lookup call.probe index.buckets_
    passes call.used (bucket.positions.drop bucket.cursor)

/-- The positions of all buckets. -/
def listed (buckets : List (SignedChunk × Bucket)) : List Nat := buckets.flatMap (·.2.positions)

/-- Those before the cursors. -/
def behind (buckets : List (SignedChunk × Bucket)) : List Nat :=
  buckets.flatMap fun entry => entry.2.positions.take entry.2.cursor

theorem skip_used_passes (used : List Bool) : ∀ (rest : List Nat) (cursor : Nat),
    skip_used used rest cursor = cursor + (passes used rest).length ∧
      rest.take (passes used rest).length = passes used rest := by
  intro rest
  induction rest with
  | nil => exact fun cursor => ⟨rfl, rfl⟩
  | cons position rest ih =>
    intro cursor
    obtain ⟨skipped, _⟩ := ih (cursor + 1)
    obtain ⟨_, same⟩ := ih cursor
    unfold skip_used passes
    split
    · rw [skipped, List.length_cons, List.take_succ_cons, same]
      exact ⟨by omega, rfl⟩
    · exact ⟨rfl, rfl⟩

/-- The cursor of a bucket takes what the loop passes. -/
theorem advance_takes (used : List Bool) (bucket : Bucket) :
    (advance used bucket).positions.take (advance used bucket).cursor =
      bucket.positions.take bucket.cursor ++ passes used (bucket.positions.drop bucket.cursor) := by
  obtain ⟨skipped, same⟩ := skip_used_passes used (bucket.positions.drop bucket.cursor) bucket.cursor
  simp only [advance]
  rw [skipped, List.take_add, same]

/-- A call takes what its bucket passes, and no cursor back. -/
theorem find_in_takes (used : List Bool) (probe : SignedChunk) : ∀ buckets : List (SignedChunk × Bucket),
    let after := (find_in used probe buckets).2
    listed after = listed buckets ∧
      (behind after).Perm (behind buckets ++
        passes used ((lookup probe buckets).positions.drop (lookup probe buckets).cursor)) ∧
      ∀ other, (lookup other buckets).cursor ≤ (lookup other after).cursor := by
  intro buckets
  induction buckets with
  | nil => exact ⟨rfl, by simp [behind, lookup, find_in, passes], fun _ => Nat.le_refl _⟩
  | cons first rest ih =>
    obtain ⟨key, bucket⟩ := first
    unfold find_in
    by_cases here : key.same probe = true
    · simp only [if_pos here, lookup]
      refine ⟨rfl, ?_, ?_⟩
      · simp only [behind, List.flatMap_cons, advance_takes, List.append_assoc]
        exact List.perm_append_comm.append_left _
      · intro other
        split
        · simp only [advance, (skip_used_passes used _ bucket.cursor).1]
          omega
        · exact Nat.le_refl _
    · obtain ⟨same, taken, on⟩ := ih
      simp only [if_neg here, lookup]
      refine ⟨?_, ?_, ?_⟩
      · simp only [listed, List.flatMap_cons] at same ⊢
        rw [same]
      · simp only [behind, List.flatMap_cons, List.append_assoc] at taken ⊢
        exact taken.append_left _
      · intro other
        split
        · exact Nat.le_refl _
        · exact on other

/-- A chunk adds its position. -/
theorem push_listed (chunk : SignedChunk) (i : Nat) : ∀ buckets : List (SignedChunk × Bucket),
    (listed (push chunk i buckets)).Perm (listed buckets ++ [i]) := by
  intro buckets
  induction buckets with
  | nil => exact .refl _
  | cons first rest ih =>
    obtain ⟨key, bucket⟩ := first
    unfold push
    split
    · simp only [listed, List.flatMap_cons, List.append_assoc]
      exact List.perm_append_comm.append_left _
    · simp only [listed, List.flatMap_cons, List.append_assoc] at ih ⊢
      exact ih.append_left _

theorem insert_from_listed : ∀ (chunks : List SignedChunk) (i : Nat) (buckets : List (SignedChunk × Bucket)),
    (listed (insert_from i chunks buckets)).Perm (listed buckets ++ List.range' i chunks.length) := by
  intro chunks
  induction chunks with
  | nil =>
    intro i buckets
    rw [List.length_nil, List.range'_zero, List.append_nil]
    exact .refl _
  | cons chunk rest ih =>
    intro i buckets
    have first := (push_listed chunk i buckets).append_right (List.range' (i + 1) rest.length)
    rw [List.append_assoc, List.singleton_append, ← List.range'_succ] at first
    exact (ih (i + 1) (push chunk i buckets)).trans first

/-- A new index lists each position once. -/
theorem build_listed (chunks : List SignedChunk) : (listed (build chunks).buckets_).Perm (List.range chunks.length) := by
  rw [List.range_eq_range']
  exact insert_from_listed chunks 0 []

theorem build_behind (chunks : List SignedChunk) : behind (build chunks).buckets_ = [] := by
  have unmoved := (insert_from_positions chunks 0 [] fun entry member => by cases member).1
  refine List.flatMap_eq_nil_iff.mpr fun entry member => ?_
  rw [unmoved entry member, List.take_zero]

theorem behind_listed : ∀ buckets : List (SignedChunk × Bucket), (behind buckets).Sublist (listed buckets) := by
  intro buckets
  induction buckets with
  | nil => exact .refl _
  | cons entry rest ih => exact (List.take_sublist _ _).append ih

/-- The cursors after some calls are not behind those before them. -/
theorem passing_on (calls : List Lookup) (probe : SignedChunk) : ∀ index : ChunkIndex,
    (lookup probe index.buckets_).cursor ≤ (lookup probe (passing.run index calls).buckets_).cursor := by
  induction calls with
  | nil => exact fun index => Nat.le_refl _
  | cons call rest ih =>
    intro index
    exact Nat.le_trans ((find_in_takes call.used call.probe index.buckets_).2.2 probe) (ih (passing.step index call))

/-- What has been passed is behind the cursors of an index that lists what it did. -/
theorem passing_behind (chunks : List SignedChunk) (calls : List Lookup) :
    (passing.history (build chunks) calls).Perm (behind (passing.run (build chunks) calls).buckets_) ∧
      listed (passing.run (build chunks) calls).buckets_ = listed (build chunks).buckets_ := by
  constructor
  · have collected := Machine.run_collects (m := passing) (ψ := fun index => behind index.buckets_)
      (fun index call => (find_in_takes call.used call.probe index.buckets_).2.1) calls (build chunks)
    rw [build_behind, List.nil_append] at collected
    exact collected.symm
  · exact passing.run_keeps (P := fun index => listed index.buckets_ = listed (build chunks).buckets_)
      (fun index call same (_ : True) => (find_in_takes call.used call.probe index.buckets_).1.trans same)
      rfl fun _ _ => trivial

/-- Whatever calls are made on an index and whatever flags they are shown, together they
    look at one flag for each chunk and one for each call at most: each position is
    passed once in the life of the index, and no cursor moves back. -/
theorem lookups_cost_a_constant (chunks : List SignedChunk) (calls : List Lookup) :
    (looking.history (build chunks) calls).sum ≤ chunks.length + calls.length ∧
      (passing.history (build chunks) calls).Nodup ∧
      (∀ position ∈ passing.history (build chunks) calls, position < chunks.length) ∧
      ∀ (before after : List Lookup) (probe : SignedChunk), calls = before ++ after →
        (lookup probe (passing.run (build chunks) before).buckets_).cursor ≤
          (lookup probe (passing.run (build chunks) calls).buckets_).cursor := by
  obtain ⟨passed, same⟩ := passing_behind chunks calls
  have within := behind_listed (passing.run (build chunks) calls).buckets_
  rw [same] at within
  refine ⟨?_, ?_, ?_, ?_⟩
  · have total : (looking.history (build chunks) calls).sum ≤ chunks.length + 1 * calls.length :=
      Machine.total_cost (φ := Amortizing.passed) (fun _ call within => looking_within call within)
        (fun _ => passed_within) (fun _ call within => looking_pays call within) (build_within chunks)
    rwa [Nat.one_mul] at total
  · exact passed.nodup_iff.mpr (within.nodup ((build_listed chunks).nodup_iff.mpr List.nodup_range))
  · intro position member
    have inside := (build_listed chunks).mem_iff.mp (within.mem (passed.mem_iff.mp member))
    exact List.mem_range.mp inside
  · rintro before after probe rfl
    rw [Machine.run_append]
    exact passing_on after probe _

end Roll.Amortizing
