import Roll.Counting
import Roll.LogicalCursor
import Mathlib.Data.Nat.Digits.Lemmas

/-!
What `read_varint` accepts, what it returns, and how far it reads.

The parser of the grammar makes the same choices on the bytes that are left;
its words are put here group by group.
-/
namespace Roll.Decoding
open Roll.Parsing Roll.Grammar Roll.Encoding Roll.LogicalCursor

/-! ### Groups -/

/-- The seven bits of a byte that belong to the value. -/
def group (b : UInt8) : UInt64 := b.toUInt64 &&& 0x7F

/-- One to ten groups; all but the last one have the continuation bit, and the tenth
    has a value of at most one. -/
structure IsGroups (w : List UInt8) : Prop where
  nonempty : 1 ≤ w.length
  few : w.length ≤ 10
  continued : ∀ (j : Nat) (b : UInt8), w[j]? = some b → (b &&& 0x80 ≠ 0 ↔ j + 1 < w.length)
  tenth : ∀ b, w[9]? = some b → group b ≤ 1

/-- The sum of the groups, each at its place. -/
def groupsValue (w : List UInt8) : Nat := ((w.map fun b => (group b).toNat).mapIdx fun j g => g * 128 ^ j).sum

theorem group_toNat (b : UInt8) : (group b).toNat = b.toNat % 128 := low_bits b

theorem groupSum_digits (w : List UInt8) : groupSum w = Nat.ofDigits 128 (w.map fun b => (group b).toNat) := by
  induction w with
  | nil => rfl
  | cons b w ih => rw [groupSum, ih, List.map_cons, Nat.ofDigits_cons, group_toNat]

theorem groupsValue_eq (w : List UInt8) : groupsValue w = groupSum w := by
  rw [groupsValue, ← Nat.ofDigits_eq_sum_mapIdx, groupSum_digits]

theorem groupSum_lt (w : List UInt8) : groupSum w < 128 ^ w.length := by
  have digits : ∀ digit ∈ w.map fun b => (group b).toNat, digit < 128 := by
    intro digit member
    obtain ⟨b, _, rfl⟩ := List.mem_map.mp member
    rw [group_toNat]
    exact Nat.mod_lt _ (by decide)
  have bound := Nat.ofDigits_lt_base_pow_length (by decide) digits
  rwa [← groupSum_digits, List.length_map] at bound

theorem groupSum_append (u v : List UInt8) : groupSum (u ++ v) = groupSum u + 128 ^ u.length * groupSum v := by
  simp only [groupSum_digits, List.map_append, Nat.ofDigits_append, List.length_map]

/-- Ten groups fit into 64 bits exactly when the tenth one is a single bit. -/
theorem fits_iff {w : List UInt8} (few : w.length ≤ 10) : groupSum w < 2 ^ 64 ↔ ∀ b, w[9]? = some b → group b ≤ 1 := by
  by_cases short : w.length ≤ 9
  · have bound : groupSum w < 2 ^ 64 :=
      calc groupSum w < 128 ^ w.length := groupSum_lt w
        _ ≤ 128 ^ 9 := Nat.pow_le_pow_right (by decide) short
        _ < 2 ^ 64 := by decide
    refine iff_of_true bound fun b here => ?_
    rw [List.getElem?_eq_none short] at here
    cases here
  · obtain ⟨init, last, rfl⟩ : ∃ init last, w = init ++ [last] :=
      ⟨w.dropLast, w.getLast (by rintro rfl; exact short (by decide)), (List.dropLast_append_getLast _).symm⟩
    rw [List.length_append, List.length_singleton] at few short
    have nine : init.length = 9 := by omega
    have bound := groupSum_lt init
    have single : group last ≤ 1 ↔ last.toNat % 128 ≤ 1 := by
      rw [UInt64.le_iff_toNat_le, group_toNat]
      rfl
    have here : (init ++ [last])[9]? = some last := by rw [← nine, List.getElem?_concat_length]
    rw [nine] at bound
    rw [groupSum_append, nine, here]
    simp only [groupSum, Option.some.injEq, forall_eq', single]
    omega

/-- The continuation bits of the groups. -/
theorem tailGroups_iff {n : Nat} {w : List UInt8} : TailGroups n w ↔ 1 ≤ w.length ∧ w.length ≤ n ∧
    ∀ (j : Nat) (b : UInt8), w[j]? = some b → (b &&& 0x80 ≠ 0 ↔ j + 1 < w.length) := by
  have bit : ∀ b : UInt8, b &&& 0x80 ≠ 0 ↔ 128 ≤ b.toNat := fun b => (last_group b).not.trans Nat.not_lt
  simp only [bit]
  constructor
  · rintro ⟨init, last, rfl, short, more, ends⟩
    rw [List.length_append, List.length_singleton]
    refine ⟨Nat.le_add_left 1 _, short, fun j b here => ?_⟩
    rcases Nat.lt_or_ge j init.length with before | behind
    · rw [List.getElem?_append_left before] at here
      exact iff_of_true (more b (List.mem_of_getElem? here)) (by omega)
    · rw [List.getElem?_append_right behind, List.getElem?_singleton] at here
      split at here
      · obtain rfl := Option.some.inj here
        exact iff_of_false (Nat.not_le.mpr ends) (by omega)
      · cases here
  · rintro ⟨nonempty, few, continued⟩
    obtain ⟨init, last, rfl⟩ : ∃ init last, w = init ++ [last] :=
      ⟨w.dropLast, w.getLast (by rintro rfl; cases nonempty), (List.dropLast_append_getLast _).symm⟩
    rw [List.length_append, List.length_singleton] at few continued
    refine ⟨init, last, rfl, few, fun b member => ?_, ?_⟩
    · obtain ⟨j, inside, rfl⟩ := List.getElem_of_mem member
      refine (continued j _ ?_).mpr (by omega)
      rw [List.getElem?_append_left inside, List.getElem?_eq_getElem inside]
    · have stops := (continued init.length last List.getElem?_concat_length).not
      omega

/-- The words of the grammar, group by group. -/
theorem isVarint_iff {value : UInt64} {w : List UInt8} : IsVarint value w ↔ IsGroups w ∧ groupsValue w = value.toNat := by
  rw [groupsValue_eq]
  constructor
  · rintro ⟨init, last, split, short, more, ends, sum⟩
    obtain ⟨nonempty, few, continued⟩ := tailGroups_iff.mp ⟨init, last, split, short, more, ends⟩
    exact ⟨⟨nonempty, few, continued, (fits_iff few).mp (sum ▸ value.toNat_lt)⟩, sum⟩
  · rintro ⟨⟨nonempty, few, continued, _⟩, sum⟩
    obtain ⟨init, last, split, short, more, ends⟩ := tailGroups_iff.mpr ⟨nonempty, few, continued⟩
    exact ⟨init, last, split, short, more, ends, sum⟩

/-! ### The reader -/

/-- The parser on what is left decides how the reader ends; a failure has read at most
    the groups that were left. -/
theorem read_groups_stands {content : List UInt8} (what : String) : ∀ (left : Nat) (value : UInt64) {p : Nat}
    {r : DeltaReader}, Stands content p r.in_ →
    (∀ v t, groups left value (content.drop p) = some (v, t) → ∃ w f, content.drop p = w ++ t ∧
      DeltaReader.read_groups what left value r = .ok v { r with in_ := f } ∧ Stands content (p + w.length) f) ∧
    (groups left value (content.drop p) = none → ∃ message j f, j ≤ left ∧
      DeltaReader.read_groups what left value r = .error message { r with in_ := f } ∧ Stands content (p + j) f) := by
  intro left
  induction left with
  | zero =>
    intro value p r stands
    exact ⟨fun v t impossible => (by cases impossible), fun _ => ⟨_, 0, r.in_, Nat.le_refl 0, rfl, stands⟩⟩
  | succ left ih =>
    intro value p r stands
    obtain ⟨byte_read, stands'⟩ := read_byte_stands stands
    have read : DeltaReader.read_byte r = .ok ((content.drop p).take 1).head? { r with in_ := r.in_.read_byte.2 } := by
      rw [DeltaReader.read_byte, byte_read]
    unfold DeltaReader.read_groups
    rw [bind_ok read]
    cases rest : content.drop p with
    | nil =>
      rw [rest] at stands'
      rw [groups_nil]
      exact ⟨fun v t impossible => (by cases impossible), fun _ => ⟨_, 0, _, Nat.zero_le _, rfl, stands'⟩⟩
    | cons byte s =>
      have behind : content.drop (p + 1) = s := by rw [← List.drop_drop, rest, List.drop_one, List.tail_cons]
      rw [rest] at stands'
      rw [groups_cons]
      dsimp only [List.take_succ_cons, List.take_zero, List.head?_cons, List.length_cons, List.length_nil] at stands' ⊢
      rw [Nat.zero_add] at stands'
      split
      · exact ⟨fun v t impossible => (by cases impossible), fun _ => ⟨_, 1, _, Nat.le_add_left 1 left, rfl, stands'⟩⟩
      · split
        · refine ⟨fun v t same => ?_, fun impossible => by cases impossible⟩
          obtain ⟨rfl, rfl⟩ := Prod.mk.inj (Option.some.inj same)
          exact ⟨[byte], _, rfl, rfl, stands'⟩
        · obtain ⟨accepts, rejects⟩ := ih _ (r := { r with in_ := r.in_.read_byte.2 }) stands'
          rw [behind] at accepts rejects
          constructor
          · intro v t accepted
            obtain ⟨w, f, rfl, run, after⟩ := accepts v t accepted
            exact ⟨byte :: w, f, rfl, run, by rwa [List.length_cons, Nat.add_comm w.length, ← Nat.add_assoc]⟩
          · intro refused
            obtain ⟨message, j, f, le, run, after⟩ := rejects refused
            exact ⟨message, 1 + j, f, by omega, run, by rwa [← Nat.add_assoc]⟩

variable {content : List UInt8} {p : Nat} {r : DeltaReader} {w : List UInt8}

/-- The parser takes the groups that the bytes start with. -/
theorem varint_accepts {value : UInt64} {s t : List UInt8} :
    varint s = some (value, t) ↔ ∃ w, s = w ++ t ∧ IsGroups w ∧ groupsValue w = value.toNat := by
  rw [recognises_iff.mp recognises_varint s (Nat.lt_succ_self _)]
  exact exists_congr fun w => and_congr_right fun _ => isVarint_iff

theorem groupsValue_lt (groups : IsGroups w) : groupsValue w < 2 ^ 64 := by
  rw [groupsValue_eq]
  exact (fits_iff groups.few).mpr groups.tenth

/-- On groups the reader returns their sum and stands behind them. -/
theorem read_varint_accepts (what : String) (stands : Stands content p r.in_) (begins : w <+: content.drop p)
    (groups : IsGroups w) : ∃ f, DeltaReader.read_varint what r = .ok (UInt64.ofNat (groupsValue w)) { r with in_ := f } ∧
      Stands content (p + w.length) f := by
  obtain ⟨t, split⟩ := begins
  have accepted : varint (content.drop p) = some (UInt64.ofNat (groupsValue w), t) :=
    varint_accepts.mpr ⟨w, split.symm, groups, (UInt64.toNat_ofNat_of_lt' (groupsValue_lt groups)).symm⟩
  obtain ⟨u, f, split', run, after⟩ := (read_groups_stands what VARINT_MAX_BYTES 0 stands).1 _ t accepted
  obtain rfl : u = w := List.append_cancel_right (split'.symm.trans split.symm)
  exact ⟨f, run, after⟩

/-- Elsewhere it fails, ten bytes further at most. -/
theorem read_varint_rejects (what : String) (stands : Stands content p r.in_)
    (none : ¬ ∃ w, w <+: content.drop p ∧ IsGroups w) : ∃ message j f, j ≤ 10 ∧
      DeltaReader.read_varint what r = .error message { r with in_ := f } ∧ Stands content (p + j) f := by
  refine (read_groups_stands what VARINT_MAX_BYTES 0 stands).2 ?_
  refine Option.eq_none_iff_forall_ne_some.mpr fun accepted run => none ?_
  obtain ⟨w, split, groups, _⟩ := varint_accepts.mp run
  exact ⟨w, ⟨accepted.2, split.symm⟩, groups⟩

/-- A varint is read exactly where the bytes that are left start with the groups of one:
    their sum, which is below 2⁶⁴, is returned, and only they are consumed. What the
    writer spells is read back whatever follows it, a failure consumes at most ten
    bytes, and no group that is accepted loses a bit in the shift to its place. -/
theorem read_varint_is_exact (what : String) (stands : Stands content p r.in_) :
    ((∃ value r', DeltaReader.read_varint what r = .ok value r') ↔ ∃ w, w <+: content.drop p ∧ IsGroups w) ∧
    (∀ w, w <+: content.drop p → IsGroups w → groupsValue w < 2 ^ 64 ∧ ∃ value f,
      DeltaReader.read_varint what r = .ok value { r with in_ := f } ∧ value.toNat = groupsValue w ∧
        Stands content (p + w.length) f) ∧
    (∀ (value : UInt64) (t : List UInt8), content.drop p = push_varint [] value ++ t → ∃ f,
      DeltaReader.read_varint what r = .ok value { r with in_ := f } ∧
        Stands content (p + (push_varint [] value).length) f ∧
        content.drop (p + (push_varint [] value).length) = t) ∧
    ((¬ ∃ w, w <+: content.drop p ∧ IsGroups w) → ∃ message j f, j ≤ 10 ∧
      DeltaReader.read_varint what r = .error message { r with in_ := f } ∧ Stands content (p + j) f) ∧
    ∀ (byte : UInt8) (i : Nat), i < 10 → (i = 9 → group byte ≤ 1) →
      (group byte <<< UInt64.ofNat (7 * i)).toNat = (group byte).toNat * 128 ^ i := by
  refine ⟨⟨?_, ?_⟩, ?_, ?_, read_varint_rejects what stands, ?_⟩
  · rintro ⟨value, r', run⟩
    by_contra none
    obtain ⟨message, j, f, _, failed, _⟩ := read_varint_rejects what stands none
    cases run.symm.trans failed
  · rintro ⟨w, begins, groups⟩
    obtain ⟨f, run, _⟩ := read_varint_accepts what stands begins groups
    exact ⟨_, _, run⟩
  · intro w begins groups
    obtain ⟨f, run, after⟩ := read_varint_accepts what stands begins groups
    have small := groupsValue_lt groups
    exact ⟨small, _, f, run, UInt64.toNat_ofNat_of_lt' small, after⟩
  · intro value t split
    rw [Counting.push_varint_eq, List.nil_append] at split ⊢
    obtain ⟨groups, sum⟩ := isVarint_iff.mp (isVarint_bytes value)
    obtain ⟨f, run, after⟩ := read_varint_accepts what stands ⟨t, split.symm⟩ groups
    rw [sum, UInt64.ofNat_toNat] at run
    refine ⟨f, run, after, ?_⟩
    rw [← List.drop_drop, split, List.drop_left]
  · intro byte i inside narrow
    have single : i = 9 → byte.toNat % 128 ≤ 1 := by
      intro top
      rw [← group_toNat]
      exact UInt64.le_iff_toNat_le.mp (narrow top)
    have fits := group_fits byte inside single
    rw [← group_toNat] at fits
    rw [place_group inside fits, Nat.pow_mul]

/-- A value in two groups, and a byte after them. -/
theorem read_varint_is_exact_two : ∃ f, DeltaReader.read_varint "size"
      { in_ := FileIo.opened [0xAC, 0x02, 0xFF] none true, trailer_digest_size_ := 32 } =
        .ok 300 { in_ := f, trailer_digest_size_ := 32 } ∧ Stands [0xAC, 0x02, 0xFF] 2 f := by
  have stands : Stands [0xAC, 0x02, 0xFF] 0 (FileIo.opened [0xAC, 0x02, 0xFF] none true) := stands_opened _ true
  obtain ⟨_, _, spelled, _⟩ := read_varint_is_exact "size" (r := { in_ := _, trailer_digest_size_ := 32 }) stands
  obtain ⟨f, run, after, _⟩ := spelled 300 [0xFF] (by decide)
  exact ⟨f, run, after⟩

end Roll.Decoding
