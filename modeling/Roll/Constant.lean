import Roll.Chunker

/-!
A run of one byte is cut at the maximal size: no fingerprint of a constant
window is a boundary under either mask.
-/
namespace Roll.Constant
open Roll.Cursor Roll.Chunking Roll.Chunker

/-- The last window of a run is a run. -/
theorem lastWindow_constant (c : UInt8) {m : Nat} (long : WINDOW_DEF_SIZE ≤ m) :
    lastWindow (List.replicate m c) = List.replicate WINDOW_DEF_SIZE c := by
  rw [lastWindow_eq, List.length_replicate, List.drop_replicate]
  congr 1
  omega

/-- A constant window misses the target under both masks. -/
theorem constant_misses (c : UInt8) (size : Nat) : fingerprint (List.replicate WINDOW_DEF_SIZE c) &&& Signature.mask size ≠
    DELTA_BOUNDARY_TARGET &&& Signature.mask size := by
  have all : ∀ i : Fin 256,
      fingerprint (List.replicate WINDOW_DEF_SIZE (UInt8.ofNat i.val)) &&& 0x3FFF ≠ DELTA_BOUNDARY_TARGET &&& 0x3FFF ∧
      fingerprint (List.replicate WINDOW_DEF_SIZE (UInt8.ofNat i.val)) &&& 0x0FFF ≠ DELTA_BOUNDARY_TARGET &&& 0x0FFF := by
    decide +kernel
  have here := all ⟨c.toNat, c.toNat_lt⟩
  simp only [UInt8.ofNat_toNat] at here
  unfold Signature.mask
  by_cases small : size < DELTA_TARGET_CHUNK_SIZE
  · rw [if_pos small]
    exact here.1
  · rw [if_neg small]
    exact here.2

theorem constant_goes_on (c : UInt8) {m : Nat} (short : m < DELTA_MAX_CHUNK_SIZE) : ¬ Boundary (List.replicate m c) := by
  have window : WINDOW_DEF_SIZE ≤ DELTA_MIN_CHUNK_SIZE := by decide
  rw [boundary_iff]
  rintro (full | ⟨long, hit⟩)
  · rw [List.length_replicate] at full
    omega
  · rw [List.length_replicate] at long hit
    rw [lastWindow_constant c (by omega)] at hit
    exact constant_misses c m hit

/-- A part of a run from the left is a run. -/
theorem prefix_constant {c : UInt8} {m : Nat} {p : List UInt8} (part : p <+: List.replicate m c) :
    ∃ k, k ≤ m ∧ p = List.replicate k c := by
  have le := part.length_le
  rw [List.length_replicate] at le
  refine ⟨p.length, le, ?_⟩
  rw [List.prefix_iff_eq_take.mp part, List.take_replicate, List.length_replicate]

theorem constant_accepted (c : UInt8) : Boundary (List.replicate DELTA_MAX_CHUNK_SIZE c) := .inl List.length_replicate

theorem constant_shortest (c : UInt8) : ∀ p, p <+: List.replicate DELTA_MAX_CHUNK_SIZE c →
    p ≠ List.replicate DELTA_MAX_CHUNK_SIZE c → p ≠ [] → ¬ Boundary p := by
  intro p part proper _
  obtain ⟨k, le, rfl⟩ := prefix_constant part
  rcases Nat.lt_or_eq_of_le le with short | rfl
  · exact constant_goes_on c short
  · exact absurd rfl proper

theorem constant_some (c : UInt8) : List.replicate DELTA_MAX_CHUNK_SIZE c ≠ [] := by
  rw [ne_eq, List.replicate_eq_nil_iff]
  decide

/-- The piece at the beginning of a run. -/
theorem first_constant {c : UInt8} {rest d : List UInt8} {ds : List (List UInt8)}
    (pieces : Pieces Boundary (List.replicate DELTA_MAX_CHUNK_SIZE c ++ rest) (d :: ds)) :
    d = List.replicate DELTA_MAX_CHUNK_SIZE c := by
  obtain ⟨ds', split, _⟩ := pieces_first (constant_some c) (constant_accepted c) (constant_shortest c) pieces
  exact (List.cons.inj split).1

/-- What is left of a run. -/
def residual (c : UInt8) (r : Nat) : List (List UInt8) := if r = 0 then [] else [List.replicate r c]

theorem residual_pieces (c : UInt8) {r : Nat} (short : r < DELTA_MAX_CHUNK_SIZE) :
    Pieces Boundary (List.replicate r c) (residual c r) := by
  unfold residual
  by_cases none : r = 0
  · subst none
    exact .nil
  · rw [if_neg none]
    refine .last (by simpa using none) fun p part _ => ?_
    obtain ⟨k, le, rfl⟩ := prefix_constant part
    exact constant_goes_on c (by omega)

/-- The pieces of a whole run. -/
theorem constant_pieces (c : UInt8) {r : Nat} (short : r < DELTA_MAX_CHUNK_SIZE) : ∀ q : Nat,
    Pieces Boundary (List.replicate (q * DELTA_MAX_CHUNK_SIZE + r) c)
      (List.replicate q (List.replicate DELTA_MAX_CHUNK_SIZE c) ++ residual c r) := by
  intro q
  induction q with
  | zero =>
    rw [Nat.zero_mul, Nat.zero_add]
    exact residual_pieces c short
  | succ q ih =>
    have split : List.replicate ((q + 1) * DELTA_MAX_CHUNK_SIZE + r) c =
        List.replicate DELTA_MAX_CHUNK_SIZE c ++ List.replicate (q * DELTA_MAX_CHUNK_SIZE + r) c := by
      rw [List.replicate_append_replicate]
      congr 1
      rw [Nat.succ_mul]
      omega
    rw [split, List.replicate_succ, List.cons_append]
    exact .cut (constant_some c) (constant_accepted c) (constant_shortest c) ih

theorem sizes_sign (U : StrongHash) : ∀ (cs : List (List UInt8)) (offset : Nat),
    (sign U offset cs).map (·.chunk_size) = cs.map List.length := by
  intro cs
  induction cs with
  | nil =>
    intro offset
    rfl
  | cons c cs ih =>
    intro offset
    rw [sign, List.map_cons, List.map_cons, ih]

/-- A word that has one byte in its first places begins with a run. -/
theorem begins_constant {w : List UInt8} {c : UInt8} {m : Nat} (constant : ∀ k < m, w[k]? = some c) :
    w = List.replicate m c ++ w.drop m := by
  have first : w.take m = List.replicate m c := by
    refine List.ext_getElem? fun k => ?_
    rw [List.getElem?_take, List.getElem?_replicate]
    by_cases inside : k < m
    · rw [if_pos inside, if_pos inside, constant k inside]
    · rw [if_neg inside, if_neg inside]
  rw [← first, List.take_append_drop]

/-- Where a chunk starts at a run of at least the maximal size, it has that size;
    so a file that is a run has chunks of that size, and one for what is left. -/
theorem constant_cuts_at_max (U : StrongHash) (mode : WholeFileHash) {content : List UInt8} {f : FileIo}
    (opened : Opened content f) :
    ∃ sig f', Signature.generate_signatures RKFinger.rolling U f mode = (true, sig, f') ∧ ∀ c : UInt8,
      (∀ x ∈ sig.get_chunks, (∀ k < DELTA_MAX_CHUNK_SIZE, content[x.start_offset + k]? = some c) →
        x.chunk_size = DELTA_MAX_CHUNK_SIZE) ∧
      ∀ n, content = List.replicate n c → sig.get_chunks.map (·.chunk_size) =
        List.replicate (n / DELTA_MAX_CHUNK_SIZE) DELTA_MAX_CHUNK_SIZE ++
          if n % DELTA_MAX_CHUNK_SIZE = 0 then [] else [n % DELTA_MAX_CHUNK_SIZE] := by
  obtain ⟨cs, f', pieces, run, _⟩ := generate_spec U mode opened
  refine ⟨_, f', run, fun c => ⟨?_, ?_⟩⟩
  · intro x listed constant
    obtain ⟨i, below, here⟩ := List.getElem_of_mem listed
    obtain ⟨pre, d, post, split, _, start, size, _⟩ := sign_get U (List.getElem?_eq_some_iff.mpr ⟨below, here⟩)
    rw [split] at pieces
    have flat := pieces_flatten pieces
    rw [List.flatten_append] at flat
    have tail := pieces_drop pieces flat.symm (by simp)
    rw [Nat.zero_add] at start
    have run_here : ∀ k < DELTA_MAX_CHUNK_SIZE, (d :: post).flatten[k]? = some c := by
      intro k inside
      have byte := constant k inside
      rw [start, ← flat, List.getElem?_append_right (Nat.le_add_right _ _), Nat.add_sub_cancel_left] at byte
      exact byte
    rw [begins_constant run_here] at tail
    rw [size, first_constant tail, List.length_replicate]
  · rintro n rfl
    have short : n % DELTA_MAX_CHUNK_SIZE < DELTA_MAX_CHUNK_SIZE := Nat.mod_lt _ (by decide)
    have known := constant_pieces c short (n / DELTA_MAX_CHUNK_SIZE)
    rw [Nat.div_add_mod'] at known
    obtain rfl := pieces_unique pieces known
    rw [Signature.get_chunks, sizes_sign, List.map_append, List.map_replicate, List.length_replicate, residual]
    split <;> simp

/-- `constant_cuts_at_max` for a run of two chunks of the maximal size and a part of
    a third; the second of them begins at such a run. -/
theorem constant_cuts_at_max_twice :
    ∃ sig f', Signature.generate_signatures RKFinger.rolling StrongHash.padded
        (FileIo.opened (List.replicate 40000 7) none true) .Skip = (true, sig, f') ∧
      sig.get_chunks.map (·.chunk_size) = [16384, 16384, 7232] ∧
      ∃ x ∈ sig.get_chunks, x.start_offset = 16384 ∧ x.chunk_size = 16384 := by
  have opened := opened_opened (List.replicate 40000 (7 : UInt8)) true
  obtain ⟨sig, f', run, all⟩ := constant_cuts_at_max StrongHash.padded .Skip opened
  obtain ⟨cs, f, pieces, ran, _⟩ := generate_spec StrongHash.padded .Skip opened
  have known : Pieces Boundary (List.replicate 40000 7)
      [List.replicate 16384 7, List.replicate 16384 7, List.replicate 7232 7] :=
    constant_pieces 7 (r := 7232) (by decide) 2
  obtain rfl := pieces_unique pieces known
  have signed : sig.get_chunks = sign StrongHash.padded 0 _ :=
    congrArg Signature.get_chunks (Prod.mk.inj (Prod.mk.inj (ran.symm.trans run)).2).1.symm
  have second : ∃ x ∈ sig.get_chunks, x.start_offset = 16384 := by
    rw [signed]
    refine ⟨_, List.mem_cons_of_mem _ List.mem_cons_self, ?_⟩
    rw [Nat.zero_add, List.length_replicate]
  obtain ⟨x, member, start⟩ := second
  refine ⟨sig, f', run, (all 7).2 40000 rfl, x, member, start, (all 7).1 x member fun k inside => ?_⟩
  have most : DELTA_MAX_CHUNK_SIZE = 16384 := rfl
  rw [start, List.getElem?_replicate, if_pos (by omega)]

end Roll.Constant
