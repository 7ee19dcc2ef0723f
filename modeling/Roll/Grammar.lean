import Roll.DeltaCodec
import Roll.Parsing
import Mathlib.Tactic.Ring

/-!
The grammar of version 5 of the delta format, as languages over bytes, and
list parsers that recognise it.
-/
namespace Roll.Grammar
open Roll.Parsing

/-- A record of a delta: its entry header and what follows it. -/
structure Record where
  header : DeltaEntryHeader
  payload : List UInt8 := []
  opcodes : List DiffOpcode := []
deriving DecidableEq, Repr

/-! ### Languages -/

/-- The value of base-128 groups, the least significant first. -/
def groupSum : List UInt8 → Nat
  | [] => 0
  | b :: w => b.toNat % 128 + 128 * groupSum w

/-- At most ten groups, all but the last with the continuation bit, with a
    value below 2^64. -/
def IsVarint (value : UInt64) (w : List UInt8) : Prop :=
  ∃ init last, w = init ++ [last] ∧ init.length < 10 ∧ (∀ b ∈ init, 128 ≤ b.toNat) ∧ last.toNat < 128 ∧
    groupSum w = value.toNat

inductive IsOpcode : DiffOpcode → List UInt8 → Prop
  | inline {op : UInt8} {pos : UInt32} {bytes : List UInt8} : op = OP_REPLACE ∨ op = OP_INSERT → bytes.length < 256 →
      IsOpcode { op, pos, bytes } (op :: push_u32_be [] pos ++ UInt8.ofNat bytes.length :: bytes)
  | delete {pos delete_length : UInt32} :
      IsOpcode { op := OP_DELETE, pos, delete_length } (OP_DELETE :: push_u32_be [] pos ++ push_u32_be [] delete_length)

/-- The tag, the fields and the digest of an entry. -/
inductive IsEntry : DeltaEntryHeader → List UInt8 → Prop
  | original {old_index : UInt64} {index digest : List UInt8} : IsVarint old_index index →
      digest.length = DELTA_DIGEST_BYTES → IsEntry { type := .ORIGINAL_CHUNK, old_index, digest } (0 :: (index ++ digest))
  | added {out_size : UInt64} {size digest : List UInt8} : IsVarint out_size size →
      out_size.toNat ≤ DELTA_MAX_CHUNK_SIZE → digest.length = DELTA_DIGEST_BYTES →
      IsEntry { type := .ADDED_CHUNK, out_size, digest } (1 :: (size ++ digest))
  | modified {old_index out_size : UInt64} {index size digest : List UInt8} : IsVarint old_index index →
      IsVarint out_size size → out_size.toNat ≤ DELTA_MAX_CHUNK_SIZE → digest.length = DELTA_DIGEST_BYTES →
      IsEntry { type := .MODIFIED_CHUNK, old_index, out_size, digest } (2 :: (index ++ size ++ digest))

/-- An entry; after an ADDED one its payload, after a MODIFIED one one or more
    opcodes. -/
inductive IsRecord : Record → List UInt8 → Prop
  | original {header : DeltaEntryHeader} {w : List UInt8} : header.type = .ORIGINAL_CHUNK → IsEntry header w →
      IsRecord { header } w
  | added {header : DeltaEntryHeader} {w payload : List UInt8} : header.type = .ADDED_CHUNK → IsEntry header w →
      payload.length = header.out_size.toNat → IsRecord { header, payload } (w ++ payload)
  | modified {header : DeltaEntryHeader} {w run : List UInt8} {opcodes : List DiffOpcode} :
      header.type = .MODIFIED_CHUNK → IsEntry header w → opcodes ≠ [] → Many IsOpcode opcodes run →
      IsRecord { header, opcodes } (w ++ run)

/-- Records, the trailer tag and a trailer of `n` bytes. -/
def IsBody (n : Nat) (records : List Record) (trailer w : List UInt8) : Prop :=
  ∃ u, w = u ++ DELTA_TRAILER_TAG :: trailer ∧ Many IsRecord records u ∧ trailer.length = n

/-- A delta of these records with this trailer, of `n` bytes. -/
def IsDelta (n : Nat) (records : List Record) (trailer w : List UInt8) : Prop :=
  ∃ body, w = DELTA_MAGIC ++ push_u32_be [] DELTA_FORMAT_VERSION ++ body ∧ IsBody n records trailer body

/-- The input goes on with an opcode. -/
def OpcodeNext (t : List UInt8) : Prop := is_diff_opcode t.head? = true

/-! ### Words of 32 bits -/

theorem or_shift {hi lo : Nat} (k : Nat) (small : lo < 2 ^ k) : hi <<< k ||| lo = hi * 2 ^ k + lo := by
  rw [← Nat.shiftLeft_add_eq_or_of_lt small, Nat.shiftLeft_eq]

theorem join_bytes {a b c d : Nat} (hb : b < 256) (hc : c < 256) (hd : d < 256) :
    a <<< 24 ||| b <<< 16 ||| c <<< 8 ||| d = a * 2 ^ 24 + b * 2 ^ 16 + c * 2 ^ 8 + d := by
  have first : a <<< 24 ||| b <<< 16 = (a * 2 ^ 8 + b) <<< 16 := by
    rw [or_shift 24 (by rw [Nat.shiftLeft_eq]; omega), Nat.shiftLeft_eq, Nat.shiftLeft_eq]
    ring
  have second : (a * 2 ^ 8 + b) <<< 16 ||| c <<< 8 = ((a * 2 ^ 8 + b) * 2 ^ 8 + c) <<< 8 := by
    rw [or_shift 16 (by rw [Nat.shiftLeft_eq]; omega), Nat.shiftLeft_eq, Nat.shiftLeft_eq]
    ring
  rw [first, second, or_shift 8 (by omega)]
  ring

theorem load_toNat (a b c d : UInt8) (t : List UInt8) :
    (load_u32_be (a :: b :: c :: d :: t)).toNat =
      a.toNat * 2 ^ 24 + b.toNat * 2 ^ 16 + c.toNat * 2 ^ 8 + d.toNat := by
  have ha := a.toNat_lt
  have hb := b.toNat_lt
  have hc := c.toNat_lt
  have hd := d.toNat_lt
  have e1 : (a.toUInt32 <<< (24 : UInt32)).toNat = a.toNat <<< 24 := by
    rw [UInt32.toNat_shiftLeft, UInt8.toNat_toUInt32]
    simp only [UInt32.reduceToNat, Nat.reduceMod, Nat.shiftLeft_eq]
    omega
  have e2 : (b.toUInt32 <<< (16 : UInt32)).toNat = b.toNat <<< 16 := by
    rw [UInt32.toNat_shiftLeft, UInt8.toNat_toUInt32]
    simp only [UInt32.reduceToNat, Nat.reduceMod, Nat.shiftLeft_eq]
    omega
  have e3 : (c.toUInt32 <<< (8 : UInt32)).toNat = c.toNat <<< 8 := by
    rw [UInt32.toNat_shiftLeft, UInt8.toNat_toUInt32]
    simp only [UInt32.reduceToNat, Nat.reduceMod, Nat.shiftLeft_eq]
    omega
  simp only [load_u32_be, UInt32.toNat_or, e1, e2, e3, UInt8.toNat_toUInt32]
  exact join_bytes hb hc hd

theorem push_toNat (v : UInt32) : push_u32_be [] v =
   [UInt8.ofNat (v.toNat / 2 ^ 24), UInt8.ofNat (v.toNat / 2 ^ 16), UInt8.ofNat (v.toNat / 2 ^ 8), UInt8.ofNat v.toNat] := by
  have part : ∀ k : UInt32, (v >>> k).toUInt8 = UInt8.ofNat (v.toNat / 2 ^ (k.toNat % 32)) := by
    intro k
    apply UInt8.toNat_inj.mp
    simp [Nat.shiftRight_eq_div_pow]
  simp only [push_u32_be, List.nil_append, part]
  simp
/-- Reading back a pushed word. -/
theorem load_push (value : UInt32) (t : List UInt8) : load_u32_be (push_u32_be [] value ++ t) = value := by
  apply UInt32.toNat_inj.mp
  have bound := value.toNat_lt
  rw [push_toNat]
  simp only [List.cons_append, load_toNat, UInt8.toNat_ofNat']
  omega
theorem push_load {w : List UInt8} (length : w.length = 4) : push_u32_be [] (load_u32_be w) = w := by
  match w, length with
  | [a, b, c, d], _ =>
    have ha := a.toNat_lt
    have hb := b.toNat_lt
    have hc := c.toNat_lt
    have hd := d.toNat_lt
    rw [push_toNat, load_toNat]
    simp only [List.cons.injEq, and_true]
    refine ⟨?_, ?_, ?_, ?_⟩ <;> apply UInt8.toNat_inj.mp <;> rw [UInt8.toNat_ofNat'] <;> omega

/-! ### Varints -/

theorem low_bits (b : UInt8) : (b.toUInt64 &&& 0x7F).toNat = b.toNat % 128 := by
  rw [UInt64.toNat_and, UInt8.toNat_toUInt64]
  exact Nat.and_two_pow_sub_one_eq_mod b.toNat 7

theorem last_group (b : UInt8) : b &&& 0x80 = 0 ↔ b.toNat < 128 := by
  have all : ∀ i : Fin 256, (UInt8.ofNat i.val &&& 0x80 = 0 ↔ i.val < 128) := by decide +kernel
  have here := all ⟨b.toNat, b.toNat_lt⟩
  rwa [UInt8.ofNat_toNat] at here

/-- A group fits into 64 bits at its place, the tenth one if it is a single bit. -/
theorem group_fits (byte : UInt8) {i : Nat} (i_lt : i < 10) (narrow : i = 9 → byte.toNat % 128 ≤ 1) :
    byte.toNat % 128 * 2 ^ (7 * i) < 2 ^ 64 := by
  by_cases top : i = 9
  · have := narrow top
    rw [top]
    omega
  · have power : 2 ^ (7 * i) ≤ 2 ^ 56 := Nat.pow_le_pow_right (by decide) (by omega)
    calc byte.toNat % 128 * 2 ^ (7 * i) ≤ 127 * 2 ^ 56 := Nat.mul_le_mul (by omega) power
      _ < 2 ^ 64 := by decide

/-- A group that fits loses no bit in the shift to its place. -/
theorem place_group {bits : UInt64} {i : Nat} (i_lt : i < 10) (fits : bits.toNat * 2 ^ (7 * i) < 2 ^ 64) :
    (bits <<< UInt64.ofNat (7 * i)).toNat = bits.toNat * 2 ^ (7 * i) := by
  have shift : (UInt64.ofNat (7 * i)).toNat % 64 = 7 * i := by
    rw [UInt64.toNat_ofNat']
    omega
  rw [UInt64.toNat_shiftLeft, shift, Nat.shiftLeft_eq, Nat.mod_eq_of_lt fits]

/-- Joining a group at its place adds it, as long as it fits. -/
theorem join_group {value bits : UInt64} {i : Nat} (i_lt : i < 10) (small : value.toNat < 2 ^ (7 * i))
    (fits : bits.toNat * 2 ^ (7 * i) < 2 ^ 64) :
    (value ||| (bits <<< UInt64.ofNat (7 * i))).toNat = value.toNat + 2 ^ (7 * i) * bits.toNat := by
  rw [UInt64.toNat_or, place_group i_lt fits, Nat.or_comm, ← Nat.shiftLeft_eq, or_shift _ small, Nat.mul_comm, Nat.add_comm]

/-- The parser of a varint before its group `10 - left`. -/
def groups : Nat → UInt64 → Parser UInt8 UInt64
  | 0, _ => reject
  | left + 1, value => nextThen fun byte =>
    let i := VARINT_MAX_BYTES - (left + 1)
    let bits := byte.toUInt64 &&& 0x7F
    if i = VARINT_MAX_BYTES - 1 ∧ bits > 1 then reject
    else
      let value := value ||| (bits <<< UInt64.ofNat (7 * i))
      if byte &&& 0x80 = 0 then pure value else groups left value

def varint : Parser UInt8 UInt64 := groups VARINT_MAX_BYTES 0

theorem groups_nil (left : Nat) (value : UInt64) : groups left value [] = none := by
  cases left <;> rfl

theorem groups_cons (left : Nat) (value : UInt64) (byte : UInt8) (s : List UInt8) :
    groups (left + 1) value (byte :: s) =
      (let i := VARINT_MAX_BYTES - (left + 1)
       let bits := byte.toUInt64 &&& 0x7F
       let value := value ||| (bits <<< UInt64.ofNat (7 * i))
       if i = VARINT_MAX_BYTES - 1 ∧ bits > 1 then none
       else if byte &&& 0x80 = 0 then some (value, s) else groups left value s) := by
  simp only [groups, nextThen_cons]
  split
  · rfl
  · split <;> rfl

/-- The groups a varint may still have after its group `10 - left`. -/
def TailGroups (left : Nat) (w : List UInt8) : Prop :=
  ∃ init last, w = init ++ [last] ∧ init.length < left ∧ (∀ b ∈ init, 128 ≤ b.toNat) ∧ last.toNat < 128

theorem tailGroups_cons {left : Nat} {b : UInt8} {w : List UInt8} :
    TailGroups (left + 1) (b :: w) ↔ b.toNat < 128 ∧ w = [] ∨ 128 ≤ b.toNat ∧ TailGroups left w := by
  constructor
  · rintro ⟨init, last, split, short, more, ends⟩
    cases init with
    | nil =>
      obtain ⟨rfl, rfl⟩ : b = last ∧ w = [] := by simpa using split
      exact .inl ⟨ends, rfl⟩
    | cons c init =>
      obtain ⟨rfl, rfl⟩ : b = c ∧ w = init ++ [last] := by simpa using split
      refine .inr ⟨more b (by simp), init, last, rfl, ?_, fun d member => more d (by simp [member]), ends⟩
      simpa using short
  · rintro (⟨ends, rfl⟩ | ⟨more, init, last, rfl, short, all, ends⟩)
    · exact ⟨[], b, rfl, by simp, by simp, ends⟩
    · exact ⟨b :: init, last, rfl, by simpa using short, by simpa using ⟨more, all⟩, ends⟩

/-- A word that starts at a byte: the byte ends it, or the word goes on with a shorter one. -/
theorem word_cons {left : Nat} {byte : UInt8} {s t : List UInt8} {Q : Nat → Prop} :
    (∃ w, byte :: s = w ++ t ∧ TailGroups (left + 1) w ∧ Q (groupSum w)) ↔
      byte.toNat < 128 ∧ s = t ∧ Q (byte.toNat % 128) ∨
        128 ≤ byte.toNat ∧ ∃ w, s = w ++ t ∧ TailGroups left w ∧ Q (byte.toNat % 128 + 128 * groupSum w) := by
  constructor
  · rintro ⟨w, split, shape, holds⟩
    cases w with
    | nil =>
      obtain ⟨init, last, impossible, _⟩ := shape
      simp at impossible
    | cons c u =>
      obtain ⟨rfl, rfl⟩ : byte = c ∧ s = u ++ t := by simpa using split
      rcases tailGroups_cons.mp shape with ⟨ends, rfl⟩ | ⟨more, shape⟩
      · exact .inl ⟨ends, rfl, holds⟩
      · exact .inr ⟨more, u, rfl, shape, holds⟩
  · rintro (⟨ends, rfl, holds⟩ | ⟨more, w, rfl, shape, holds⟩)
    · exact ⟨[byte], rfl, tailGroups_cons.mpr (.inl ⟨ends, rfl⟩), holds⟩
    · exact ⟨byte :: w, rfl, tailGroups_cons.mpr (.inr ⟨more, shape⟩), holds⟩

theorem tailGroups_zero {w : List UInt8} : ¬ TailGroups 0 w := by
  rintro ⟨_, _, _, short, _⟩
  omega

theorem groups_spec : ∀ (left : Nat), left ≤ 10 → ∀ (value : UInt64), value.toNat < 2 ^ (7 * (10 - left)) →
    ∀ (s : List UInt8) (v : UInt64) (t : List UInt8), groups left value s = some (v, t) ↔
      ∃ w, s = w ++ t ∧ TailGroups left w ∧ v.toNat = value.toNat + 2 ^ (7 * (10 - left)) * groupSum w := by
  intro left
  induction left with
  | zero =>
    intro _ value _ s v t
    constructor
    · intro run
      cases run
    · rintro ⟨w, _, shape, _⟩
      exact absurd shape tailGroups_zero
  | succ left ih =>
    intro le value small s v t
    cases s with
    | nil =>
      rw [groups_nil]
      constructor
      · intro run
        cases run
      · rintro ⟨w, split, ⟨init, last, rfl, _⟩, _⟩
        simp at split
    | cons byte s =>
      rw [word_cons (Q := fun sum => v.toNat = value.toNat + 2 ^ (7 * (10 - (left + 1))) * sum)]
      simp only [groups_cons]
      have nine : VARINT_MAX_BYTES - 1 = 9 := rfl
      have place : VARINT_MAX_BYTES - (left + 1) = 10 - (left + 1) := rfl
      rw [nine, place]
      have low := low_bits byte
      have above : (byte.toUInt64 &&& 0x7F) > 1 ↔ 1 < byte.toNat % 128 := by
        rw [← low]; exact UInt64.lt_iff_toNat_lt
      set bits := byte.toUInt64 &&& 0x7F
      set i := 10 - (left + 1) with iIs
      by_cases wide : i = 9 ∧ bits > 1
      · -- A second bit of the tenth group would exceed every value.
        rw [if_pos wide]
        have two := above.mp wide.2
        have bound := v.toNat_lt
        rw [wide.1]
        constructor
        · intro run
          cases run
        · rintro (⟨_, _, sum⟩ | ⟨_, w, _, _, sum⟩)
          · omega
          · omega
      · rw [if_neg wide]
        have fits : bits.toNat * 2 ^ (7 * i) < 2 ^ 64 := by
          rw [low]
          exact group_fits byte (by omega) fun top => Nat.not_lt.mp fun two => wide ⟨top, above.mpr two⟩
        have joined := join_group (by omega) small fits
        rw [low] at joined
        rw [← joined]
        set value' := value ||| (bits <<< UInt64.ofNat (7 * i))
        by_cases final : byte &&& 0x80 = 0
        · have ends := (last_group byte).mp final
          rw [if_pos final]
          constructor
          · intro run
            obtain ⟨rfl, rfl⟩ : value' = v ∧ s = t := by simpa using run
            exact .inl ⟨ends, rfl, rfl⟩
          · rintro (⟨_, rfl, sum⟩ | ⟨more, _⟩)
            · rw [UInt64.toNat_inj.mp sum]
            · omega
        · have more : 128 ≤ byte.toNat := Nat.not_lt.mp ((last_group byte).not.mp final)
          rw [if_neg final]
          cases left with
          | zero =>
            constructor
            · intro run
              cases run
            · rintro (⟨ends, _⟩ | ⟨_, w, _, shape, _⟩)
              · omega
              · exact absurd shape tailGroups_zero
          | succ left =>
            have next : 7 * (10 - (left + 1)) = 7 * i + 7 := by omega
            have power : 2 ^ (7 * (10 - (left + 1))) = 128 * 2 ^ (7 * i) := by rw [next, Nat.pow_add]; ring
            have small' : value'.toNat < 2 ^ (7 * (10 - (left + 1))) := by
              have group : byte.toNat % 128 ≤ 127 := by omega
              have product : 2 ^ (7 * i) * (byte.toNat % 128) ≤ 2 ^ (7 * i) * 127 := Nat.mul_le_mul_left _ group
              rw [joined, power]
              omega
            -- What the byte adds to the sum is already in `value'`.
            have sums : ∀ w, value.toNat + 2 ^ (7 * i) * (byte.toNat % 128 + 128 * groupSum w) =
                value'.toNat + 2 ^ (7 * (10 - (left + 1))) * groupSum w := by
              intro w
              rw [joined, power]
              ring
            rw [ih (by omega) value' small' s v t]
            simp only [sums, more, true_and, Nat.not_lt.mpr more, false_and, false_or]

theorem recognises_varint {N : Nat} : Recognises N varint IsVarint := by
  rw [recognises_iff]
  intro s _ v t
  rw [varint, groups_spec VARINT_MAX_BYTES (by decide) 0 (by decide)]
  apply exists_congr
  intro w
  simp only [TailGroups, IsVarint, VARINT_MAX_BYTES, UInt64.toNat_zero, Nat.zero_add, Nat.sub_self, Nat.mul_zero, Nat.pow_zero, Nat.one_mul]
  constructor
  · rintro ⟨split, ⟨init, last, rfl, short, more, ends⟩, sum⟩
    exact ⟨split, init, last, rfl, short, more, ends, sum.symm⟩
  · rintro ⟨split, init, last, rfl, short, more, ends, sum⟩
    exact ⟨split, ⟨init, last, rfl, short, more, ends⟩, sum.symm⟩

/-! ### Entries -/

def size : Parser UInt8 UInt64 := do
  let out_size ← varint
  refuse (out_size.toNat > DELTA_MAX_CHUNK_SIZE)
  pure out_size

def fields (type : EntryType) : Parser UInt8 DeltaEntryHeader := do
  let old_index ← if type.references_old then varint else pure 0
  let out_size ← if type ≠ .ORIGINAL_CHUNK then size else pure 0
  let digest ← exactly DELTA_DIGEST_BYTES
  pure { type, old_index, out_size, digest }

def entryHeader : Parser UInt8 DeltaEntryHeader := nextThen fun tag => do
  refuse (tag ≥ DELTA_ENTRY_TYPE_LIMIT)
  fields (EntryType.ofByte tag)

variable {N : Nat}

theorem recognises_size :
    Recognises N size (fun n w => IsVarint n w ∧ n.toNat ≤ DELTA_MAX_CHUNK_SIZE) := by
  refine (recognises_bind recognises_varint (fun n => recognises_refuse (recognises_pure n))).congr ?_
  intro n w
  simp only [decide_eq_false_iff_not, Nat.not_lt]
  constructor
  · rintro ⟨m, u, v, rfl, word, small, rfl, rfl⟩
    exact ⟨by simpa using word, small⟩
  · rintro ⟨word, small⟩
    exact ⟨n, w, [], by simp, word, small, rfl, rfl⟩

theorem recognises_digest (h : List UInt8 → DeltaEntryHeader) :
    Recognises N (exactly DELTA_DIGEST_BYTES >>= fun digest => pure (h digest))
      (fun e w => e = h w ∧ w.length = DELTA_DIGEST_BYTES) := by
  refine (recognises_bind (recognises_exactly _) (fun digest => recognises_pure (h digest))).congr ?_
  intro e w
  constructor
  · rintro ⟨d, u, v, rfl, ⟨rfl, length⟩, rfl, rfl⟩
    exact ⟨by rw [List.append_nil], by simpa using length⟩
  · rintro ⟨rfl, length⟩
    exact ⟨w, w, [], by simp, ⟨rfl, length⟩, rfl, rfl⟩

theorem recognises_fields (type : EntryType) :
    Recognises N (fields type) (fun e w => e.type = type ∧ IsEntry e (type.toByte :: w)) := by
  cases type with
  | ORIGINAL_CHUNK =>
    refine (recognises_bind recognises_varint (fun old_index =>
      recognises_digest (fun digest => { type := .ORIGINAL_CHUNK, old_index, digest }))).congr ?_
    intro e w
    constructor
    · rintro ⟨old_index, index, digest, rfl, word, rfl, length⟩
      exact ⟨rfl, .original word length⟩
    · rintro ⟨_, entry⟩
      cases entry with
      | original word length => exact ⟨_, _, _, rfl, word, rfl, length⟩
  | ADDED_CHUNK =>
    refine (recognises_bind recognises_size (fun out_size =>
      recognises_digest (fun digest => { type := .ADDED_CHUNK, out_size, digest }))).congr ?_
    intro e w
    constructor
    · rintro ⟨out_size, size, digest, rfl, ⟨word, small⟩, rfl, length⟩
      exact ⟨rfl, .added word small length⟩
    · rintro ⟨_, entry⟩
      cases entry with
      | added word small length => exact ⟨_, _, _, rfl, ⟨word, small⟩, rfl, length⟩
  | MODIFIED_CHUNK =>
    refine (recognises_bind recognises_varint (fun old_index => recognises_bind recognises_size (fun out_size =>
      recognises_digest (fun digest => { type := .MODIFIED_CHUNK, old_index, out_size, digest })))).congr ?_
    intro e w
    constructor
    · rintro ⟨old_index, index, _, rfl, word, out_size, size, digest, rfl, ⟨word', small⟩, rfl, length⟩
      refine ⟨rfl, ?_⟩
      rw [← List.append_assoc]
      exact .modified word word' small length
    · rintro ⟨_, entry⟩
      cases entry with
      | modified word word' small length =>
        exact ⟨_, _, _, List.append_assoc _ _ _, word, _, _, _, rfl, ⟨word', small⟩, rfl, length⟩

theorem recognises_entryHeader : Recognises N entryHeader IsEntry := by
  refine (recognises_nextThen (fun tag => recognises_refuse (recognises_fields (EntryType.ofByte tag)))).congr ?_
  intro e w
  constructor
  · rintro ⟨tag, v, rfl, valid, type, entry⟩
    have below : tag < DELTA_ENTRY_TYPE_LIMIT := by simpa using valid
    rwa [EntryType.toByte_ofByte below] at entry
  · intro entry
    cases entry with
    | original word length => exact ⟨0, _, rfl, rfl, rfl, .original word length⟩
    | added word small length => exact ⟨1, _, rfl, rfl, rfl, .added word small length⟩
    | modified word word' small length => exact ⟨2, _, rfl, rfl, rfl, .modified word word' small length⟩

/-! ### Opcodes -/

def operands (op : UInt8) : Parser UInt8 DiffOpcode := do
  let pos ← exactly 4
  if op = OP_DELETE then
    let length ← exactly 4
    pure { op, pos := load_u32_be pos, delete_length := load_u32_be length }
  else
    nextThen fun count => do
      let bytes ← exactly count.toNat
      pure { op, pos := load_u32_be pos, bytes }

def opcode : Parser UInt8 DiffOpcode := nextThen fun tag => do
  refuse (!is_diff_opcode (some tag))
  operands tag

def run : Nat → Parser UInt8 (List DiffOpcode)
  | 0 => reject
  | fuel + 1 => do
    let byte ← peek
    if is_diff_opcode byte then
      let first ← opcode
      let rest ← run fuel
      pure (first :: rest)
    else pure []

/-- Four bytes and the word they hold. -/
theorem word_iff {w : List UInt8} {value : UInt32} :
    w.length = 4 ∧ load_u32_be w = value ↔ w = push_u32_be [] value := by
  constructor
  · rintro ⟨length, rfl⟩
    exact (push_load length).symm
  · rintro rfl
    exact ⟨rfl, by simpa using load_push value []⟩

theorem recognises_delete (pos : UInt32) :
    Recognises N (exactly 4 >>= fun length =>
        pure ({ op := OP_DELETE, pos, delete_length := load_u32_be length } : DiffOpcode))
      (fun o w => ∃ length, o = { op := OP_DELETE, pos, delete_length := length } ∧ w = push_u32_be [] length) := by
  refine (recognises_bind (recognises_exactly _) (fun length => recognises_pure _)).congr ?_
  intro o w
  constructor
  · rintro ⟨length, u, v, rfl, ⟨rfl, four⟩, rfl, rfl⟩
    exact ⟨load_u32_be u, rfl, by rw [List.append_nil, push_load four]⟩
  · rintro ⟨length, rfl, rfl⟩
    obtain ⟨four, load⟩ := word_iff.mpr (rfl : push_u32_be [] length = _)
    exact ⟨_, _, [], (List.append_nil _).symm, ⟨rfl, four⟩, by rw [load], rfl⟩

theorem recognises_inline (op : UInt8) (pos : UInt32) :
    Recognises N (nextThen fun count => exactly count.toNat >>= fun bytes => pure ({ op, pos, bytes } : DiffOpcode))
      (fun o w => ∃ bytes, o = { op, pos, bytes } ∧ bytes.length < 256 ∧ w = UInt8.ofNat bytes.length :: bytes) := by
  refine (recognises_nextThen (fun count =>
    recognises_bind (recognises_exactly _) (fun bytes => recognises_pure _))).congr ?_
  intro o w
  constructor
  · rintro ⟨count, _, rfl, bytes, u, v, rfl, ⟨rfl, length⟩, rfl, rfl⟩
    have bound := count.toNat_lt
    exact ⟨u, rfl, by omega, by rw [length, UInt8.ofNat_toNat, List.append_nil]⟩
  · rintro ⟨bytes, rfl, short, rfl⟩
    have count : (UInt8.ofNat bytes.length).toNat = bytes.length := by
      rw [UInt8.toNat_ofNat']
      omega
    exact ⟨_, _, rfl, bytes, bytes, [], (List.append_nil _).symm, ⟨rfl, count.symm⟩, rfl, rfl⟩

theorem recognises_operands {op : UInt8} (valid : is_diff_opcode (some op) = true) :
    Recognises N (operands op) (fun o w => IsOpcode o (op :: w)) := by
  by_cases deletes : op = OP_DELETE
  · subst deletes
    have unfolded : operands OP_DELETE = exactly 4 >>= fun pos => exactly 4 >>= fun length =>
        pure { op := OP_DELETE, pos := load_u32_be pos, delete_length := load_u32_be length } := rfl
    rw [unfolded]
    refine (recognises_bind (recognises_exactly 4) (fun pos => recognises_delete (load_u32_be pos))).congr ?_
    intro o w
    constructor
    · rintro ⟨pos, u, v, rfl, ⟨rfl, four⟩, length, rfl, rfl⟩
      have same := word_iff.mp ⟨four, rfl⟩
      have word : IsOpcode { op := OP_DELETE, pos := load_u32_be u, delete_length := length } _ := .delete
      rwa [← same] at word
    · intro word
      cases word with
      | inline kind _ => rcases kind with h | h <;> cases h
      | @delete pos length =>
        obtain ⟨four, load⟩ := word_iff.mpr (rfl : push_u32_be [] pos = _)
        exact ⟨_, _, _, rfl, ⟨rfl, four⟩, length, by rw [load], rfl⟩
  · have kind : op = OP_REPLACE ∨ op = OP_INSERT := by
      simp only [is_diff_opcode, Bool.or_eq_true, beq_iff_eq] at valid
      rcases valid with (h | h) | h
      · exact .inl h
      · exact .inr h
      · exact absurd h deletes
    have unfolded : operands op = exactly 4 >>= fun pos => nextThen fun count =>
        exactly count.toNat >>= fun bytes => pure { op, pos := load_u32_be pos, bytes } := by
      simp only [operands, if_neg deletes]
    rw [unfolded]
    refine (recognises_bind (recognises_exactly 4) (fun pos => recognises_inline op (load_u32_be pos))).congr ?_
    intro o w
    constructor
    · rintro ⟨pos, u, v, rfl, ⟨rfl, four⟩, bytes, rfl, short, rfl⟩
      have same := word_iff.mp ⟨four, rfl⟩
      have word : IsOpcode { op, pos := load_u32_be u, bytes } _ := .inline kind short
      rwa [← same] at word
    · intro word
      cases word with
      | @inline _ pos bytes _ short =>
        obtain ⟨four, load⟩ := word_iff.mpr (rfl : push_u32_be [] pos = _)
        exact ⟨_, _, _, rfl, ⟨rfl, four⟩, bytes, by rw [load], short, rfl⟩
      | delete => exact absurd rfl deletes

/-- An opcode begins with one of the three opcode bytes. -/
theorem opcode_first {o : DiffOpcode} {w : List UInt8} (word : IsOpcode o w) :
    ∃ v, w = o.op :: v ∧ is_diff_opcode (some o.op) = true := by
  cases word with
  | inline kind _ => exact ⟨_, rfl, by rcases kind with rfl | rfl <;> rfl⟩
  | delete => exact ⟨_, rfl, rfl⟩

theorem recognises_opcode : Recognises N opcode IsOpcode := by
  rw [recognises_iff]
  intro s short o t
  cases s with
  | nil =>
    constructor
    · intro run
      cases run
    · rintro ⟨w, split, word⟩
      obtain ⟨v, rfl, _⟩ := opcode_first word
      cases split
  | cons op s =>
    rw [opcode, nextThen_cons, refuse_run]
    cases valid : is_diff_opcode (some op) with
    | false =>
      constructor
      · intro run
        cases run
      · rintro ⟨w, split, word⟩
        obtain ⟨v, rfl, valid'⟩ := opcode_first word
        obtain ⟨rfl, _⟩ : op = o.op ∧ s = v ++ t := by simpa using split
        rw [valid] at valid'
        cases valid'
    | true =>
      have after := recognises_iff.mp (recognises_operands (N := N) valid) s (by simp at short; omega) o t
      rw [Bool.not_true, if_neg Bool.false_ne_true, after]
      constructor
      · rintro ⟨w, rfl, word⟩
        exact ⟨op :: w, rfl, word⟩
      · rintro ⟨w, split, word⟩
        obtain ⟨v, rfl, _⟩ := opcode_first word
        obtain ⟨rfl, rfl⟩ : op = o.op ∧ s = v ++ t := by simpa using split
        exact ⟨v, rfl, word⟩

section
variable {fuel : Nat} {s t : List UInt8} {ops : List DiffOpcode}

theorem run_end (ends : ¬ OpcodeNext s) : run (fuel + 1) s = some ([], s) := by
  rw [run, bind_run]
  simp only [peek, Option.bind_some]
  rw [OpcodeNext] at ends
  rw [if_neg ends]
  rfl

theorem run_opcode (more : OpcodeNext s) :
    run (fuel + 1) s = some (ops, t) ↔ ∃ o m rest, opcode s = some (o, m) ∧ run fuel m = some (rest, t) ∧ ops = o :: rest := by
  rw [run, bind_run]
  simp only [peek, Option.bind_some]
  rw [OpcodeNext] at more
  rw [if_pos more, bind_run]
  constructor
  · intro ran
    obtain ⟨⟨o, m⟩, first, tail⟩ := Option.bind_eq_some_iff.mp ran
    rw [bind_run] at tail
    obtain ⟨⟨rest, m'⟩, after, ends⟩ := Option.bind_eq_some_iff.mp tail
    obtain ⟨rfl, rfl⟩ : o :: rest = ops ∧ m' = t := by simpa [pure_run] using ends
    exact ⟨o, m, rest, first, after, rfl⟩
  · rintro ⟨o, m, rest, first, after, rfl⟩
    rw [first, Option.bind_some, bind_run, after]
    rfl

end

/-- A run of opcodes ends at the first byte that is not one. -/
theorem recognises_run : ∀ fuel, RecognisesBefore fuel (run fuel) (Many IsOpcode) (fun _ t => ¬ OpcodeNext t) := by
  intro fuel
  induction fuel with
  | zero =>
    intro s short
    omega
  | succ fuel ih =>
    intro s short ops t
    by_cases more : OpcodeNext s
    · rw [run_opcode more]
      constructor
      · rintro ⟨first, m, rest, parsed, after, rfl⟩
        obtain ⟨u, rfl, word⟩ := (recognises_iff.mp recognises_opcode s short first m).mp parsed
        obtain ⟨v, rfl, _⟩ := opcode_first word
        obtain ⟨v', rfl, words, follow⟩ := (ih m (by simp at short; omega) rest t).mp after
        exact ⟨_, (List.append_assoc _ _ _).symm, .cons word words, follow⟩
      · rintro ⟨w, rfl, words, follow⟩
        cases words with
        | nil => exact absurd more follow
        | @cons first rest u v word words =>
          rw [List.append_assoc] at short ⊢
          refine ⟨first, v ++ t, rest, ?_, ?_, rfl⟩
          · exact (recognises_iff.mp recognises_opcode _ short first (v ++ t)).mpr ⟨u, rfl, word⟩
          · obtain ⟨v', rfl, _⟩ := opcode_first word
            exact (ih (v ++ t) (by simp at short ⊢; omega) rest t).mpr ⟨v, rfl, words, follow⟩
    · rw [run_end more]
      constructor
      · intro ran
        obtain ⟨rfl, rfl⟩ : [] = ops ∧ s = t := by simpa using ran
        exact ⟨[], rfl, .nil, more⟩
      · rintro ⟨w, rfl, words, follow⟩
        cases words with
        | nil => rfl
        | cons word words =>
          obtain ⟨v, rfl, valid⟩ := opcode_first word
          exact absurd valid more

/-! ### Records -/

/-- What follows the entry header of a record. -/
def recordBody (N : Nat) (header : DeltaEntryHeader) : Parser UInt8 Record :=
  match header.type with
  | .ORIGINAL_CHUNK => pure { header }
  | .ADDED_CHUNK => do
    let payload ← exactly header.out_size.toNat
    pure { header, payload }
  | .MODIFIED_CHUNK => do
    let opcodes ← run N
    refuse (opcodes = [])
    pure { header, opcodes }

def record (N : Nat) : Parser UInt8 Record := entryHeader >>= recordBody N

/-- What may follow a record. -/
def MayFollow (r : Record) (t : List UInt8) : Prop := r.header.type = .MODIFIED_CHUNK → ¬ OpcodeNext t

section
variable {N : Nat} {header : DeltaEntryHeader} {r : Record} {s t : List UInt8}

theorem body_original (type : header.type = .ORIGINAL_CHUNK) :
    recordBody N header s = some (r, t) ↔ r = { header } ∧ s = t := by
  simp [recordBody, type, pure_run, eq_comm]

theorem body_added (type : header.type = .ADDED_CHUNK) : recordBody N header s = some (r, t) ↔
    ∃ payload, exactly header.out_size.toNat s = some (payload, t) ∧ r = { header, payload } := by
  simp only [recordBody, type]
  rw [bind_run]
  constructor
  · intro parsed
    obtain ⟨⟨payload, m⟩, first, ends⟩ := Option.bind_eq_some_iff.mp parsed
    obtain ⟨rfl, rfl⟩ : { header, payload } = r ∧ m = t := by simpa [pure_run] using ends
    exact ⟨payload, first, rfl⟩
  · rintro ⟨payload, first, rfl⟩
    rw [first]
    rfl

theorem body_modified (type : header.type = .MODIFIED_CHUNK) : recordBody N header s = some (r, t) ↔
    ∃ opcodes, run N s = some (opcodes, t) ∧ opcodes ≠ [] ∧ r = { header, opcodes } := by
  simp only [recordBody, type]
  rw [bind_run]
  constructor
  · intro parsed
    obtain ⟨⟨opcodes, m⟩, first, second⟩ := Option.bind_eq_some_iff.mp parsed
    simp only [refuse_run] at second
    split at second
    · cases second
    · next some =>
      obtain ⟨rfl, rfl⟩ : { header, opcodes } = r ∧ m = t := by simpa [pure_run] using second
      exact ⟨opcodes, first, by simpa using some, rfl⟩
  · rintro ⟨opcodes, first, some, rfl⟩
    rw [first, Option.bind_some, refuse_run, if_neg (by simpa using some)]
    rfl

theorem record_run :
    record N s = some (r, t) ↔ ∃ header m, entryHeader s = some (header, m) ∧ recordBody N header m = some (r, t) := by
  rw [record, bind_run, Option.bind_eq_some_iff, Prod.exists]

end

theorem recognises_record (N : Nat) : RecognisesBefore N (record N) IsRecord MayFollow := by
  intro s short r t
  rw [record_run]
  constructor
  · rintro ⟨header, m, first, second⟩
    obtain ⟨u, rfl, entry⟩ := (recognises_iff.mp recognises_entryHeader s short header m).mp first
    rw [List.length_append] at short
    cases type : header.type with
    | ORIGINAL_CHUNK =>
      obtain ⟨rfl, rfl⟩ := (body_original type).mp second
      exact ⟨u, rfl, .original type entry, by simp [MayFollow, type]⟩
    | ADDED_CHUNK =>
      obtain ⟨payload, taken, rfl⟩ := (body_added type).mp second
      obtain ⟨rfl, length⟩ := exactly_iff.mp taken
      exact ⟨u ++ payload, by simp, .added type entry length, by simp [MayFollow, type]⟩
    | MODIFIED_CHUNK =>
      obtain ⟨opcodes, parsed, some, rfl⟩ := (body_modified type).mp second
      obtain ⟨v, rfl, words, follow⟩ := (recognises_run N m (by omega) opcodes t).mp parsed
      exact ⟨u ++ v, by simp, .modified type entry some words, fun _ => follow⟩
  · rintro ⟨w, rfl, word, follow⟩
    have header_read : ∀ {header u v}, IsEntry header u → (u ++ v).length < N → entryHeader (u ++ v) = some (header, v) :=
      fun entry small => (recognises_iff.mp recognises_entryHeader _ small _ _).mpr ⟨_, rfl, entry⟩
    cases word with
    | @original header w type entry => exact ⟨header, t, header_read entry short, (body_original type).mpr ⟨rfl, rfl⟩⟩
    | @added header u payload type entry length =>
      rw [List.append_assoc] at short ⊢
      exact ⟨header, payload ++ t, header_read entry short, (body_added type).mpr ⟨payload, exactly_iff.mpr ⟨rfl, length⟩, rfl⟩⟩
    | @modified header u v opcodes type entry some words =>
      rw [List.append_assoc] at short ⊢
      have parsed : run N (v ++ t) = .some (opcodes, t) := by
        rw [List.length_append] at short
        exact (recognises_run N (v ++ t) (by omega) opcodes t).mpr ⟨v, rfl, words, follow type⟩
      exact ⟨header, v ++ t, header_read entry short, (body_modified type).mpr ⟨opcodes, parsed, some, rfl⟩⟩

/-! ### Deltas -/

def trailer (n : Nat) : Parser UInt8 (List UInt8) := do
  let tag ← next
  refuse (tag ≠ some DELTA_TRAILER_TAG)
  let digest ← exactly n
  let more ← peek
  refuse more.isSome
  pure digest

/-- The records up to the trailer; there is none when the input ends before it. -/
def items (N n : Nat) : Nat → Parser UInt8 (List Record × Option (List UInt8))
  | 0 => reject
  | fuel + 1 => do
    match ← peek with
    | none => pure ([], none)
    | some byte =>
      if byte = DELTA_TRAILER_TAG then
        let digest ← trailer n
        pure ([], some digest)
      else
        let first ← record N
        let (rest, digest) ← items N n fuel
        pure (first :: rest, digest)

def header : Parser UInt8 Unit := do
  let buf ← upTo DELTA_HEADER_SIZE
  refuse (buf.length ≠ DELTA_HEADER_SIZE)
  refuse (buf.take 4 ≠ DELTA_MAGIC)
  refuse (load_u32_be (buf.drop 4) ≠ DELTA_FORMAT_VERSION)
  pure ()

/-- A whole delta; at the end of the input there must be a trailer. -/
def delta (N n : Nat) : Parser UInt8 (List Record × List UInt8) := do
  header
  let (records, digest) ← items N n N
  refuse digest.isNone
  pure (records, digest.getD [])

theorem trailer_run (n : Nat) (s : List UInt8) (d t : List UInt8) :
    trailer n s = some (d, t) ↔ s = DELTA_TRAILER_TAG :: d ∧ d.length = n ∧ t = [] := by
  have unfolded : trailer n s =
      if s.head? ≠ some DELTA_TRAILER_TAG then none
      else if n ≤ s.tail.length then
        if (s.tail.drop n).head?.isSome then none else some (s.tail.take n, s.tail.drop n)
      else none := by
    simp only [trailer, bind_run, next, peek, Option.bind_some, exactly_run, refuse]
    by_cases tag : s.head? = some DELTA_TRAILER_TAG
    · by_cases enough : n ≤ s.tail.length
      · cases more : (s.tail.drop n).head?.isSome <;> simp_all [pure_run]
      · have few : ¬ n ≤ s.length - 1 := by simpa using enough
        simp [tag, few]
    · simp [tag]
  rw [unfolded]
  constructor
  · intro parsed
    split at parsed
    · cases parsed
    · next tag =>
      split at parsed
      · next enough =>
        split at parsed
        · cases parsed
        · next ended =>
          obtain ⟨rfl, rfl⟩ : s.tail.take n = d ∧ s.tail.drop n = t := by simpa using parsed
          have nothing : s.tail.drop n = [] := by simpa using ended
          cases s with
          | nil => simp at tag
          | cons b rest =>
            have first : b = DELTA_TRAILER_TAG := by simpa using tag
            have whole : rest.take n = rest := List.take_of_length_le (List.drop_eq_nil_iff.mp nothing)
            refine ⟨by rw [first, List.tail_cons, whole], ?_, nothing⟩
            rw [List.length_take, Nat.min_eq_left enough]
      · cases parsed
  · rintro ⟨rfl, rfl, rfl⟩
    simp

theorem items_run (N n fuel : Nat) (s : List UInt8) :
    items N n (fuel + 1) s =
      match s.head? with
      | none => some (([], none), s)
      | some byte =>
        if byte = DELTA_TRAILER_TAG then (trailer n s).bind (fun r => some (([], some r.1), r.2))
        else (record N s).bind (fun r => (items N n fuel r.2).bind (fun q => some ((r.1 :: q.1.1, q.1.2), q.2))) := by
  rw [items, bind_run]
  simp only [peek, Option.bind_some]
  cases s.head? with
  | none => rfl
  | some byte =>
    simp only
    split
    · rw [bind_run]
      rfl
    · rw [bind_run]
      congr 1

section
variable {N n fuel : Nat} {s t : List UInt8} {records : List Record} {digest : Option (List UInt8)}

theorem items_trailer (first : s.head? = some DELTA_TRAILER_TAG) : items N n (fuel + 1) s = some ((records, digest), t) ↔
    ∃ d, trailer n s = some (d, t) ∧ records = [] ∧ digest = some d := by
  rw [items_run, first]
  simp only [if_true]
  constructor
  · intro parsed
    obtain ⟨⟨d, m⟩, read, ends⟩ := Option.bind_eq_some_iff.mp parsed
    obtain ⟨⟨rfl, rfl⟩, rfl⟩ : ([] = records ∧ some d = digest) ∧ m = t := by simpa using ends
    exact ⟨d, read, rfl, rfl⟩
  · rintro ⟨d, read, rfl, rfl⟩
    rw [read]
    rfl

theorem items_record {byte : UInt8} (first : s.head? = some byte) (other : byte ≠ DELTA_TRAILER_TAG) :
    items N n (fuel + 1) s = some ((records, digest), t) ↔
      ∃ r m rest, record N s = some (r, m) ∧ items N n fuel m = some ((rest, digest), t) ∧ records = r :: rest := by
  rw [items_run, first]
  simp only [if_neg other]
  constructor
  · intro parsed
    obtain ⟨⟨r, m⟩, read, tail⟩ := Option.bind_eq_some_iff.mp parsed
    obtain ⟨⟨⟨rest, d⟩, m'⟩, after, ends⟩ := Option.bind_eq_some_iff.mp tail
    obtain ⟨⟨rfl, rfl⟩, rfl⟩ : (r :: rest = records ∧ d = digest) ∧ m' = t := by simpa using ends
    exact ⟨r, m, rest, read, after, rfl⟩
  · rintro ⟨r, m, rest, read, after, rfl⟩
    rw [read, Option.bind_some, after]
    rfl

end

/-- The trailer tag ends a run of opcodes. -/
theorem trailer_ends (t : List UInt8) : ¬ OpcodeNext (DELTA_TRAILER_TAG :: t) := by
  simp [OpcodeNext, is_diff_opcode, DELTA_TRAILER_TAG, OP_REPLACE, OP_INSERT, OP_DELETE]

/-- A record does not begin with the trailer tag. -/
theorem record_first {r : Record} {w : List UInt8} (word : IsRecord r w) :
    ∃ b v, w = b :: v ∧ b ≠ DELTA_TRAILER_TAG ∧ is_diff_opcode (some b) = false := by
  have entry : ∀ {h : DeltaEntryHeader} {u : List UInt8}, IsEntry h u →
      ∃ b v, u = b :: v ∧ b ≠ DELTA_TRAILER_TAG ∧ is_diff_opcode (some b) = false := by
    intro h u entry
    cases entry with
    | original => exact ⟨0, _, rfl, by decide, by decide⟩
    | added => exact ⟨1, _, rfl, by decide, by decide⟩
    | modified => exact ⟨2, _, rfl, by decide, by decide⟩
  cases word with
  | original _ head => exact entry head
  | added _ head _ =>
    obtain ⟨b, v, rfl, outside⟩ := entry head
    exact ⟨b, _, rfl, outside⟩
  | modified _ head _ _ =>
    obtain ⟨b, v, rfl, outside⟩ := entry head
    exact ⟨b, _, rfl, outside⟩

/-- The items are the records of a body, up to and with its trailer. -/
theorem items_spec (N n : Nat) : ∀ (fuel : Nat) (s : List UInt8), s.length < fuel → fuel ≤ N →
    ∀ (records : List Record) (d t : List UInt8),
      items N n fuel s = some ((records, some d), t) ↔ IsBody n records d s ∧ t = [] := by
  intro fuel
  induction fuel with
  | zero =>
    intro s short
    omega
  | succ fuel ih =>
    intro s short le records d t
    constructor
    · intro parsed
      cases first : s.head? with
      | none =>
        rw [items_run, first] at parsed
        cases parsed
      | some byte =>
        by_cases tag : byte = DELTA_TRAILER_TAG
        · obtain ⟨d', read, rfl, same⟩ := (items_trailer (tag ▸ first)).mp parsed
          obtain rfl : d = d' := by simpa using same
          obtain ⟨rfl, length, rfl⟩ := (trailer_run n s d t).mp read
          exact ⟨⟨[], rfl, .nil, length⟩, rfl⟩
        · obtain ⟨r, m, rest, read, after, rfl⟩ := (items_record first tag).mp parsed
          obtain ⟨w, rfl, word, _⟩ := (recognises_record N s (by omega) r m).mp read
          obtain ⟨b, v, rfl, _⟩ := record_first word
          obtain ⟨⟨u, rfl, words, length⟩, rfl⟩ := (ih m (by simp at short; omega) (by omega) rest d t).mp after
          exact ⟨⟨(b :: v) ++ u, by simp, .cons word words, length⟩, rfl⟩
    · rintro ⟨⟨u, rfl, words, length⟩, rfl⟩
      cases words with
      | nil => exact (items_trailer rfl).mpr ⟨d, (trailer_run n _ d []).mpr ⟨rfl, length, rfl⟩, rfl, rfl⟩
      | @cons r rest w v word words =>
        obtain ⟨b, w', rfl, notTag, notOp⟩ := record_first word
        have follow : MayFollow r (v ++ DELTA_TRAILER_TAG :: d) := by
          intro _
          cases words with
          | nil => exact trailer_ends d
          | cons word' _ =>
            obtain ⟨b', v', rfl, _, notOp'⟩ := record_first word'
            simp [OpcodeNext, notOp']
        rw [List.append_assoc] at short ⊢
        refine (items_record rfl notTag).mpr ⟨r, v ++ DELTA_TRAILER_TAG :: d, rest, ?_, ?_, rfl⟩
        · exact (recognises_record N _ (by omega) r _).mpr ⟨_, rfl, word, follow⟩
        · exact (ih _ (by simp at short ⊢; omega) (by omega) rest d []).mpr ⟨⟨v, rfl, words, length⟩, rfl⟩

theorem header_run (s t : List UInt8) :
    header s = some ((), t) ↔ s = DELTA_MAGIC ++ push_u32_be [] DELTA_FORMAT_VERSION ++ t := by
  have unfolded : header s =
      if (s.take DELTA_HEADER_SIZE).length ≠ DELTA_HEADER_SIZE then none
      else if (s.take DELTA_HEADER_SIZE).take 4 ≠ DELTA_MAGIC then none
      else if load_u32_be ((s.take DELTA_HEADER_SIZE).drop 4) ≠ DELTA_FORMAT_VERSION then none
      else some ((), s.drop DELTA_HEADER_SIZE) := by
    simp only [header, bind_run, upTo, Option.bind_some, refuse]
    split <;> split <;> split <;> simp_all [pure_run]
  rw [unfolded]
  constructor
  · intro parsed
    split at parsed
    · cases parsed
    · next length =>
      split at parsed
      · cases parsed
      · next magic =>
        split at parsed
        · cases parsed
        · next version =>
          obtain rfl : s.drop DELTA_HEADER_SIZE = t := by simpa using parsed
          have four : ((s.take DELTA_HEADER_SIZE).drop 4).length = 4 := by
            rw [List.length_drop, not_not.mp length]
            rfl
          rw [← not_not.mp magic, ← not_not.mp version, push_load four, List.take_append_drop, List.take_append_drop]
  · rintro rfl
    rfl

theorem delta_run {N n : Nat} {s : List UInt8} (short : s.length < N) (records : List Record) (d t : List UInt8) :
    delta N n s = some ((records, d), t) ↔ IsDelta n records d s ∧ t = [] := by
  have unfolded : delta N n s = (header s).bind (fun r => (items N n N r.2).bind (fun q =>
      if q.1.2.isNone then none else some ((q.1.1, q.1.2.getD []), q.2))) := by
    rw [delta, bind_run]
    congr 1
    funext r
    rw [bind_run]
    congr 1
    funext ⟨⟨rs, d⟩, t⟩
    exact refuse_run _ _ _
  rw [unfolded]
  constructor
  · intro parsed
    obtain ⟨⟨_, m⟩, first, tail⟩ := Option.bind_eq_some_iff.mp parsed
    obtain ⟨⟨⟨rs, d'⟩, t'⟩, second, ends⟩ := Option.bind_eq_some_iff.mp tail
    have split := (header_run s m).mp first
    cases d' with
    | none => cases ends
    | some d' =>
      obtain ⟨⟨rfl, rfl⟩, rfl⟩ : (rs = records ∧ d' = d) ∧ t' = t := by simpa using ends
      have shorter : m.length < N := by
        rw [split, List.length_append] at short
        omega
      obtain ⟨body, rfl⟩ := (items_spec N n N m shorter (Nat.le_refl N) rs d' t').mp second
      exact ⟨⟨m, split, body⟩, rfl⟩
  · rintro ⟨⟨body, split, shape⟩, rfl⟩
    have shorter : body.length < N := by
      rw [split, List.length_append] at short
      omega
    rw [(header_run s body).mpr split, Option.bind_some,
      (items_spec N n N body shorter (Nat.le_refl N) records d []).mpr ⟨shape, rfl⟩]
    rfl

/-- A delta is no proper prefix of another one, and it spells one list of
    records. -/
theorem isDelta_unique {n : Nat} {records records' : List Record} {d d' w w' x y : List UInt8}
    (delta : IsDelta n records d w) (delta' : IsDelta n records' d' w') (same : w ++ x = w' ++ y) :
    records = records' ∧ d = d' ∧ w = w' ∧ x = y := by
  obtain ⟨body, rfl, u, rfl, words, length⟩ := delta
  obtain ⟨body', rfl, u', rfl, words', length'⟩ := delta'
  have rest : u ++ DELTA_TRAILER_TAG :: (d ++ x) = u' ++ DELTA_TRAILER_TAG :: (d' ++ y) := by
    simpa using same
  have starts : ∀ r w, IsRecord r w → ∃ b v, w = b :: v ∧ b ≠ DELTA_TRAILER_TAG ∧ is_diff_opcode (some b) = false :=
    fun r w word => record_first word
  have follow : ∀ (r : Record) (b : UInt8) (t : List UInt8),
      (b ≠ DELTA_TRAILER_TAG ∧ is_diff_opcode (some b) = false) ∨ b = DELTA_TRAILER_TAG → MayFollow r (b :: t) := by
    rintro r b t (⟨_, outside⟩ | rfl) _
    · simp [OpcodeNext, outside]
    · exact trailer_ends t
  obtain ⟨rfl, rfl, tails⟩ := many_unique (p := record) (T := fun b => b ≠ DELTA_TRAILER_TAG ∧ is_diff_opcode (some b) = false)
    recognises_record starts (by simp) follow words words' rest
  obtain ⟨rfl, rfl⟩ := List.append_inj tails (length.trans length'.symm)
  exact ⟨rfl, rfl, rfl, rfl⟩

end Roll.Grammar
