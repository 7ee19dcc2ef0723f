import Roll.Encoding
import Roll.Evaluation
import Roll.Searching

/-!
A diff rebuilds the new data from the old, whichever of the two ways it was
made.
-/
namespace Roll.Patching
open Roll.Encoding Roll.Evaluation Roll.Searching

variable {old new : List UInt8}

/-! ### Opcodes so far -/

/-- The opcodes bring the evaluation to `i` in the old and `j` in the new data,
    but for equal bytes at the end that no opcode has copied yet. -/
def Reaches (old new : List UInt8) (opcodes : List DiffOpcode) (i j : Nat) : Prop :=
  ∃ p q, opcodes.foldlM (step old new.length) (0, []) = some (p, new.take q) ∧ p ≤ i ∧ q ≤ j ∧ i ≤ old.length ∧
    j ≤ new.length ∧ i - p = j - q ∧ (old.drop p).take (i - p) = (new.drop q).take (j - q)

theorem reaches_start (old new : List UInt8) : Reaches old new [] 0 0 :=
  ⟨0, 0, rfl, Nat.le_refl 0, Nat.le_refl 0, Nat.zero_le _, Nat.zero_le _, rfl, rfl⟩

variable {opcodes : List DiffOpcode} {i j : Nat}

theorem take_succ_get {xs : List UInt8} {p k : Nat} {c : UInt8} (here : xs[p + k]? = some c) :
    (xs.drop p).take (k + 1) = (xs.drop p).take k ++ [c] := by
  rw [List.take_add_one, List.getElem?_drop, here]
  rfl

/-- An equal byte is kept. -/
theorem reaches_keep (reaches : Reaches old new opcodes i j) {c : UInt8} (here : old[i]? = some c)
    (here' : new[j]? = some c) : Reaches old new opcodes (i + 1) (j + 1) := by
  obtain ⟨p, q, folded, behind, behind', _, _, apart, same⟩ := reaches
  have inside := (List.getElem?_eq_some_iff.mp here).1
  have inside' := (List.getElem?_eq_some_iff.mp here').1
  refine ⟨p, q, folded, by omega, by omega, by omega, by omega, by omega, ?_⟩
  rw [show i + 1 - p = i - p + 1 by omega, show j + 1 - q = j - q + 1 by omega,
    take_succ_get (c := c) (by rw [show p + (i - p) = i by omega]; exact here),
    take_succ_get (c := c) (by rw [show q + (j - q) = j by omega]; exact here'), same]

/-- An opcode is written. -/
theorem reaches_opcode (reaches : Reaches old new opcodes i j) {o : DiffOpcode} {count : Nat} (placed : o.pos.toNat = j)
    (source : i + skipped o ≤ old.length) (bytes : brought o = (new.drop j).take count) (room : j + count ≤ new.length) :
    Reaches old new (opcodes ++ [o]) (i + skipped o) (j + count) := by
  obtain ⟨p, q, folded, behind, behind', _, _, apart, same⟩ := reaches
  have length : (new.take q).length = q := by
    rw [List.length_take]
    omega
  have size : (brought o).length = count := by
    rw [bytes, List.length_take, List.length_drop]
    omega
  have stepped : step old new.length (p, new.take q) o = some (i + skipped o, new.take (j + count)) := by
    unfold step
    dsimp only
    rw [length, placed, size, if_pos (by omega), bytes, ← apart, same]
    congr 2
    · omega
    · rw [List.take_add, ← List.take_add, show q + (j - q) = j by omega]
  refine ⟨i + skipped o, j + count, ?_, Nat.le_refl _, Nat.le_refl _, source, room, by omega, by simp⟩
  rw [List.foldlM_append, folded]
  simp only [Option.bind_eq_bind, Option.bind_some, List.foldlM_cons, stepped, List.foldlM_nil]
  rfl

/-- At the ends of both, the opcodes rebuild the new data. -/
theorem reaches_end (reaches : Reaches old new opcodes old.length new.length) :
    rebuild old new.length opcodes = some new := by
  obtain ⟨p, q, folded, behind, behind', _, _, apart, same⟩ := reaches
  have length : (new.take q).length = q := by
    rw [List.length_take]
    omega
  rw [rebuild, folded, Option.bind_some, fill]
  dsimp only
  rw [length, if_pos (by omega), ← apart, same, ← List.take_add, show q + (new.length - q) = new.length by omega,
    List.take_length]

/-! ### Bytes so far -/

/-- The bytes spell opcodes that reach `i` and `j`. -/
def Emitted (old new diff : List UInt8) (i j : Nat) : Prop :=
  ∃ opcodes, diff = runBytes opcodes ∧ (∀ o ∈ opcodes, Writable o) ∧ Reaches old new opcodes i j

theorem emitted_start (old new : List UInt8) : Emitted old new [] 0 0 :=
  ⟨[], rfl, by simp, reaches_start old new⟩

variable {diff : List UInt8}

theorem Emitted.inside (emitted : Emitted old new diff i j) : i ≤ old.length ∧ j ≤ new.length := by
  obtain ⟨_, _, _, _, _, _, _, _, inside, inside', _⟩ := emitted
  exact ⟨inside, inside'⟩

theorem emitted_keep (emitted : Emitted old new diff i j) {c : UInt8} (here : old[i]? = some c) (here' : new[j]? = some c) :
    Emitted old new diff (i + 1) (j + 1) := by
  obtain ⟨opcodes, spelled, writable, reaches⟩ := emitted
  exact ⟨opcodes, spelled, writable, reaches_keep reaches here here'⟩

theorem runBytes_nil {opcodes : List DiffOpcode} (empty : runBytes opcodes = []) : opcodes = [] := by
  cases opcodes with
  | nil => rfl
  | cons o opcodes =>
    obtain ⟨first, _⟩ := List.append_eq_nil_iff.mp (show opcodeBytes o ++ runBytes opcodes = [] from empty)
    unfold opcodeBytes at first
    split at first <;> cases first

theorem runBytes_append (opcodes : List DiffOpcode) (o : DiffOpcode) :
    runBytes (opcodes ++ [o]) = runBytes opcodes ++ opcodeBytes o := by
  simp [runBytes]

theorem emitted_opcode (emitted : Emitted old new diff i j) {o : DiffOpcode} (count : Nat) (writable : Writable o)
    (placed : o.pos.toNat = j) (source : i + skipped o ≤ old.length) (bytes : brought o = (new.drop j).take count)
    (room : j + count ≤ new.length) : Emitted old new (diff ++ opcodeBytes o) (i + skipped o) (j + count) := by
  obtain ⟨opcodes, spelled, all, reaches⟩ := emitted
  refine ⟨opcodes ++ [o], by rw [runBytes_append, spelled], ?_, reaches_opcode reaches placed source bytes room⟩
  intro o' member
  rcases List.mem_append.mp member with before | last
  · exact all o' before
  · obtain rfl : o' = o := by simpa using last
    exact writable

theorem push_append (out : List UInt8) (value : UInt32) : push_u32_be out value = out ++ push_u32_be [] value := rfl

theorem ofNat_position {n : Nat} (small : new.length < 2 ^ 32) (inside : n ≤ new.length) : (UInt32.ofNat n).toNat = n := by
  rw [UInt32.toNat_ofNat']
  exact Nat.mod_eq_of_lt (by omega)

/-- A `D` or `I` opcode. -/
theorem emitted_inline (emitted : Emitted old new diff i j) (small : new.length < 2 ^ 32) (op : UInt8) (count : Nat)
    (kind : op = OP_REPLACE ∨ op = OP_INSERT) (capped : count ≤ 255) (room : j + count ≤ new.length)
    (source : op = OP_REPLACE → i + count ≤ old.length) :
    Emitted old new (push_u32_be (diff ++ [op]) (UInt32.ofNat j) ++ [UInt8.ofNat count] ++ (new.drop j).take count)
      (i + if op = OP_REPLACE then count else 0) (j + count) := by
  have size : ((new.drop j).take count).length = count := by
    rw [List.length_take, List.length_drop]
    omega
  have writable : Writable { op, pos := UInt32.ofNat j, bytes := (new.drop j).take count } := .inline kind (by omega)
  have passed : skipped { op, pos := UInt32.ofNat j, bytes := (new.drop j).take count } =
      if op = OP_REPLACE then count else 0 := by
    rcases kind with rfl | rfl
    · exact size
    · rfl
  have spelled : opcodeBytes { op, pos := UInt32.ofNat j, bytes := (new.drop j).take count } =
      op :: push_u32_be [] (UInt32.ofNat j) ++ UInt8.ofNat count :: (new.drop j).take count := by
    have other : ¬ op = OP_DELETE := by
      rcases kind with rfl | rfl
      · decide
      · decide
    rw [opcodeBytes, if_neg other]
    dsimp only
    rw [size]
  have written := emitted_opcode emitted count writable (ofNat_position small (by omega))
    (by
      rw [passed]
      split
      · next replace => exact source replace
      · exact emitted.inside.1)
    (if_pos kind) room
  rw [passed, spelled] at written
  rw [push_append]
  simpa using written

/-- An `X` opcode. -/
theorem emitted_delete (emitted : Emitted old new diff i j) (small : new.length < 2 ^ 32) (small' : old.length < 2 ^ 32)
    (count : Nat) (source : i + count ≤ old.length) :
    Emitted old new (push_u32_be (push_u32_be (diff ++ [OP_DELETE]) (UInt32.ofNat j)) (UInt32.ofNat count))
      (i + count) j := by
  have passed : skipped { op := OP_DELETE, pos := UInt32.ofNat j, delete_length := UInt32.ofNat count } = count :=
    ofNat_position small' (by omega)
  have written := emitted_opcode emitted 0
    (o := { op := OP_DELETE, pos := UInt32.ofNat j, delete_length := UInt32.ofNat count }) .delete
    (ofNat_position small emitted.inside.2) (by rw [passed]; exact source) rfl emitted.inside.2
  rw [passed, opcodeBytes, if_pos rfl] at written
  rw [push_append, push_append (diff ++ [OP_DELETE])]
  simpa using written

/-- The loop that splits inline bytes at the count cap. -/
theorem emitted_bytes (small : new.length < 2 ^ 32) {op : UInt8} (kind : op = OP_REPLACE ∨ op = OP_INSERT) :
    ∀ (fuel : Nat) (diff : List UInt8) (i j : Nat) (bytes : List UInt8), bytes.length ≤ fuel →
      Emitted old new diff i j → bytes = (new.drop j).take bytes.length → j + bytes.length ≤ new.length →
      (op = OP_REPLACE → i + bytes.length ≤ old.length) →
      Emitted old new (Diff.emitInlineBytes op fuel diff j bytes) (i + if op = OP_REPLACE then bytes.length else 0)
        (j + bytes.length) := by
  intro fuel
  induction fuel with
  | zero =>
    intro diff i j bytes enough emitted _ _ _
    have none : bytes.length = 0 := by omega
    rw [none]
    simpa [Diff.emitInlineBytes] using emitted
  | succ fuel ih =>
    intro diff i j bytes enough emitted slice room source
    unfold Diff.emitInlineBytes
    by_cases none : bytes = []
    · subst none
      rw [if_pos rfl]
      simpa using emitted
    · rw [if_neg none]
      have positive := List.length_pos_iff.mpr none
      dsimp only
      obtain ⟨count, capped, within, counted⟩ : ∃ count, count ≤ 255 ∧ count ≤ bytes.length ∧
          (min 255 bytes.length = count ∧ 0 < count) := ⟨min 255 bytes.length, by omega, by omega, rfl, by omega⟩
      rw [counted.1]
      have front : bytes.take count = (new.drop j).take count := by
        rw [slice, List.take_take, Nat.min_eq_left within]
      have back : bytes.drop count = (new.drop (j + count)).take (bytes.length - count) := by
        conv_lhs => rw [slice]
        rw [List.drop_take, List.drop_drop]
      have size : (bytes.drop count).length = bytes.length - count := List.length_drop
      have written := emitted_inline emitted small op _ kind capped (by omega) (fun replace => by
        have := source replace
        omega)
      rw [front]
      have rest := ih _ _ (j + count) (bytes.drop count) (by omega) written (by rw [size]; exact back) (by omega)
        (fun replace => by
          have := source replace
          rw [if_pos replace]
          omega)
      rw [size] at rest
      rw [show j + bytes.length = j + count + (bytes.length - count) by omega]
      by_cases replace : op = OP_REPLACE
      · simp only [if_pos replace] at rest ⊢
        rw [show i + bytes.length = i + count + (bytes.length - count) by omega]
        exact rest
      · simp only [if_neg replace] at rest ⊢
        exact rest

/-- A block of deletions and insertions. -/
theorem emitted_block (small : new.length < 2 ^ 32) (small' : old.length < 2 ^ 32) (emitted : Emitted old new diff i j)
    (deletes : Nat) (inserts : List UInt8) (slice : inserts = (new.drop j).take inserts.length)
    (room : j + inserts.length ≤ new.length) (source : i + deletes ≤ old.length) :
    Emitted old new (Diff.emitBlock diff j deletes inserts) (i + deletes) (j + inserts.length) := by
  unfold Diff.emitBlock
  by_cases balanced : deletes > 0 ∧ deletes = inserts.length
  · rw [if_pos balanced]
    have written := emitted_bytes small (.inl rfl) inserts.length diff i j inserts (Nat.le_refl _) emitted
      slice room (fun _ => by omega)
    rw [if_pos rfl, ← balanced.2] at written
    rw [← balanced.2]
    exact written
  · rw [if_neg balanced]
    dsimp only
    obtain ⟨diff', written, same⟩ : ∃ diff', Emitted old new diff' (i + deletes) j ∧
        (if deletes > 0 then push_u32_be (push_u32_be (diff ++ [OP_DELETE]) (UInt32.ofNat j)) (UInt32.ofNat deletes)
          else diff) = diff' := by
      by_cases some : deletes > 0
      · rw [if_pos some]
        exact ⟨_, emitted_delete emitted small small' deletes source, rfl⟩
      · have none : deletes = 0 := by omega
        rw [if_neg some, none]
        exact ⟨_, emitted, rfl⟩
    rw [same]
    by_cases some : inserts ≠ []
    · rw [if_pos some]
      have inserted := emitted_bytes small (.inr rfl) inserts.length diff' (i + deletes) j inserts
        (Nat.le_refl _) written slice room (fun impossible => absurd impossible (by decide))
      rw [if_neg (by decide)] at inserted
      exact inserted
    · rw [if_neg some]
      rw [not_not] at some
      subst some
      exact written

/-! ### Scripts -/

/-- A script between what is left of both. -/
abbrev Left (old new : List UInt8) (ses : List Edit) (i y : Nat) : Prop := Turns ses (old.drop i) (new.drop y)

theorem left_keep {ses : List Edit} {i y : Nat} (left : Left old new (.keep :: ses) i y) :
    ∃ c, old[i]? = some c ∧ new[y]? = some c ∧ Left old new ses (i + 1) (y + 1) := by
  unfold Left at left
  generalize before : old.drop i = a at left
  generalize after : new.drop y = b at left
  cases left with
  | keep c rest =>
    obtain ⟨here, rfl, _⟩ := drop_cons before
    obtain ⟨here', rfl, _⟩ := drop_cons after
    exact ⟨c, here, here', rest⟩

theorem left_delete {ses : List Edit} {i y : Nat} (left : Left old new (.delete :: ses) i y) :
    i + 1 ≤ old.length ∧ Left old new ses (i + 1) y := by
  unfold Left at left
  generalize before : old.drop i = a at left
  cases left with
  | delete c rest =>
    obtain ⟨_, rfl, inside⟩ := drop_cons before
    exact ⟨inside, rest⟩

theorem left_insert {ses : List Edit} {i y : Nat} (left : Left old new (.insert :: ses) i y) :
    ∃ c, new[y]? = some c ∧ y + 1 ≤ new.length ∧ Left old new ses i (y + 1) := by
  unfold Left at left
  generalize after : new.drop y = b at left
  cases left with
  | insert c rest =>
    obtain ⟨here, rfl, inside⟩ := drop_cons after
    exact ⟨c, here, inside, rest⟩

/-- A block ends where the script keeps a byte, or ends. -/
theorem takeBlock_spec : ∀ (ses : List Edit) (i y deletes : Nat) (inserts : List UInt8), i ≤ old.length → y ≤ new.length →
    Left old new ses i y → ∃ d n rest,
      Diff.takeBlock new ses y deletes inserts = (y + n, deletes + d, inserts ++ (new.drop y).take n, rest) ∧
      Left old new rest (i + d) (y + n) ∧ i + d ≤ old.length ∧ y + n ≤ new.length ∧ rest.length + d + n = ses.length ∧
      (ses.head? = some .delete ∨ ses.head? = some .insert → 0 < d + n) := by
  intro ses
  induction ses with
  | nil =>
    intro i y deletes inserts inside inside' left
    refine ⟨0, 0, [], ?_, left, inside, inside', rfl, by simp⟩
    simp [Diff.takeBlock]
  | cons e ses ih =>
    intro i y deletes inserts inside inside' left
    cases e with
    | keep =>
      refine ⟨0, 0, .keep :: ses, ?_, left, inside, inside', rfl, by simp⟩
      simp [Diff.takeBlock]
    | delete =>
      obtain ⟨next, left'⟩ := left_delete left
      obtain ⟨d, n, rest, taken, left'', source, room, length, _⟩ := ih (i + 1) y (deletes + 1) inserts next inside' left'
      rw [show i + 1 + d = i + (d + 1) by omega] at left'' source
      refine ⟨d + 1, n, rest, ?_, left'', source, room, by simp only [List.length_cons]; omega, fun _ => by omega⟩
      unfold Diff.takeBlock
      rw [taken, show deletes + 1 + d = deletes + (d + 1) by omega]
    | insert =>
      obtain ⟨c, here, next, left'⟩ := left_insert left
      obtain ⟨d, n, rest, taken, left'', source, room, length, _⟩ :=
        ih i (y + 1) deletes (inserts ++ [new.getD y 0]) inside next left'
      rw [show y + 1 + n = y + (n + 1) by omega] at left'' room taken
      refine ⟨d, n + 1, rest, ?_, left'', source, room, by simp only [List.length_cons]; omega, fun _ => by omega⟩
      unfold Diff.takeBlock
      rw [taken, drop_get here, List.take_succ_cons, List.getD_eq_getElem?_getD, here, List.append_assoc]
      rfl

/-- The walk over a script. -/
theorem emitScript_spec (small : new.length < 2 ^ 32) (small' : old.length < 2 ^ 32) :
    ∀ (fuel : Nat) (diff : List UInt8) (i y : Nat) (ses : List Edit), ses.length ≤ fuel → Left old new ses i y →
      Emitted old new diff i y → Emitted old new (Diff.emitScript new fuel diff y ses) old.length new.length := by
  have ended : ∀ {diff : List UInt8} {i y : Nat}, Left old new [] i y → Emitted old new diff i y →
      Emitted old new diff old.length new.length := by
    intro diff i y left emitted
    have inside := emitted.inside
    unfold Left at left
    generalize before : old.drop i = a at left
    generalize after : new.drop y = b at left
    cases left
    have all := List.drop_eq_nil_iff.mp before
    have all' := List.drop_eq_nil_iff.mp after
    rwa [show old.length = i by omega, show new.length = y by omega]
  intro fuel
  induction fuel with
  | zero =>
    intro diff i y ses enough left emitted
    obtain rfl : ses = [] := List.length_eq_zero_iff.mp (by omega)
    exact ended left emitted
  | succ fuel ih =>
    intro diff i y ses enough left emitted
    -- A block is emitted as a whole.
    have block : ses.head? = some .delete ∨ ses.head? = some .insert →
        ∀ r, Diff.takeBlock new ses y 0 [] = r →
          Emitted old new (Diff.emitScript new fuel (Diff.emitBlock diff y r.2.1 r.2.2.1) r.1 r.2.2.2) old.length
            new.length := by
      rintro first r rfl
      obtain ⟨d, n, rest, taken, left', source, room, length, progress⟩ :=
        takeBlock_spec ses i y 0 [] emitted.inside.1 emitted.inside.2 left
      have positive := progress first
      rw [taken]
      simp only [Nat.zero_add, List.nil_append]
      have size : ((new.drop y).take n).length = n := by
        rw [List.length_take, List.length_drop]
        omega
      have written := emitted_block small small' emitted d ((new.drop y).take n) (by rw [size])
        (by rw [size]; exact room) source
      rw [size] at written
      exact ih _ (i + d) (y + n) rest (by omega) left' written
    cases ses with
    | nil => exact ended left emitted
    | cons e ses =>
      cases e with
      | keep =>
        obtain ⟨c, here, here', left'⟩ := left_keep left
        exact ih diff (i + 1) (y + 1) ses (by simpa using enough) left' (emitted_keep emitted here here')
      | delete => exact block (.inl rfl) _ rfl
      | insert => exact block (.inr rfl) _ rfl

/-! ### The greedy diff -/

theorem matching_get : ∀ (xs ys : List UInt8) {k : Nat}, k < Diff.matching xs ys → ∃ c, xs[k]? = some c ∧ ys[k]? = some c := by
  intro xs
  induction xs with
  | nil =>
    intro ys k inside
    simp [Diff.matching] at inside
  | cons x xs ih =>
    intro ys k inside
    cases ys with
    | nil => simp [Diff.matching] at inside
    | cons y ys =>
      unfold Diff.matching at inside
      split at inside
      · next same =>
        cases k with
        | zero => exact ⟨x, rfl, by rw [same]; rfl⟩
        | succ k => exact ih ys (by omega)
      · omega

/-- The equal bytes are kept. -/
theorem emitted_matching (emitted : Emitted old new diff i j) : ∀ k ≤ Diff.matching (old.drop i) (new.drop j),
    Emitted old new diff (i + k) (j + k) := by
  intro k
  induction k with
  | zero =>
    intro _
    exact emitted
  | succ k ih =>
    intro within
    obtain ⟨c, here, here'⟩ := matching_get (old.drop i) (new.drop j) (k := k) (by omega)
    rw [List.getElem?_drop] at here here'
    exact emitted_keep (ih (by omega)) here here'

theorem differing_le : ∀ (cap : Nat) (xs ys : List UInt8),
    Diff.differing cap xs ys ≤ cap ∧ Diff.differing cap xs ys ≤ xs.length ∧ Diff.differing cap xs ys ≤ ys.length := by
  intro cap
  induction cap with
  | zero =>
    intro xs ys
    simp [Diff.differing]
  | succ cap ih =>
    intro xs ys
    cases xs with
    | nil => simp [Diff.differing]
    | cons x xs =>
      cases ys with
      | nil => simp [Diff.differing]
      | cons y ys =>
        have rest := ih xs ys
        unfold Diff.differing
        split
        · simp only [List.length_cons]
          omega
        · simp

/-- Where both go on, a round of the loop passes over at least one byte. -/
theorem round_moves (xs ys : List UInt8) (some : xs ≠ []) (some' : ys ≠ []) :
    0 < Diff.matching xs ys + Diff.differing 255 xs ys := by
  obtain ⟨x, xs, rfl⟩ := List.exists_cons_of_ne_nil some
  obtain ⟨y, ys, rfl⟩ := List.exists_cons_of_ne_nil some'
  by_cases same : x = y
  · simp [Diff.matching, same]
  · simp [Diff.differing, same]

theorem greedyLoop_spec (small : new.length < 2 ^ 32) : ∀ (fuel : Nat) (diff : List UInt8) (i : Nat),
    old.length < i + fuel → Emitted old new diff i i → ∃ diff' k, Diff.greedyLoop old new fuel diff i i = (diff', k, k) ∧
      Emitted old new diff' k k ∧ (k = old.length ∨ k = new.length) := by
  intro fuel
  induction fuel with
  | zero =>
    intro diff i enough emitted
    have := emitted.inside
    omega
  | succ fuel ih =>
    intro diff i enough emitted
    have inside := emitted.inside
    unfold Diff.greedyLoop
    by_cases more : i < old.length ∧ i < new.length
    · rw [if_pos more]
      dsimp only
      have kept := emitted_matching emitted _ (Nat.le_refl (Diff.matching (old.drop i) (new.drop i)))
      have moves : 0 < Diff.matching (old.drop i) (new.drop i) +
          Diff.differing 255 (old.drop (i + Diff.matching (old.drop i) (new.drop i)))
            (new.drop (i + Diff.matching (old.drop i) (new.drop i))) := by
        by_cases none : Diff.matching (old.drop i) (new.drop i) = 0
        · have first := round_moves (old.drop i) (new.drop i) (by simp; omega) (by simp; omega)
          rw [none] at first
          rw [none, Nat.add_zero]
          exact first
        · omega
      generalize Diff.matching (old.drop i) (new.drop i) = same at *
      obtain ⟨k, passed⟩ : ∃ k, k = i + same := ⟨_, rfl⟩
      rw [← passed] at kept moves ⊢
      have here := kept.inside
      have bounds := differing_le 255 (old.drop k) (new.drop k)
      rw [List.length_drop, List.length_drop] at bounds
      generalize Diff.differing 255 (old.drop k) (new.drop k) = count at *
      have size : ((new.drop k).take count).length = count := by
        rw [List.length_take, List.length_drop]
        omega
      by_cases none : count = 0
      · rw [if_neg (by simp [none]), none]
        exact ih diff k (by omega) kept
      · rw [if_pos (by rw [← List.length_pos_iff]; omega), size]
        have written := emitted_inline kept small OP_REPLACE count (.inl rfl) (by omega) (by omega)
          (fun _ => by omega)
        rw [if_pos rfl] at written
        exact ih _ (k + count) (by omega) written
    · rw [if_neg more]
      exact ⟨diff, i, rfl, emitted, by omega⟩

theorem greedyTail_spec (small : new.length < 2 ^ 32) : ∀ (fuel : Nat) (diff : List UInt8) (j : Nat),
    new.length < j + fuel → Emitted old new diff old.length j →
    Emitted old new (Diff.greedyTail new fuel diff j) old.length new.length := by
  intro fuel
  induction fuel with
  | zero =>
    intro diff j enough emitted
    have := emitted.inside
    omega
  | succ fuel ih =>
    intro diff j enough emitted
    have inside := emitted.inside
    unfold Diff.greedyTail
    by_cases more : j < new.length
    · rw [if_pos more]
      dsimp only
      have written := emitted_inline emitted small OP_INSERT (min 255 (new.length - j)) (.inr rfl)
        (by omega) (by omega) (fun impossible => absurd impossible (by decide))
      rw [if_neg (by decide)] at written
      exact ih _ _ (by omega) written
    · rw [if_neg more]
      rwa [show new.length = j by omega]

theorem createGreedyDiff_spec (small : new.length < 2 ^ 32) (small' : old.length < 2 ^ 32) :
    Emitted old new (Diff.createGreedyDiff old new) old.length new.length := by
  obtain ⟨diff, k, looped, emitted, ends⟩ := greedyLoop_spec small (old.length + 1) [] 0 (by omega)
    (emitted_start old new)
  have inside := emitted.inside
  unfold Diff.createGreedyDiff
  rw [looped]
  dsimp only
  by_cases more : k < old.length
  · rw [if_pos more]
    have written := emitted_delete emitted small small' (old.length - k) (by omega)
    rw [show k + (old.length - k) = old.length by omega] at written
    exact greedyTail_spec small (new.length + 1) _ k (by omega) written
  · rw [if_neg more]
    rw [show k = old.length by omega] at emitted ⊢
    exact greedyTail_spec small (new.length + 1) _ old.length (by omega) emitted

/-- Without an opcode, equal bytes were kept from start to end. -/
theorem reaches_nothing (reaches : Reaches old new [] old.length new.length) : old = new := by
  obtain ⟨p, q, folded, _, behind', _, _, apart, same⟩ := reaches
  obtain ⟨rfl, taken⟩ : 0 = p ∧ [] = new.take q := by simpa using folded
  have empty : q = 0 := by
    have length := congrArg List.length taken
    rw [List.length_take, List.length_nil] at length
    omega
  subst empty
  simpa using same

/-- A script that changes nothing is not emitted. -/
theorem emitScript_keeps : ∀ (fuel : Nat) (ses : List Edit) (y : Nat), changes ses = 0 →
    Diff.emitScript new fuel diff y ses = diff := by
  intro fuel
  induction fuel with
  | zero =>
    intro ses y _
    rfl
  | succ fuel ih =>
    intro ses y none
    cases ses with
    | nil => rfl
    | cons e ses =>
      cases e with
      | keep => exact ih ses (y + 1) none
      | delete => simp at none
      | insert => simp at none

theorem turns_keeps (a : List UInt8) : Turns (List.replicate a.length .keep) a a := by
  induction a with
  | nil => exact .nil
  | cons c a ih => exact .keep c ih

/-- A diff always comes about; its bytes spell opcodes that rebuild the new
    data from the old, and there are some unless both are equal. -/
theorem createDiff_spec (small : new.length < 2 ^ 32) (small' : old.length < 2 ^ 32) (scratch : Scratch) :
    ∃ opcodes scratch', Diff.createDiff old new scratch = some (runBytes opcodes, scratch') ∧
      (∀ o ∈ opcodes, Writable o) ∧ rebuild old new.length opcodes = some new ∧ (opcodes = [] ↔ old = new) := by
  obtain ⟨found, scratch', searched, finds⟩ := myersSES_spec old new Diff.D_LIMIT (by decide) scratch
  have ends : ∀ {opcodes}, Reaches old new opcodes old.length new.length →
      rebuild old new.length opcodes = some new ∧ (opcodes = [] → old = new) := by
    intro opcodes reaches
    refine ⟨reaches_end reaches, ?_⟩
    rintro rfl
    exact reaches_nothing reaches
  have none : changes (List.replicate old.length .keep) = 0 := by
    simp [changes, List.countP_replicate]
  unfold Diff.createDiff
  rw [searched]
  simp only [Option.bind_eq_bind, Option.bind_some]
  cases found with
  | some ses =>
    obtain ⟨turns, fewest⟩ := finds
    obtain ⟨opcodes, spelled, writable, reaches⟩ := emitScript_spec small small' ses.length [] 0 0 ses (Nat.le_refl _)
      turns (emitted_start old new)
    obtain ⟨rebuilt, equal⟩ := ends reaches
    refine ⟨opcodes, scratch', by rw [← spelled]; rfl, writable, rebuilt, equal, ?_⟩
    rintro rfl
    have nothing := fewest _ (turns_keeps old)
    rw [none, Nat.le_zero] at nothing
    rw [emitScript_keeps _ _ _ nothing] at spelled
    exact runBytes_nil spelled.symm
  | none =>
    obtain ⟨opcodes, spelled, writable, reaches⟩ := createGreedyDiff_spec small small'
    obtain ⟨rebuilt, equal⟩ := ends reaches
    refine ⟨opcodes, scratch', by rw [← spelled], writable, rebuilt, equal, ?_⟩
    rintro rfl
    have many := finds _ (turns_keeps old)
    rw [none] at many
    exact absurd many (by decide)

end Roll.Patching
