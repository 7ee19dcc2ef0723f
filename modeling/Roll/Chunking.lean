import Mathlib.Data.List.Basic

/-!
Content-defined chunking: a word is cut at the end of the shortest prefix that
a predicate accepts, and what follows is cut in the same way.

Where a piece ends depends on that piece alone. So the pieces after a boundary
depend only on what follows it (`pieces_drop`), and a piece that is not the
last one of its word is found again in every word that goes on in the same way
up to its end (`pieces_common`). An edit changes the pieces around it only
(`pieces_edit`).
-/
namespace Roll.Chunking

variable {β : Type}

/-- No proper part from the left, not empty, is accepted. -/
def Uncut (cut : List β → Prop) (w : List β) : Prop := ∀ p, p <+: w → p ≠ [] → ¬ cut p

/-- The pieces of a word. -/
inductive Pieces (cut : List β → Prop) : List β → List (List β) → Prop
  | nil : Pieces cut [] []
  | last {w : List β} : w ≠ [] → Uncut cut w → Pieces cut w [w]
  | cut {c rest : List β} {cs : List (List β)} : c ≠ [] → cut c → (∀ p, p <+: c → p ≠ c → p ≠ [] → ¬ cut p) →
      Pieces cut rest cs → Pieces cut (c ++ rest) (c :: cs)

variable {cut : List β → Prop}

theorem pieces_flatten {w : List β} {cs : List (List β)} (pieces : Pieces cut w cs) : cs.flatten = w := by
  induction pieces with
  | nil => rfl
  | last => simp
  | cut _ _ _ _ ih => rw [List.flatten_cons, ih]

theorem pieces_ne_nil {w : List β} {cs : List (List β)} (pieces : Pieces cut w cs) : ∀ c ∈ cs, c ≠ [] := by
  induction pieces with
  | nil => simp
  | last some _ => simpa using some
  | cut some _ _ _ ih => simpa using ⟨some, ih⟩

/-- A piece that is not the last one is accepted. -/
theorem pieces_accepted {w : List β} {cs : List (List β)} (pieces : Pieces cut w cs) :
    ∀ {pre post : List (List β)} {c : List β}, cs = pre ++ c :: post → post ≠ [] → cut c := by
  induction pieces with
  | nil =>
    intro pre post c split
    simp at split
  | last =>
    intro pre post c split more
    cases pre with
    | nil => exact absurd (by simpa using (List.cons.inj split).2.symm) more
    | cons d pre => simp at split
  | @cut d rest cs _ accepted _ _ ih =>
    intro pre post c split more
    cases pre with
    | nil =>
      obtain ⟨rfl, _⟩ := List.cons.inj split
      exact accepted
    | cons e pre => exact ih (List.cons.inj split).2 more

/-- No shorter part of a piece is accepted. -/
theorem pieces_shortest {w : List β} {cs : List (List β)} (pieces : Pieces cut w cs) :
    ∀ c ∈ cs, ∀ p, p <+: c → p ≠ c → p ≠ [] → ¬ cut p := by
  induction pieces with
  | nil => simp
  | @last w _ uncut =>
    intro c member p inside _ some
    obtain rfl := List.mem_singleton.mp member
    exact uncut p inside some
  | @cut d rest cs _ _ shortest _ ih =>
    intro c member
    rcases List.mem_cons.mp member with rfl | member
    · exact shortest
    · exact ih c member

/-- A word that begins with a shortest accepted part is cut there. -/
theorem pieces_first {c rest : List β} {cs : List (List β)} (some : c ≠ []) (accepted : cut c)
    (shortest : ∀ p, p <+: c → p ≠ c → p ≠ [] → ¬ cut p) (pieces : Pieces cut (c ++ rest) cs) :
    ∃ cs', cs = c :: cs' ∧ Pieces cut rest cs' := by
  generalize whole : c ++ rest = w at pieces
  cases pieces with
  | nil => exact absurd (List.append_eq_nil_iff.mp whole).1 some
  | last _ uncut =>
    subst whole
    exact absurd accepted (uncut c (List.prefix_append c rest) some)
  | @cut d rest' cs' some' accepted' shortest' pieces' =>
    -- Both are parts of one word from the left, so that one is a part of the other.
    have here : c <+: d ++ rest' := whole ▸ List.prefix_append c rest
    have there : d <+: d ++ rest' := List.prefix_append d rest'
    have same : d = c := by
      by_contra different
      rcases Nat.le_total c.length d.length with le | le
      · exact shortest' c (List.prefix_of_prefix_length_le here there le) (Ne.symm different) some accepted
      · exact shortest d (List.prefix_of_prefix_length_le there here le) different some' accepted'
    subst same
    obtain rfl := List.append_cancel_left whole
    exact ⟨cs', rfl, pieces'⟩

/-- The pieces are determined by the word. -/
theorem pieces_unique {w : List β} {cs : List (List β)} (pieces : Pieces cut w cs) :
    ∀ {cs' : List (List β)}, Pieces cut w cs' → cs = cs' := by
  induction pieces with
  | nil =>
    intro cs' pieces'
    generalize empty : ([] : List β) = w at pieces'
    cases pieces' with
    | nil => rfl
    | last some _ => exact absurd empty.symm some
    | cut some _ _ _ => exact absurd (List.append_eq_nil_iff.mp empty.symm).1 some
  | last some uncut =>
    intro cs' pieces'
    cases pieces' with
    | nil => exact absurd rfl some
    | last _ _ => rfl
    | cut some' accepted' _ _ => exact absurd accepted' (uncut _ (List.prefix_append _ _) some')
  | cut some accepted shortest _ ih =>
    intro cs' pieces'
    obtain ⟨cs'', rfl, rest⟩ := pieces_first some accepted shortest pieces'
    rw [ih rest]

/-- The pieces after a boundary are those of what follows it. -/
theorem pieces_drop : ∀ {pre post : List (List β)} {w v : List β}, Pieces cut w (pre ++ post) → w = pre.flatten ++ v →
    post ≠ [] → Pieces cut v post := by
  intro pre
  induction pre with
  | nil =>
    intro post w v pieces split _
    rw [split] at pieces
    exact pieces
  | cons c pre ih =>
    intro post w v pieces split more
    generalize list : c :: pre ++ post = cs at pieces
    cases pieces with
    | nil => cases list
    | last =>
      obtain ⟨rfl, ended⟩ := List.cons.inj list
      exact absurd (List.append_eq_nil_iff.mp ended).2 more
    | cut _ _ _ pieces' =>
      obtain ⟨rfl, rfl⟩ := List.cons.inj list
      rw [List.flatten_cons, List.append_assoc] at split
      exact ih pieces' (List.append_cancel_left split) more

/-- A piece that ends within a common part and is not the last one is a piece
    of both words. -/
theorem pieces_common : ∀ {pre post cs : List (List β)} {c common x y : List β},
    Pieces cut (common ++ x) (pre ++ c :: post) → post ≠ [] → (pre ++ [c]).flatten.length ≤ common.length →
    Pieces cut (common ++ y) cs → ∃ post', cs = pre ++ c :: post' := by
  have first : ∀ {d common x y : List β} {ds cs : List (List β)}, Pieces cut (common ++ x) (d :: ds) → ds ≠ [] →
      d.length ≤ common.length → Pieces cut (common ++ y) cs →
      ∃ common' cs', common = d ++ common' ∧ Pieces cut (common' ++ x) ds ∧ cs = d :: cs' ∧
        Pieces cut (common' ++ y) cs' := by
    intro d common x y ds cs pieces more inside pieces'
    generalize whole : common ++ x = w at pieces
    cases pieces with
    | last => exact absurd rfl more
    | @cut _ rest _ some accepted shortest pieces'' =>
      have part : d <+: common :=
        List.prefix_of_prefix_length_le (whole ▸ List.prefix_append d rest) (List.prefix_append common x) inside
      obtain ⟨common', rfl⟩ := part
      rw [List.append_assoc] at whole pieces'
      obtain rfl := List.append_cancel_left whole
      obtain ⟨cs', rfl, pieces'''⟩ := pieces_first some accepted shortest pieces'
      exact ⟨common', cs', rfl, pieces'', rfl, pieces'''⟩
  intro pre
  induction pre with
  | nil =>
    intro post cs c common x y pieces more inside pieces'
    obtain ⟨_, cs', _, _, rfl, _⟩ := first pieces more (by simpa using inside) pieces'
    exact ⟨cs', rfl⟩
  | cons d pre ih =>
    intro post cs c common x y pieces more inside pieces'
    rw [List.cons_append, List.flatten_cons, List.length_append] at inside
    obtain ⟨common', cs', rfl, rest, rfl, rest'⟩ := first pieces (by simp) (by omega) pieces'
    rw [List.length_append] at inside
    obtain ⟨post', rfl⟩ := ih rest more (by omega) rest'
    exact ⟨post', rfl⟩

/-! ### Edits -/

/-- One of the pieces ends after `n` symbols. -/
def EndsAt (cs : List (List β)) (n : Nat) : Prop := ∃ pre post, cs = pre ++ post ∧ pre.flatten.length = n

/-- Short pieces have an end less than a piece before any position. -/
theorem split_before {N : Nat} : ∀ (cs : List (List β)) (n : Nat), (∀ c ∈ cs, c.length ≤ N) → n ≤ cs.flatten.length →
    ∃ pre rest, cs = pre ++ rest ∧ pre.flatten.length ≤ n ∧ n ≤ pre.flatten.length + N ∧ (cs ≠ [] → rest ≠ []) := by
  intro cs
  induction cs with
  | nil =>
    intro n _ inside
    exact ⟨[], [], rfl, Nat.zero_le n, by simpa using Nat.le_trans inside (Nat.zero_le N), fun more => absurd rfl more⟩
  | cons c cs ih =>
    intro n short inside
    rw [List.flatten_cons, List.length_append] at inside
    by_cases here : n ≤ c.length
    · have small := short c List.mem_cons_self
      exact ⟨[], c :: cs, rfl, Nat.zero_le n, by simpa using Nat.le_trans here small, fun _ => List.cons_ne_nil c cs⟩
    · obtain ⟨pre, rest, rfl, begun, within, more⟩ :=
        ih (n - c.length) (fun d member => short d (List.mem_cons_of_mem c member)) (by omega)
      have some : pre ++ rest ≠ [] := by
        intro none
        rw [none] at inside
        simp at inside
        omega
      refine ⟨c :: pre, rest, rfl, ?_, ?_, fun _ => more some⟩
      · rw [List.flatten_cons, List.length_append]
        omega
      · rw [List.flatten_cons, List.length_append]
        omega

/-- Up to less than a piece before the end of a common part, the pieces of one
    word are pieces of the other. -/
theorem pieces_before {N : Nat} {common x y : List β} {cs ds : List (List β)} (pieces : Pieces cut (common ++ x) cs)
    (pieces' : Pieces cut (common ++ y) ds) (short : ∀ d ∈ ds, d.length ≤ N) :
    ∃ pre rest, ds = pre ++ rest ∧ pre.flatten.length ≤ common.length ∧ common.length ≤ pre.flatten.length + N ∧
      ∀ c ∈ pre, c ∈ cs := by
  have inside : common.length ≤ ds.flatten.length := by
    rw [pieces_flatten pieces', List.length_append]
    exact Nat.le_add_right _ _
  obtain ⟨pre, rest, rfl, begun, within, more⟩ := split_before ds common.length short inside
  refine ⟨pre, rest, rfl, begun, within, fun c member => ?_⟩
  obtain ⟨a, b, rfl⟩ := List.append_of_mem member
  have later : b ++ rest ≠ [] := by
    intro none
    exact more (by simp) (List.append_eq_nil_iff.mp none).2
  have ended : (a ++ [c]).flatten.length ≤ common.length := by
    simp only [List.flatten_append, List.flatten_cons, List.flatten_nil, List.append_nil, List.length_append] at begun ⊢
    omega
  have split : a ++ c :: b ++ rest = a ++ c :: (b ++ rest) := by simp
  rw [split] at pieces'
  obtain ⟨post, rfl⟩ := pieces_common pieces' later ended pieces
  simp

/-- After a position at which both words have an end, and from which they go on
    in the same way, the pieces of one word are pieces of the other. -/
theorem pieces_after {a b tail : List β} {cs front back : List (List β)} (pieces : Pieces cut (a ++ tail) cs)
    (pieces' : Pieces cut (b ++ tail) (front ++ back)) (ends : EndsAt cs a.length) (ends' : front.flatten.length = b.length) :
    ∀ c ∈ back, c ∈ cs := by
  intro c member
  have later : back ≠ [] := List.ne_nil_of_mem member
  have rest : ∀ {w : List β} {pre post : List (List β)}, Pieces cut (w ++ tail) (pre ++ post) → pre.flatten.length = w.length →
      pre.flatten = w ∧ post.flatten = tail := by
    intro w pre post whole ended
    have flat := pieces_flatten whole
    rw [List.flatten_append] at flat
    exact List.append_inj flat ended
  obtain ⟨same', tail'⟩ := rest pieces' ends'
  obtain ⟨pre, post, rfl, ended⟩ := ends
  obtain ⟨same, tail''⟩ := rest pieces ended
  have later' : post ≠ [] := by
    rintro rfl
    have nothing : c = [] := List.flatten_eq_nil_iff.mp (tail'.trans tail''.symm) c member
    exact pieces_ne_nil pieces' c (List.mem_append_right _ member) nothing
  have first := pieces_drop pieces (by rw [same]) later'
  have second := pieces_drop pieces' (by rw [same']) later
  rw [pieces_unique first second]
  exact List.mem_append_right _ member

/-- A part `x` of a word becomes `y`, and both words have an end after it: then
    all new pieces are old ones but for some in a row, which hold `y` and less
    than a piece before it. -/
theorem pieces_edit {N : Nat} {p x y tail : List β} {cs ds : List (List β)} (pieces : Pieces cut (p ++ x ++ tail) cs)
    (pieces' : Pieces cut (p ++ y ++ tail) ds) (ends : EndsAt cs (p ++ x).length) (ends' : EndsAt ds (p ++ y).length)
    (short : ∀ d ∈ ds, d.length ≤ N) :
    ∃ pre mid post, ds = pre ++ mid ++ post ∧ (∀ c ∈ pre ++ post, c ∈ cs) ∧ mid.flatten.length ≤ y.length + N := by
  obtain ⟨front, back, split, ended⟩ := ends'
  have after := pieces_after pieces (split ▸ pieces') ends ended
  rw [List.append_assoc] at pieces pieces'
  obtain ⟨pre, rest, split', begun, within, before⟩ := pieces_before pieces pieces' short
  have both : ∀ {post : List (List β)}, (∀ c ∈ post, c ∈ cs) → ∀ c ∈ pre ++ post, c ∈ cs := by
    intro post listed c member
    exact (List.mem_append.mp member).elim (before c) (listed c)
  rw [List.length_append] at ended
  rcases List.append_eq_append_iff.mp (split'.symm.trans split) with ⟨mid, rfl, rfl⟩ | ⟨shared, rfl, rfl⟩
  · refine ⟨pre, mid, back, by rw [split', List.append_assoc], both after, ?_⟩
    rw [List.flatten_append, List.length_append] at ended
    omega
  · refine ⟨front ++ shared, [], rest, by rw [split', List.append_nil], both ?_, Nat.zero_le _⟩
    exact fun c member => after c (List.mem_append_right _ member)

/-- Pieces in a row are no more than their length allows where all pieces but the
    last of a word are long. -/
theorem pieces_count {M : Nat} (long : ∀ c, cut c → M ≤ c.length) {w : List β} {post : List (List β)} :
    ∀ {mid pre : List (List β)}, Pieces cut w (pre ++ mid ++ post) → M * (mid.length - 1) ≤ mid.flatten.length := by
  intro mid
  induction mid with
  | nil => exact fun _ => Nat.zero_le _
  | cons c mid ih =>
    intro pre pieces
    cases mid with
    | nil => exact Nat.zero_le _
    | cons d mid =>
      have whole : pre ++ (c :: d :: mid) ++ post = pre ++ c :: (d :: mid ++ post) := by simp
      have enough := long c (pieces_accepted pieces whole (by simp))
      have pieces' : Pieces cut w (pre ++ [c] ++ (d :: mid) ++ post) := by simpa using pieces
      have rest := ih pieces'
      simp only [List.length_cons, List.flatten_cons, List.length_append, Nat.add_sub_cancel, Nat.mul_add] at rest ⊢
      omega

end Roll.Chunking
