import Roll.Searching

/-!
Edit scripts and common subsequences: the fewest changes between two lists are
those of a script that keeps a longest common subsequence, and the search finds
such a script.
-/
namespace Roll.Shortest
open Roll.Searching

/-! ### Common subsequences -/

def Common (c a b : List UInt8) : Prop := c.Sublist a ∧ c.Sublist b

/-- `c` is a longest common subsequence. -/
def LongestCommon (c a b : List UInt8) : Prop := Common c a b ∧ ∀ c', Common c' a b → c'.length ≤ c.length

variable {a b c : List UInt8}

/-- What a script keeps is a common subsequence. -/
theorem turns_common {ses : List Edit} (turns : Turns ses a b) :
    ∃ c, Common c a b ∧ changes ses + 2 * c.length = a.length + b.length := by
  induction turns with
  | nil => exact ⟨[], ⟨.slnil, .slnil⟩, rfl⟩
  | keep x _ ih =>
    obtain ⟨c, ⟨left, right⟩, count⟩ := ih
    refine ⟨x :: c, ⟨left.cons_cons x, right.cons_cons x⟩, ?_⟩
    simp only [changes_keep, List.length_cons]
    omega
  | delete x _ ih =>
    obtain ⟨c, ⟨left, right⟩, count⟩ := ih
    refine ⟨c, ⟨left.cons x, right⟩, ?_⟩
    simp only [changes_delete, List.length_cons]
    omega
  | insert x _ ih =>
    obtain ⟨c, ⟨left, right⟩, count⟩ := ih
    refine ⟨c, ⟨left, right.cons x⟩, ?_⟩
    simp only [changes_insert, List.length_cons]
    omega

/-- A script that keeps a common subsequence. -/
theorem common_turns (left : c.Sublist a) : ∀ {b : List UInt8}, c.Sublist b →
    ∃ ses, Turns ses a b ∧ changes ses + 2 * c.length = a.length + b.length := by
  induction left with
  | slnil =>
    intro b _
    refine ⟨_, turns_inserts b, ?_⟩
    rw [changes_replicate (by decide)]
    simp
  | cons x _ ih =>
    intro b right
    obtain ⟨ses, turns, count⟩ := ih right
    refine ⟨.delete :: ses, .delete x turns, ?_⟩
    simp only [changes_delete, List.length_cons]
    omega
  | @cons_cons c a x _ ih =>
    intro b right
    -- The bytes of `b` before the one that is kept are inserted.
    induction b with
    | nil => cases right
    | cons y b ih' =>
      cases right with
      | cons _ rest =>
        obtain ⟨ses, turns, count⟩ := ih' rest
        refine ⟨.insert :: ses, .insert y turns, ?_⟩
        simp only [changes_insert, List.length_cons] at count ⊢
        omega
      | cons_cons _ rest =>
        obtain ⟨ses, turns, count⟩ := ih rest
        refine ⟨.keep :: ses, .keep x turns, ?_⟩
        simp only [changes_keep, List.length_cons]
        omega

/-- A script of the fewest changes keeps a longest common subsequence. -/
theorem fewest_common {ses : List Edit} (turns : Turns ses a b)
    (fewest : ∀ other, Turns other a b → changes ses ≤ changes other) :
    ∃ c, LongestCommon c a b ∧ changes ses = a.length + b.length - 2 * c.length := by
  obtain ⟨c, common, count⟩ := turns_common turns
  refine ⟨c, ⟨common, fun c' common' => ?_⟩, by omega⟩
  obtain ⟨other, turns', count'⟩ := common_turns common'.1 common'.2
  have le := fewest other turns'
  omega

/-! ### The search -/

/-- Whatever the scratch buffers held, every access of the search is in range; a
    success leaves a script of the fewest changes, which are those that a longest
    common subsequence leaves over, and a failure leaves `out_ses` as it was; if
    255 changes are enough, the search succeeds. -/
theorem myersSES_is_shortest (a b : List UInt8) (scratch : Scratch) (out_ses : List Edit) :
    ∃ success ses scratch', Diff.myersSES_out a b Diff.D_LIMIT out_ses scratch = some (success, ses, scratch') ∧
      (success = true → Turns ses a b ∧ (∀ other, Turns other a b → changes ses ≤ changes other) ∧
        ∃ c, LongestCommon c a b ∧ changes ses = a.length + b.length - 2 * c.length) ∧
      ((∃ other, Turns other a b ∧ changes other ≤ 255) → success = true) ∧ (success = false → ses = out_ses) := by
  obtain ⟨found, scratch', searched, finds⟩ := myersSES_spec a b Diff.D_LIMIT (by decide) scratch
  unfold Diff.myersSES_out
  rw [searched]
  simp only [Option.bind_eq_bind, Option.bind_some]
  cases found with
  | some ses =>
    obtain ⟨turns, fewest⟩ := finds
    exact ⟨true, ses, scratch', rfl, fun _ => ⟨turns, fewest, fewest_common turns fewest⟩, fun _ => rfl,
      nofun⟩
  | none =>
    refine ⟨false, out_ses, scratch', rfl, nofun, ?_, fun _ => rfl⟩
    rintro ⟨other, turns, few⟩
    rcases finds other turns with many | many
    · omega
    · have limit : Diff.D_LIMIT = 2048 := rfl
      omega

end Roll.Shortest
