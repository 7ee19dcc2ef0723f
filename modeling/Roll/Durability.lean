import Mathlib.Data.List.Basic

/-!
Files on a disk that may lose its power.

The names and the data of a disk are what programs see. After a power loss a name
leads to what it has led to at some time since its directory was synchronised,
and a file that was not flushed since its data changed may hold anything.
-/
namespace Roll.Durability

/-- `pending` lists what a name may lead to after a power loss. -/
structure Disk (ν ε κ δ : Type) where
  names : ν → ε
  data : κ → δ
  pending : ν → List ε
  flushed : κ → Bool

namespace Disk

variable {ν ε κ δ : Type}

/-- A disk on which all that is seen is there to stay. -/
def settled (names : ν → ε) (data : κ → δ) : Disk ν ε κ δ where
  names := names
  data := data
  pending := fun n => [names n]
  flushed := fun _ => true

/-- What is seen changes. -/
def update [DecidableEq ε] [DecidableEq δ] (d : Disk ν ε κ δ) (names : ν → ε) (data : κ → δ) : Disk ν ε κ δ where
  names := names
  data := data
  pending := fun n => if names n = d.names n then d.pending n else d.pending n ++ [names n]
  flushed := fun k => d.flushed k && data k = d.data k

/-- A file is flushed. -/
def flush [DecidableEq κ] (d : Disk ν ε κ δ) (file : κ) : Disk ν ε κ δ :=
  { d with flushed := fun k => k = file || d.flushed k }

/-- The directory of these names is synchronised. -/
def sync (d : Disk ν ε κ δ) (inside : ν → Bool) : Disk ν ε κ δ :=
  { d with pending := fun n => if inside n then [d.names n] else d.pending n }

/-- The names and the data may be found after a power loss. -/
structure Survives (d : Disk ν ε κ δ) (names : ν → ε) (data : κ → δ) : Prop where
  names : ∀ n, names n ∈ d.pending n
  data : ∀ k, d.flushed k = true → data k = d.data k

section
variable [DecidableEq ε] [DecidableEq δ] {d : Disk ν ε κ δ} {names : ν → ε} {data : κ → δ}

theorem update_pending {n : ν} {e : ε} (member : e ∈ (d.update names data).pending n) :
    e ∈ d.pending n ∨ names n ≠ d.names n ∧ e = names n := by
  by_cases same : names n = d.names n
  · exact .inl (by simpa only [update, if_pos same] using member)
  · simp only [update, if_neg same] at member
    exact (List.mem_append.mp member).imp id fun last => ⟨same, List.mem_singleton.mp last⟩

/-- What is seen may be found. -/
theorem update_recent {n : ν} (recent : d.names n ∈ d.pending n) :
    (d.update names data).names n ∈ (d.update names data).pending n := by
  by_cases same : names n = d.names n
  · simp only [update, same, if_true]
    exact recent
  · simp only [update, if_neg same]
    exact List.mem_append_right _ List.mem_cons_self

theorem update_flushed {k : κ} (flushed : d.flushed k = true) (same : data k = d.data k) :
    (d.update names data).flushed k = true := by
  simp [update, flushed, same]

end

/-- More is there to stay, and what is seen is the same. -/
structure Settles (d d' : Disk ν ε κ δ) : Prop where
  names : d'.names = d.names
  data : d'.data = d.data
  flushed : ∀ k, d.flushed k = true → d'.flushed k = true
  recent : ∀ n, d.names n ∈ d.pending n → d'.names n ∈ d'.pending n
  pending : ∀ n, d.names n ∈ d.pending n → ∀ e ∈ d'.pending n, e ∈ d.pending n

theorem settles_refl (d : Disk ν ε κ δ) : Settles d d :=
  ⟨rfl, rfl, fun _ flushed => flushed, fun _ recent => recent, fun _ _ _ member => member⟩

theorem Settles.trans {d d' d'' : Disk ν ε κ δ} (first : Settles d d') (second : Settles d' d'') : Settles d d'' where
  names := second.names.trans first.names
  data := second.data.trans first.data
  flushed k flushed := second.flushed k (first.flushed k flushed)
  recent n recent := second.recent n (first.recent n recent)
  pending n recent e member := first.pending n recent e (second.pending n (first.recent n recent) e member)

theorem settles_flush [DecidableEq κ] (d : Disk ν ε κ δ) (file : κ) : Settles d (d.flush file) := by
  refine ⟨rfl, rfl, ?_, fun _ recent => recent, fun _ _ _ member => member⟩
  intro k flushed
  simp [flush, flushed]

theorem settles_sync (d : Disk ν ε κ δ) (inside : ν → Bool) : Settles d (d.sync inside) := by
  refine ⟨rfl, rfl, fun _ flushed => flushed, ?_, ?_⟩
  · intro n recent
    unfold sync
    dsimp only
    split
    · exact List.mem_singleton_self _
    · exact recent
  · intro n recent e member
    unfold sync at member
    dsimp only at member
    split at member
    · rw [List.mem_singleton.mp member]
      exact recent
    · exact member

end Disk

end Roll.Durability
