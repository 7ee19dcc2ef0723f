import Roll.Applying
import Roll.Patching

/-!
A diff is read back: the interpreter makes the new data of the old, and stops
where the diff ends.
-/
namespace Roll.DiffRoundtrip
open Roll.Parsing Roll.Outcome Roll.Cursor Roll.Reading Roll.Grammar Roll.Encoding Roll.Evaluation Roll.Patching
open Roll.Applying

/-- The interpreter reads opcodes that rebuild the new data, up to what follows
    them. -/
theorem applyDiff_rebuilds {U : StrongHash} {content old new rest : List UInt8} {opcodes : List DiffOpcode}
    (writable : ∀ o ∈ opcodes, Writable o) (nonempty : opcodes ≠ []) (rebuilt : rebuild old new.length opcodes = some new)
    (stops : is_diff_opcode rest.head? = false) {s : ApplyState U}
    (feeds : Feeds content s.reader.in_ (runBytes opcodes ++ rest) false) {fuel : Nat}
    (enough : (runBytes opcodes ++ rest).length < fuel) :
    ∃ r, Apply.applyDiff fuel old new.length s = .ok new { s with reader := r } ∧ Feeds content r.in_ rest false := by
  have parsed : run fuel (runBytes opcodes ++ rest) = some (opcodes, rest) := by
    apply (recognises_run fuel _ enough opcodes rest).mpr
    exact ⟨_, rfl, isRun_bytes writable, fun next => absurd (stops.symm.trans next) Bool.false_ne_true⟩
  have spec := applyDiff_spec (reads_start (s := s) ⟨feeds, rfl⟩) old new.length fuel
  cases ran : Apply.applyDiff fuel old new.length s with
  | error e s' =>
    have failed := spec.of_error ran opcodes rest parsed nonempty
    rw [rebuilt] at failed
    cases failed
  | ok out s' =>
    obtain ⟨opcodes', rest', parsed', _, rebuilt', feeds', only⟩ := spec.of_ok ran
    obtain ⟨rfl, rfl⟩ : opcodes = opcodes' ∧ rest = rest' := by simpa using parsed.symm.trans parsed'
    obtain rfl : new = out := Option.some.inj (rebuilt.symm.trans rebuilt')
    exact ⟨s'.reader, by rw [← only], feeds'.1⟩

/-- Whichever way it was made, a diff is empty exactly between equal data, and
    otherwise the interpreter makes the new data of it and leaves what follows. -/
theorem diff_round_trip {old new : List UInt8} (small : old.length ≤ DELTA_MAX_CHUNK_SIZE)
    (small' : new.length ≤ DELTA_MAX_CHUNK_SIZE) (scratch : Scratch) :
    ∃ diff scratch', Diff.createDiff old new scratch = some (diff, scratch') ∧ (diff = [] ↔ old = new) ∧
      (old ≠ new → ∀ (U : StrongHash) (content rest : List UInt8) (s : ApplyState U) (fuel : Nat),
        is_diff_opcode rest.head? = false → Feeds content s.reader.in_ (diff ++ rest) false →
        (diff ++ rest).length < fuel →
        ∃ r, Apply.applyDiff fuel old new.length s = .ok new { s with reader := r } ∧ Feeds content r.in_ rest false) := by
  have bound : DELTA_MAX_CHUNK_SIZE < 2 ^ 32 := by decide
  obtain ⟨opcodes, scratch', created, writable, rebuilt, equal⟩ :=
    createDiff_spec (Nat.lt_of_le_of_lt small' bound) (Nat.lt_of_le_of_lt small bound) scratch
  refine ⟨runBytes opcodes, scratch', created, ⟨fun empty => equal.mp (runBytes_nil empty), fun same => ?_⟩, ?_⟩
  · rw [equal.mpr same]
    rfl
  · intro different U content rest s fuel stops feeds enough
    exact applyDiff_rebuilds writable (fun none => different (equal.mp none)) rebuilt stops feeds enough

/-- An applier that has opened a delta with this content. -/
def openedOn (content : List UInt8) : ApplyState .padded :=
  { old_file := {}, reader := Apply.reader .padded (FileIo.opened content none true), transaction := {}
    system := { fs := .holding [] }, whole_file_hash := [] }

/-- `diff_round_trip` for a byte that is replaced, one that is deleted and one that is inserted,
    where a record follows. -/
theorem diff_round_trip_edits : ∃ diff scratch' r,
    Diff.createDiff [1, 2, 3, 4, 5] [1, 9, 3, 5, 6] {} = some (diff, scratch') ∧ diff ≠ [] ∧
      Apply.applyDiff (diff.length + 3) [1, 2, 3, 4, 5] 5 (openedOn (diff ++ [0, 7])) =
        .ok [1, 9, 3, 5, 6] { openedOn (diff ++ [0, 7]) with reader := r } ∧
      Feeds (diff ++ [0, 7]) r.in_ [0, 7] false := by
  obtain ⟨diff, scratch', created, empty, applies⟩ := diff_round_trip (show [1, 2, 3, 4, 5].length ≤ _ by decide)
    (show [1, 9, 3, 5, 6].length ≤ _ by decide) {}
  have some : diff ≠ [] := fun none => absurd (empty.mp none) (by decide)
  obtain ⟨r, ran, feeds⟩ := applies (by decide) .padded (diff ++ [0, 7]) [0, 7] (openedOn (diff ++ [0, 7]))
    (diff.length + 3) rfl (Calm.opened_feeds true) (by simp)
  exact ⟨diff, scratch', r, created, some, ran, feeds⟩

end Roll.DiffRoundtrip
