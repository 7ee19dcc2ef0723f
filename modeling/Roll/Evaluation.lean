import Roll.Grammar
import Roll.Signature

/-!
What a delta means. Against the chunk list of the old file every record
evaluates to the bytes it stands for, or to nothing; the delta as a whole to
these bytes one after the other.
-/
namespace Roll.Evaluation
open Roll.Grammar

/-- The bytes of a chunk. -/
def chunkBytes (old : List UInt8) (c : SignedChunk) : List UInt8 := (old.drop c.start_offset).take c.chunk_size

/-- How many bytes of the source an opcode passes over without copying them. -/
def skipped (o : DiffOpcode) : Nat :=
  if o.op = OP_REPLACE then o.bytes.length
  else if o.op = OP_INSERT then 0
  else o.delete_length.toNat

/-- The bytes an opcode brings along. -/
def brought (o : DiffOpcode) : List UInt8 := if o.op = OP_REPLACE ∨ o.op = OP_INSERT then o.bytes else []

/-- An opcode, where `p` bytes of the source are used and `out` is produced:
    the source is copied up to the position of the opcode. -/
def step (source : List UInt8) (n : Nat) (q : Nat × List UInt8) (o : DiffOpcode) : Option (Nat × List UInt8) :=
  let p := q.1
  let out := q.2
  let kept := o.pos.toNat - out.length
  if out.length ≤ o.pos.toNat ∧ p + kept + skipped o ≤ source.length ∧ o.pos.toNat + (brought o).length ≤ n then
    some (p + kept + skipped o, out ++ (source.drop p).take kept ++ brought o)
  else none

/-- The output is filled up to `n` bytes from the source. -/
def fill (source : List UInt8) (n : Nat) (q : Nat × List UInt8) : Option (List UInt8) :=
  if q.1 + (n - q.2.length) ≤ source.length then some (q.2 ++ (source.drop q.1).take (n - q.2.length)) else none

/-- The `n` bytes that opcodes make of a source. -/
def rebuild (source : List UInt8) (n : Nat) (opcodes : List DiffOpcode) : Option (List UInt8) :=
  (opcodes.foldlM (step source n) (0, [])).bind (fill source n)

/-- The bytes of a record. -/
def evaluate (U : StrongHash) (old : List UInt8) (chunks : List SignedChunk) (r : Record) : Option (List UInt8) :=
  match r.header.type with
  | .ORIGINAL_CHUNK =>
    chunks[r.header.old_index.toNat]?.bind fun c =>
      if c.hash = r.header.digest then some (chunkBytes old c) else none
  | .ADDED_CHUNK => if U.digest r.payload = r.header.digest then some r.payload else none
  | .MODIFIED_CHUNK =>
    chunks[r.header.old_index.toNat]?.bind fun c =>
      (rebuild (chunkBytes old c) r.header.out_size.toNat r.opcodes).bind fun out =>
        if U.digest out = r.header.digest then some out else none

/-- A delta of these records, which evaluate to these outputs, with this trailer. -/
def Means (U : StrongHash) (old : List UInt8) (chunks : List SignedChunk) (delta : List UInt8) (records : List Record)
    (outs : List (List UInt8)) (trailer : List UInt8) : Prop :=
  IsDelta U.get_hash_size records trailer delta ∧ records.mapM (evaluate U old chunks) = some outs

/-- The digest of outputs that were hashed one after the other. -/
def streamed (U : StrongHash) (outs : List (List UInt8)) : List UInt8 := U.finalize (outs.foldl U.update U.init)

theorem evaluated_cons {U : StrongHash} {old : List UInt8} {chunks : List SignedChunk} {r : Record}
    {records : List Record} {outs : List (List UInt8)} : (r :: records).mapM (evaluate U old chunks) = some outs ↔
      ∃ out new, evaluate U old chunks r = some out ∧ records.mapM (evaluate U old chunks) = some new ∧ outs = out :: new := by
  rw [List.mapM_cons]
  constructor
  · intro evaluated
    obtain ⟨out, first, evaluated⟩ := Option.bind_eq_some_iff.mp evaluated
    obtain ⟨new, mapped, ends⟩ := Option.bind_eq_some_iff.mp evaluated
    exact ⟨out, new, first, mapped, by simpa using ends.symm⟩
  · rintro ⟨out, new, first, mapped, rfl⟩
    rw [first, mapped]
    rfl

theorem evaluated_length {U : StrongHash} {old : List UInt8} {chunks : List SignedChunk} :
    ∀ {records : List Record} {outs : List (List UInt8)}, records.mapM (evaluate U old chunks) = some outs →
      outs.length = records.length := by
  intro records
  induction records with
  | nil =>
    intro outs evaluated
    obtain rfl : [] = outs := by simpa using evaluated
    rfl
  | cons r records ih =>
    intro outs evaluated
    obtain ⟨out, new, _, mapped, rfl⟩ := evaluated_cons.mp evaluated
    rw [List.length_cons, List.length_cons, ih mapped]

/-- Opcodes bring the output to at most `n` bytes. -/
theorem step_le {source : List UInt8} {n : Nat} {q q' : Nat × List UInt8} {o : DiffOpcode}
    (stepped : step source n q o = some q') : q'.1 ≤ source.length ∧ q'.2.length ≤ n := by
  unfold step at stepped
  simp only at stepped
  split at stepped
  · next inside =>
    obtain rfl : _ = q' := by simpa using stepped
    obtain ⟨forward, used, room⟩ := inside
    refine ⟨used, ?_⟩
    simp only [List.length_append, List.length_take, List.length_drop]
    omega
  · cases stepped

/-- What is rebuilt has the size asked for. -/
theorem rebuild_length {source out : List UInt8} {n : Nat} {opcodes : List DiffOpcode}
    (rebuilt : rebuild source n opcodes = some out) : out.length = n := by
  obtain ⟨q, folded, filled⟩ := Option.bind_eq_some_iff.mp rebuilt
  have small : ∀ (opcodes : List DiffOpcode) (q q' : Nat × List UInt8), q.2.length ≤ n →
      opcodes.foldlM (step source n) q = some q' → q'.2.length ≤ n := by
    intro opcodes
    induction opcodes with
    | nil =>
      intro q q' small folded
      obtain rfl : q = q' := by simpa using folded
      exact small
    | cons o opcodes ih =>
      intro q q' _ folded
      rw [List.foldlM_cons] at folded
      obtain ⟨q₁, stepped, folded⟩ := Option.bind_eq_some_iff.mp folded
      exact ih q₁ q' (step_le stepped).2 folded
  have le := small opcodes (0, []) q (Nat.zero_le n) folded
  unfold fill at filled
  split at filled
  · next inside =>
    obtain rfl : _ = out := by simpa using filled
    simp only [List.length_append, List.length_take, List.length_drop]
    omega
  · cases filled

end Roll.Evaluation
