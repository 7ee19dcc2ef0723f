import Roll.Interpreting

/-!
Signature generation on any handle, whatever happens to its reads: a call
succeeds with chunks that cover the size taken at open, or leaves nothing. What
an object held before a call has no influence on it.
-/
namespace Roll.Signing
open Roll.Cursor Roll.Interpreting Roll.Signature

variable {T : RollingHash} {U : StrongHash}

/-! ### Coverage -/

/-- The chunks follow one another from offset `start` on, as far as `stop`. -/
inductive Covers : Nat → List SignedChunk → Nat → Prop
  | nil {start : Nat} : Covers start [] start
  | cons {c : SignedChunk} {cs : List SignedChunk} {stop : Nat} : 0 < c.chunk_size →
      Covers (c.start_offset + c.chunk_size) cs stop → Covers c.start_offset (c :: cs) stop

theorem Covers.sum {start stop : Nat} {cs : List SignedChunk} (covers : Covers start cs stop) :
    start + (cs.map (·.chunk_size)).sum = stop := by
  induction covers with
  | nil => rfl
  | cons _ _ ih =>
    rw [List.map_cons, List.sum_cons, ← ih]
    omega

theorem Covers.snoc {start stop : Nat} {cs : List SignedChunk} (covers : Covers start cs stop) {c : SignedChunk}
    (next : c.start_offset = stop) (some : 0 < c.chunk_size) : Covers start (cs ++ [c]) (stop + c.chunk_size) := by
  induction covers with
  | nil =>
    subst next
    exact .cons some .nil
  | cons first _ ih => exact .cons first (ih next)

/-- What the loop keeps: the chunks emitted so far cover all that was read but the chunk at
    hand, and the digest was asked for or not. -/
structure Covered (size : Nat) (hashes : Bool) (s : Chunker T U) : Prop where
  size : s.file.size_ = size
  hashes : s.whole.isSome = hashes
  covers : ∃ stop, Covers 0 s.chunks stop ∧ s.bytes_read = stop + s.chunk.length

variable {size : Nat} {hashes : Bool} {s : Chunker T U}

theorem emit_chunk_covered (covered : Covered size hashes s) (some : s.chunk ≠ []) :
    Covered size hashes { emit_chunk s with chunk := [] } := by
  obtain ⟨stop, covers, read⟩ := covered.covers
  refine ⟨covered.size, by simp [emit_chunk, covered.hashes], s.bytes_read, ?_, by simp [emit_chunk]⟩
  have start : s.bytes_read - s.chunk.length = stop := by omega
  have next := covers.snoc (c := { signature := s.current_fingerprint, hash := (U.hash s.chunk).take DELTA_DIGEST_BYTES
                                   start_offset := s.bytes_read - s.chunk.length, chunk_size := s.chunk.length })
    start (List.length_pos_iff.mpr some)
  rw [read]
  exact next

theorem next_window_covered (covered : Covered size hashes s) (emitted : s.chunk = []) :
    Covered size hashes (next_window s).2 := by
  obtain ⟨stop, covers, read⟩ := covered.covers
  have kept := read_chunk_size (T.get_window_size s.fingerprint) s.file
  unfold next_window
  generalize s.file.read_chunk (T.get_window_size s.fingerprint) = r at kept ⊢
  obtain ⟨next, file⟩ := r
  dsimp only at kept ⊢
  have size' : file.size_ = size := kept.trans covered.size
  by_cases none : next = []
  · rw [if_pos none]
    exact ⟨size', covered.hashes, stop, covers, read⟩
  · rw [if_neg none]
    generalize T.initialize_window next s.fingerprint = w
    obtain ⟨full_window, fingerprint⟩ := w
    refine ⟨size', covered.hashes, stop, covers, ?_⟩
    rw [emitted, List.length_nil, Nat.add_zero] at read
    show s.bytes_read + next.length = stop + next.length
    rw [read]

/-- One more byte. -/
def pushed (s : Chunker T U) (file : FileIo) (byte : UInt8) : Chunker T U :=
  { s with
    file := file
    bytes_read := s.bytes_read + 1
    chunk := s.chunk ++ [byte]
    current_fingerprint := (T.compute_next byte s.fingerprint).1
    fingerprint := (T.compute_next byte s.fingerprint).2 }

theorem pushed_covered (covered : Covered size hashes s) {file : FileIo} (kept : file.size_ = s.file.size_) (byte : UInt8) :
    Covered size hashes (pushed s file byte) := by
  obtain ⟨stop, covers, read⟩ := covered.covers
  refine ⟨kept.trans covered.size, covered.hashes, stop, covers, ?_⟩
  simp only [pushed, List.length_append, List.length_singleton, read]
  omega

theorem loop_covered : ∀ (fuel : Nat) (init : Bool) (s : Chunker T U), Covered size hashes s →
    (init = true → s.chunk = []) → Covered size hashes (loop fuel init s) := by
  intro fuel
  induction fuel with
  | zero =>
    intro init s covered _
    exact covered
  | succ fuel ih =>
    intro init s covered emitted
    have windowed : Covered size hashes (if init then next_window s else (true, s)).2 := by
      cases init with
      | false => exact covered
      | true => exact next_window_covered covered (emitted rfl)
    unfold loop
    generalize (if init then next_window s else (true, s)) = r at windowed ⊢
    obtain ⟨more, s'⟩ := r
    cases more with
    | false => exact windowed
    | true =>
      dsimp only at windowed ⊢
      have kept := read_byte_size s'.file
      generalize s'.file.read_byte = r at kept ⊢
      obtain ⟨byte, file⟩ := r
      cases byte with
      | none => exact ⟨kept.trans windowed.size, windowed.hashes, windowed.covers⟩
      | some byte =>
        have grown := pushed_covered windowed kept byte
        dsimp only
        split
        · exact ih true _ (emit_chunk_covered grown (List.append_ne_nil_of_right_ne_nil _ (List.cons_ne_nil byte []))) (fun _ => rfl)
        · exact ih false _ grown fun impossible => by cases impossible

/-! ### The end of the loop

The loop ends at a read that delivers nothing: the fuel is enough for all that
the handle may still deliver.
-/

theorem next_window_remaining (s : Chunker T U) : remaining (next_window s).2.file ≤ remaining s.file := by
  have shrinks := read_chunk_remaining (T.get_window_size s.fingerprint) s.file
  unfold next_window
  dsimp only
  split
  · exact shrinks
  · exact shrinks

theorem loop_enough : ∀ (fuel more : Nat) (init : Bool) (s : Chunker T U), remaining s.file < fuel →
    loop (fuel + more) init s = loop fuel init s := by
  intro fuel
  induction fuel with
  | zero =>
    intro more init s impossible
    exact absurd impossible (Nat.not_lt_zero _)
  | succ fuel ih =>
    intro more init s enough
    have shrinks : remaining (if init then next_window s else (true, s)).2.file ≤ remaining s.file := by
      cases init with
      | false => exact Nat.le_refl _
      | true => exact next_window_remaining s
    rw [Nat.succ_add]
    unfold loop
    generalize (if init then next_window s else (true, s)) = r at shrinks ⊢
    obtain ⟨full, s'⟩ := r
    cases full with
    | false => rfl
    | true =>
      have takes := (read_byte_remaining s'.file).2
      dsimp only at shrinks ⊢
      generalize s'.file.read_byte = r at takes ⊢
      obtain ⟨byte, file⟩ := r
      cases byte with
      | none => rfl
      | some byte =>
        have fewer : remaining file < fuel := Nat.lt_of_lt_of_le (takes rfl) (by omega)
        dsimp only
        split
        · exact ih more true _ fewer
        · exact ih more false _ fewer

theorem read_steps_drained (n : Nat) : ∀ (fuel : Nat) (vec : List UInt8) (f : FileIo), f.rpos_ = f.rlen_ →
    (FileIo.read_steps n fuel vec f).2.rpos_ = (FileIo.read_steps n fuel vec f).2.rlen_ := by
  intro fuel
  induction fuel with
  | zero =>
    intro vec f drained
    exact drained
  | succ fuel ih =>
    intro vec f drained
    have stepped : ∀ step, (f.read_step step).2.rpos_ = (f.read_step step).2.rlen_ := by
      intro step
      simp only [FileIo.read_step, FileIo.pull, drained, Nat.sub_self, Nat.min_zero, Nat.add_zero]
      split <;> rfl
    unfold FileIo.read_steps
    dsimp only
    split
    · split
      · exact stepped _
      · exact ih _ _ (stepped _)
    · exact drained

/-- `read_chunk` from a position leaves no read-ahead. -/
theorem read_chunk_at_drained (n p : Nat) (f : FileIo) :
    (f.read_chunk_at n p).2.rpos_ = (f.read_chunk_at n p).2.rlen_ := by
  have chunk : ∀ g : FileIo, g.rpos_ = g.rlen_ → (g.read_chunk n).2.rpos_ = (g.read_chunk n).2.rlen_ := by
    intro g drained
    unfold FileIo.read_chunk
    split
    · exact drained
    · split
      · exact drained
      · exact read_steps_drained n n [] g drained
  unfold FileIo.read_chunk_at
  dsimp only
  split
  · rfl
  · split
    · rfl
    · exact chunk _ rfl

/-- The fuel that `generate_signatures` gives its loop is as good as any more. -/
theorem fuel_enough (n p : Nat) (f : FileIo) {s : Chunker T U} (here : s.file = (f.read_chunk_at n p).2) (more : Nat)
    (init : Bool) : loop (s.file.f_.reach + 1 + more) init s = loop (s.file.f_.reach + 1) init s := by
  have drained := read_chunk_at_drained n p f
  refine loop_enough _ more init s ?_
  rw [here]
  simp only [remaining, held, left, drained, Nat.le_refl, if_true, Nat.sub_self]
  omega

/-! ### One call -/

/-- What a call leaves in the object: nothing, or chunks that cover the size and the digest
    that was asked for. -/
structure AllOrNothing (size : Nat) (mode : WholeFileHash) (ok : Bool) (sig : Signature) : Prop where
  nothing : ok = false → sig.get_chunks = [] ∧ sig.whole_file_hash = []
  all : ok = true → Covers 0 sig.get_chunks size ∧ (sig.whole_file_hash ≠ [] ↔ mode = .Compute)

theorem finish_spec {mode : WholeFileHash} (covered : Covered size (mode = .Compute) { s with chunk := [] }) :
    AllOrNothing size mode (finish s).1 (finish s).2.1 := by
  obtain ⟨stop, covers, read⟩ := covered.covers
  rw [List.length_nil, Nat.add_zero] at read
  dsimp only at covers read
  unfold finish
  by_cases failed : (s.file.has_error || s.bytes_read ≠ s.file.size) = true
  · rw [if_pos failed]
    exact ⟨fun _ => ⟨rfl, rfl⟩, nofun⟩
  · rw [if_neg failed]
    rw [Bool.or_eq_true, decide_eq_true_eq, not_or, not_not] at failed
    refine ⟨nofun, fun _ => ⟨?_, ?_⟩⟩
    · have complete : stop = size := by rw [← read, failed.2, FileIo.size, covered.size]
      exact complete ▸ covers
    · have hashes := covered.hashes
      have some := U.finalize_length
      have enough := U.enough
      cases digest : s.whole with
      | none =>
        rw [digest] at hashes
        simpa [Signature.whole_file_hash] using hashes
      | some whole =>
        rw [digest] at hashes
        have nonempty : U.finalize whole ≠ [] := by
          refine List.ne_nil_of_length_pos ?_
          rw [some]
          exact Nat.lt_of_lt_of_le (by decide) enough
        simpa [Signature.whole_file_hash, nonempty] using hashes

/-- The chunk at hand is emitted before the end. -/
theorem residual_spec {mode : WholeFileHash} (covered : Covered size (mode = .Compute) s) :
    AllOrNothing size mode (finish (if s.chunk.length > 0 then emit_chunk s else s)).1
      (finish (if s.chunk.length > 0 then emit_chunk s else s)).2.1 := by
  by_cases some : s.chunk.length > 0
  · rw [if_pos some]
    exact finish_spec (emit_chunk_covered covered (List.length_pos_iff.mp some))
  · rw [if_neg some]
    have emptied : s.chunk = [] := List.length_eq_zero_iff.mp (Nat.eq_zero_of_not_pos some)
    have same : s = { s with chunk := [] } := by rw [← emptied]
    exact finish_spec (same ▸ covered)

/-- A call on a handle, whatever its reads meet. -/
theorem generate_all_or_nothing (T : RollingHash) (U : StrongHash) (file : FileIo) (mode : WholeFileHash) :
    AllOrNothing file.size mode (generate_signatures T U file mode).1 (generate_signatures T U file mode).2.1 := by
  unfold generate_signatures
  by_cases closed : (!file.is_open) = true
  · rw [if_pos closed]
    exact ⟨fun _ => ⟨rfl, rfl⟩, nofun⟩
  rw [if_neg closed]
  have kept := read_chunk_at_size (T.get_window_size T.fresh) 0 file
  dsimp only
  generalize file.read_chunk_at (T.get_window_size T.fresh) 0 = r at kept ⊢
  obtain ⟨initial, file'⟩ := r
  dsimp only at kept ⊢
  have hashes : (if mode = .Compute then some U.init else none).isSome = decide (mode = .Compute) := by
    cases mode <;> rfl
  by_cases none : initial = []
  · rw [if_pos none]
    exact finish_spec ⟨kept, hashes, 0, .nil, rfl⟩
  rw [if_neg none]
  have first : ∀ fingerprint, Covered file.size (mode = .Compute) ({
      file := file', fingerprint, chunk := initial, current_fingerprint := T.get_current_fingerprint fingerprint
      bytes_read := initial.length, chunks := [], whole := if mode = .Compute then some U.init else Option.none } :
      Chunker T U) :=
    fun _ => ⟨kept, hashes, 0, .nil, (Nat.zero_add _).symm⟩
  split
  · exact finish_spec (emit_chunk_covered (first _) none)
  · exact residual_spec (loop_covered _ false _ (first _) nofun)

/-! ### Calls on one object -/

theorem finish_on_empty (s : Chunker T U) : finish_on s {} = finish s := by
  unfold finish_on finish
  cases s.whole <;> rfl

/-- What the object held is cleared before anything else. -/
theorem generate_signatures_on_eq (T : RollingHash) (U : StrongHash) (file : FileIo) (mode : WholeFileHash)
    (sig : Signature) : generate_signatures_on T U file mode sig = generate_signatures T U file mode := by
  unfold generate_signatures_on generate_signatures
  simp only [finish_on_empty]

/-- What a call signs: an open handle in any state, or a path in an environment. -/
inductive Source
  | handle (file : FileIo)
  | path (env : Environment) (sys : System) (datafile : Path)

structure Call where
  source : Source
  mode : WholeFileHash

namespace Call

/-- The handle the call reads. -/
def file (call : Call) : FileIo :=
  match call.source with
  | .handle file => file
  | .path env sys datafile => (FileIo.open_in env datafile sys).2.1

/-- The call on an object, with the value it returns. -/
def run (T : RollingHash) (U : StrongHash) (call : Call) (sig : Signature) : Bool × Signature :=
  match call.source with
  | .handle file =>
    let (ok, sig, _) := generate_signatures_on T U file call.mode sig
    (ok, sig)
  | .path env sys datafile =>
    let (ok, sig, _) := generate_signatures_path T U env datafile call.mode sig sys
    (ok, sig)

/-- The results of the calls and the states of the object after each. -/
def runs (T : RollingHash) (U : StrongHash) : List Call → Signature → List (Bool × Signature)
  | [], _ => []
  | call :: calls, sig =>
    let r := call.run T U sig
    r :: runs T U calls r.2

end Call

theorem call_all_or_nothing (T : RollingHash) (U : StrongHash) (call : Call) (sig : Signature) :
    AllOrNothing call.file.size call.mode (call.run T U sig).1 (call.run T U sig).2 := by
  obtain ⟨source, mode⟩ := call
  cases source with
  | handle file =>
    simp only [Call.run, Call.file, generate_signatures_on_eq]
    exact generate_all_or_nothing T U file mode
  | path env sys datafile =>
    simp only [Call.run, Call.file, generate_signatures_path]
    generalize FileIo.open_in env datafile sys = r
    obtain ⟨opened, file, sys'⟩ := r
    cases opened with
    | false => exact ⟨fun _ => ⟨rfl, rfl⟩, nofun⟩
    | true =>
      simp only [generate_signatures_on_eq]
      exact generate_all_or_nothing T U file mode

/-- A call does the same to every object. -/
theorem call_forgets (T : RollingHash) (U : StrongHash) (call : Call) (sig sig' : Signature) :
    call.run T U sig = call.run T U sig' := by
  obtain ⟨source, mode⟩ := call
  cases source with
  | handle file => simp only [Call.run, generate_signatures_on_eq]
  | path env sys datafile =>
    simp only [Call.run, generate_signatures_path, generate_signatures_on_eq]

/-- Of any calls on one object, each one that fails leaves nothing, and each one that succeeds
    leaves contiguous chunks whose lengths sum to the size taken at open, and a digest if it
    was asked for; the object is then as if the last call had been the only one. -/
theorem signatures_all_or_nothing (T : RollingHash) (U : StrongHash) (sig : Signature) (calls : List Call) :
    List.Forall₂ (fun call r =>
      (r.1 = false → r.2.get_chunks = [] ∧ r.2.whole_file_hash = []) ∧
      (r.1 = true → (r.2.get_chunks.map (·.chunk_size)).sum = call.file.size ∧ Covers 0 r.2.get_chunks call.file.size ∧
        (r.2.whole_file_hash ≠ [] ↔ call.mode = .Compute)) ∧
      ∀ other, r = call.run T U other) calls (Call.runs T U calls sig) := by
  induction calls generalizing sig with
  | nil => exact .nil
  | cons call calls ih =>
    have outcome := call_all_or_nothing T U call sig
    refine .cons ⟨outcome.nothing, fun ok => ?_, call_forgets T U call sig⟩ (ih _)
    obtain ⟨covers, digest⟩ := outcome.all ok
    exact ⟨(Nat.zero_add _).symm.trans covers.sum, covers, digest⟩

end Roll.Signing
