import Roll.Applying

/-!
The diff interpreter on any stream of bytes.

Each opcode that is read takes bytes from what the handle may still deliver,
so the loop ends; and in every state the loop goes through, the output and the
two positions stay within their bounds.
-/
namespace Roll.Interpreting
open Roll.Parsing Roll.Outcome Roll.Applying

/-! ### What a handle may still deliver -/

/-- A bound on the bytes that the stream has left, whatever happens to the file. -/
def left (s : FStream) : Nat := s.reach - s.pos

/-- The bytes of the read-ahead that have not been consumed. -/
def held (f : FileIo) : Nat := if f.rpos_ ≤ f.rlen_ then f.rlen_ - f.rpos_ else f.rbuf_.length - f.rpos_

/-- A bound on the bytes that a handle, in any state, will still deliver. -/
def remaining (f : FileIo) : Nat := left f.f_ + held f

theorem tick_reach (s : FStream) : s.tick.2.reach ≤ s.reach ∧ s.tick.2.pos = s.pos := by
  unfold FStream.tick
  split
  · exact ⟨Nat.le_refl _, rfl⟩
  · next e rest events =>
    refine ⟨?_, rfl⟩
    simp only [FStream.reach, events, List.filterMap_cons]
    cases e.replaced with
    | none => exact Nat.le_refl _
    | some content => simp

theorem read_left (n : Nat) (s : FStream) : (s.read n).1.length + left (s.read n).2 ≤ left s := by
  unfold FStream.read
  by_cases good : s.good = true
  · rw [if_neg (by simp [good])]
    obtain ⟨shrinks, pos⟩ := tick_reach s
    generalize s.tick = r at shrinks pos ⊢
    obtain ⟨e, s'⟩ := r
    dsimp only at shrinks pos ⊢
    have inside : ((s'.data.drop s'.pos).take n).length ≤ s'.reach - s'.pos := by
      simp only [FStream.reach, List.length_take, List.length_drop]
      omega
    cases s'.stopsAt e n with
    | some j =>
      have part := List.length_take_le' j ((s'.data.drop s'.pos).take n)
      simp only [left, FStream.reach] at shrinks inside ⊢
      omega
    | none =>
      simp only [left, FStream.reach] at shrinks inside ⊢
      omega
  · rw [if_pos (by simpa using good)]
    simp [left, FStream.reach]

theorem pull_left (n : Nat) (f : FileIo) : (f.pull n).1.length + left (f.pull n).2.f_ ≤ left f.f_ := read_left n f.f_

/-- A refill moves bytes from the stream to the read-ahead. -/
theorem refill_remaining (f : FileIo) : remaining f.refill.2 ≤ left f.f_ ∧
    (f.refill.1 = true → f.refill.2.rpos_ < f.refill.2.rlen_) := by
  have kept : left f.f_ = left f.discard_read_buffer.f_ := rfl
  have empty : remaining f.discard_read_buffer = left f.f_ := by
    simp [remaining, held, FileIo.discard_read_buffer]
  unfold FileIo.refill
  by_cases closed : (!f.discard_read_buffer.f_.opened || !f.discard_read_buffer.readable_ ||
      f.discard_read_buffer.io_error_) = true
  · simp only [if_pos closed]
    exact ⟨Nat.le_of_eq empty, by simp⟩
  · simp only [if_neg closed]
    have pulled := pull_left FileIo.READ_BUFFER_SIZE f.discard_read_buffer
    rw [← kept] at pulled
    have buffer : (f.discard_read_buffer.pull FileIo.READ_BUFFER_SIZE).2.rpos_ = 0 ∧
        (f.discard_read_buffer.pull FileIo.READ_BUFFER_SIZE).2.rlen_ = 0 := ⟨rfl, rfl⟩
    generalize f.discard_read_buffer.pull FileIo.READ_BUFFER_SIZE = r at pulled buffer ⊢
    obtain ⟨got, g⟩ := r
    dsimp only at pulled buffer ⊢
    by_cases nothing : got.length = 0
    · rw [if_pos nothing]
      refine ⟨?_, by simp⟩
      simp only [remaining, held, buffer.1, buffer.2, Nat.le_refl, if_true, Nat.sub_self]
      omega
    · rw [if_neg nothing]
      refine ⟨?_, fun _ => ?_⟩
      · simp only [remaining, held, buffer.1, Nat.zero_le, if_true, Nat.sub_zero]
        omega
      · show g.rpos_ < got.length
        omega

theorem ahead_remaining (f : FileIo) : remaining f.ahead.2 ≤ remaining f := by
  unfold FileIo.ahead
  by_cases drained : f.rpos_ = f.rlen_
  · rw [if_pos drained]
    exact Nat.le_trans (refill_remaining f).1 (Nat.le_add_right _ _)
  · rw [if_neg drained]

/-- A byte that was read is no longer to come. -/
theorem read_byte_remaining (f : FileIo) :
    remaining f.read_byte.2 ≤ remaining f ∧ (f.read_byte.1.isSome → remaining f.read_byte.2 < remaining f) := by
  have shrinks := ahead_remaining f
  have filled : f.ahead.1 = true → f.ahead.2.rpos_ ≠ f.ahead.2.rlen_ := by
    unfold FileIo.ahead
    by_cases drained : f.rpos_ = f.rlen_
    · rw [if_pos drained]
      exact fun full => Nat.ne_of_lt ((refill_remaining f).2 full)
    · rw [if_neg drained]
      exact fun _ => drained
  unfold FileIo.read_byte
  generalize f.ahead = r at shrinks filled ⊢
  obtain ⟨full, g⟩ := r
  cases full with
  | false => exact ⟨shrinks, by simp⟩
  | true =>
    have more : g.rpos_ ≠ g.rlen_ := filled rfl
    dsimp only at shrinks ⊢
    have less : remaining { g with rpos_ := g.rpos_ + 1 } ≤ remaining g := by
      simp only [remaining, held]
      split <;> split <;> omega
    refine ⟨Nat.le_trans less shrinks, fun some => ?_⟩
    have inside : g.rpos_ < g.rbuf_.length := by simpa using some
    have fewer : remaining { g with rpos_ := g.rpos_ + 1 } < remaining g := by
      simp only [remaining, held]
      split <;> split <;> omega
    exact Nat.lt_of_lt_of_le fewer shrinks

theorem peek_byte_remaining (f : FileIo) : remaining f.peek_byte.2 ≤ remaining f := by
  have shrinks := ahead_remaining f
  unfold FileIo.peek_byte
  generalize f.ahead = r at shrinks ⊢
  obtain ⟨full, g⟩ := r
  cases full with
  | false => exact shrinks
  | true => exact shrinks

theorem read_step_remaining (step : Nat) (f : FileIo) : remaining (f.read_step step).2 ≤ remaining f := by
  have buffer : remaining { f with rpos_ := f.rpos_ + min step (f.rlen_ - f.rpos_) } ≤ remaining f := by
    simp only [remaining, held]
    split <;> split <;> omega
  unfold FileIo.read_step
  dsimp only
  split
  · refine Nat.le_trans ?_ buffer
    have pulled := pull_left (step - min step (f.rlen_ - f.rpos_))
      { f with rpos_ := f.rpos_ + min step (f.rlen_ - f.rpos_) }
    simp only [remaining]
    exact Nat.add_le_add_right (Nat.le_trans (Nat.le_add_left _ _) pulled) _
  · exact buffer

theorem read_steps_remaining (n : Nat) : ∀ (fuel : Nat) (vec : List UInt8) (f : FileIo),
    remaining (FileIo.read_steps n fuel vec f).2 ≤ remaining f := by
  intro fuel
  induction fuel with
  | zero =>
    intro vec f
    exact Nat.le_refl _
  | succ fuel ih =>
    intro vec f
    have stepped := read_step_remaining (min (n - vec.length) FileIo.READ_BUFFER_SIZE) f
    unfold FileIo.read_steps
    dsimp only
    split
    · split
      · exact stepped
      · exact Nat.le_trans (ih _ _) stepped
    · exact Nat.le_refl _

theorem read_chunk_remaining (n : Nat) (f : FileIo) : remaining (f.read_chunk n).2 ≤ remaining f := by
  unfold FileIo.read_chunk
  split
  · exact Nat.le_refl _
  · split
    · exact Nat.le_refl _
    · exact read_steps_remaining n n [] f

/-! ### The reader -/

/-- A method of the reader takes nothing back, and names what goes wrong. -/
def Draws {α : Type} (m : ReadM α) : Prop :=
  ∀ r, Reports m r (fun _ r' => remaining r'.in_ ≤ remaining r.in_) (· ≠ "")

section
variable {α γ : Type} {m : ReadM α} {f : α → ReadM γ}

theorem draws_pure (a : α) : Draws (pure a : ReadM α) := fun _ => reports_pure (Nat.le_refl _)

theorem draws_throw {message : String} (named : message ≠ "") : Draws (throw message : ReadM α) :=
  fun _ => reports_throw named

theorem draws_bind (first : Draws m) (second : ∀ a, Draws (f a)) : Draws (m >>= f) := by
  intro r
  refine reports_bind (first r) (fun _ named => named) ?_
  intro a r' le
  apply (second a r').mono ?_ (fun _ named => named)
  intro _ r'' le'
  exact Nat.le_trans le' le

end

theorem fail_if_draws (condition : Bool) {message : String} (named : message ≠ "") :
    Draws (DeltaReader.fail_if condition message) := by
  cases condition with
  | true => exact draws_throw named
  | false => exact draws_pure ()

theorem record_draws (item : Decoded) : Draws (DeltaReader.record item) := fun _ => reports_ok rfl (Nat.le_refl _)

theorem read_byte_draws : Draws DeltaReader.read_byte := fun r => reports_ok rfl (read_byte_remaining r.in_).1

theorem peek_byte_draws : Draws DeltaReader.peek_byte := fun r => reports_ok rfl (peek_byte_remaining r.in_)

theorem read_exact_draws (count : Nat) {message : String} (named : message ≠ "") :
    Draws (DeltaReader.read_exact count message) := by
  have chunk : Draws (DeltaReader.read_chunk count) := fun r => reports_ok rfl (read_chunk_remaining count r.in_)
  exact draws_bind chunk fun _ => draws_bind (fail_if_draws _ named) fun _ => draws_pure _

theorem at_diff_opcode_draws : Draws DeltaReader.at_diff_opcode := draws_bind peek_byte_draws fun _ => draws_pure _

theorem read_operands_draws (op : UInt8) : Draws (DeltaReader.read_operands op) := by
  refine draws_bind (read_exact_draws 4 (by decide)) (fun pos => ?_)
  by_cases delete : op = OP_DELETE
  · simp only [if_pos delete]
    exact draws_bind (read_exact_draws 4 (by decide)) fun _ => draws_pure _
  · simp only [if_neg delete]
    refine draws_bind read_byte_draws (fun count => ?_)
    cases count with
    | none => exact draws_throw (by decide)
    | some count => exact draws_bind (read_exact_draws _ (by decide)) fun _ => draws_pure _

/-- An opcode that was read has taken a byte at least. -/
theorem read_diff_opcode_takes (r : DeltaReader) :
    Reports DeltaReader.read_diff_opcode r (fun _ r' => remaining r'.in_ < remaining r.in_) (· ≠ "") := by
  have first : Reports DeltaReader.read_byte r (fun tag r' => tag.isSome → remaining r'.in_ < remaining r.in_)
      (· ≠ "") := reports_ok rfl (read_byte_remaining r.in_).2
  refine reports_bind first (fun _ named => named) ?_
  intro tag r₁ less
  cases tag with
  | none => exact reports_throw (by decide)
  | some tag =>
    have rest : Draws (do
        DeltaReader.fail_if (!is_diff_opcode (some tag)) "Truncated diff: missing opcode"
        let out ← DeltaReader.read_operands tag
        DeltaReader.record (.opcode out)
        pure out) :=
      draws_bind (fail_if_draws _ (by decide)) fun _ => draws_bind (read_operands_draws tag) fun _ =>
        draws_bind (record_draws _) fun _ => draws_pure _
    apply (rest r₁).mono ?_ (fun _ named => named)
    intro _ r' le
    exact Nat.lt_of_le_of_lt le (less rfl)

/-! ### The points of the loop -/

section
variable {U : StrongHash} {α : Type}

/-- The match copy in front of an opcode. -/
def match_copy (old_data : List UInt8) (target_size : Nat) (d : DiffState) (opcode : DiffOpcode) :
    Except String DiffState :=
  if opcode.pos.toNat < d.new_pos then .error "Diff position went backwards"
  else
    let match_len := opcode.pos.toNat - d.new_pos
    if match_len > size_sub old_data.length d.old_pos ∨ match_len > size_sub target_size d.output.length then
      .error "Diff out of bounds (match copy)"
    else
      .ok { old_pos := d.old_pos + match_len, new_pos := d.new_pos + match_len
            output := d.output ++ (old_data.drop d.old_pos).take match_len }

/-- The inline bytes of `D` and `I`. -/
def inline_write (target_size : Nat) (d : DiffState) (opcode : DiffOpcode) : Except String DiffState :=
  if opcode.op = OP_REPLACE ∨ opcode.op = OP_INSERT then
    if opcode.bytes.length > size_sub target_size d.output.length then .error "Diff out of bounds (inline write)"
    else .ok { d with new_pos := d.new_pos + opcode.bytes.length, output := d.output ++ opcode.bytes }
  else .ok d

/-- The old bytes that `D` and `X` pass over. -/
def old_advance (old_data : List UInt8) (d : DiffState) (opcode : DiffOpcode) : Except String DiffState :=
  if opcode.op = OP_REPLACE then
    if opcode.bytes.length > size_sub old_data.length d.old_pos then .error "Diff out of bounds (D advance)"
    else .ok { d with old_pos := d.old_pos + opcode.bytes.length }
  else if opcode.op = OP_INSERT then .ok d
  else if opcode.delete_length.toNat > size_sub old_data.length d.old_pos then .error "Diff out of bounds (X delete)"
  else .ok { d with old_pos := d.old_pos + opcode.delete_length.toNat }

/-- An opcode is these three steps. -/
theorem apply_opcode_eq (old_data : List UInt8) (target_size : Nat) (d : DiffState) (o : DiffOpcode) :
    Apply.apply_opcode old_data target_size d o = (do
      let d₁ ← match_copy old_data target_size d o
      let d₂ ← inline_write target_size d₁ o
      old_advance old_data d₂ o) := by
  unfold Apply.apply_opcode match_copy
  by_cases backwards : o.pos.toNat < d.new_pos
  · simp only [if_pos backwards]
    rfl
  · simp only [if_neg backwards]
    by_cases outside : o.pos.toNat - d.new_pos > size_sub old_data.length d.old_pos ∨
        o.pos.toNat - d.new_pos > size_sub target_size d.output.length
    · simp only [if_pos outside]
      rfl
    · simp only [if_neg outside]
      show _ = (inline_write _ _ o).bind _
      unfold inline_write
      by_cases inline : o.op = OP_REPLACE ∨ o.op = OP_INSERT
      · simp only [if_pos inline]
        split
        · rfl
        · show _ = old_advance _ _ o
          unfold old_advance
          by_cases replace : o.op = OP_REPLACE
          · simp only [if_pos replace]
          · simp only [if_neg replace, if_pos (inline.resolve_left replace)]
      · simp only [if_neg inline]
        show _ = old_advance _ _ o
        rw [not_or] at inline
        unfold old_advance
        simp only [if_neg inline.1, if_neg inline.2]

/-- The loop of `applyDiff`, entered in `s`, comes to its test with these
    opcodes seen, these locals and this state. -/
inductive Reached (data : List UInt8) (n : Nat) (s : ApplyState U) : Nat → DiffState → ApplyState U → Prop
  | entered : Reached data n s 0 {} s
  | again {seen : Nat} {d d' : DiffState} {s₁ s₂ s₃ : ApplyState U} {o : DiffOpcode} : Reached data n s seen d s₁ →
      Apply.reading Apply.category DeltaReader.at_diff_opcode s₁ = .ok true s₂ →
      Apply.reading Apply.category DeltaReader.read_diff_opcode s₂ = .ok o s₃ →
      Apply.apply_opcode data n d o = .ok d' → Reached data n s (seen + 1) d' s₃

/-- The locals between the steps of an opcode. -/
inductive Passes (data : List UInt8) (n : Nat) (d : DiffState) (o : DiffOpcode) : DiffState → Prop
  | copied {d₁ : DiffState} : match_copy data n d o = .ok d₁ → Passes data n d o d₁
  | written {d₁ d₂ : DiffState} : match_copy data n d o = .ok d₁ → inline_write n d₁ o = .ok d₂ → Passes data n d o d₂
  | advanced {d₁ d₂ d₃ : DiffState} : match_copy data n d o = .ok d₁ → inline_write n d₁ o = .ok d₂ →
      old_advance data d₂ o = .ok d₃ → Passes data n d o d₃

/-- The locals at any point of a run of `applyDiff` from the state `s`. -/
inductive Visited (data : List UInt8) (n : Nat) (s : ApplyState U) : DiffState → Prop
  | test {seen : Nat} {d : DiffState} {s₁ : ApplyState U} : Reached data n s seen d s₁ → Visited data n s d
  | within {seen : Nat} {d d' : DiffState} {s₁ s₂ s₃ : ApplyState U} {o : DiffOpcode} : Reached data n s seen d s₁ →
      Apply.reading Apply.category DeltaReader.at_diff_opcode s₁ = .ok true s₂ →
      Apply.reading Apply.category DeltaReader.read_diff_opcode s₂ = .ok o s₃ →
      Passes data n d o d' → Visited data n s d'

/-- The locals are within their bounds, and the subtractions at this point do
    not wrap. -/
structure Safe (data : List UInt8) (n : Nat) (d : DiffState) : Prop where
  placed : d.output.length = d.new_pos
  room : d.output.length ≤ n
  used : d.old_pos ≤ data.length
  target_left : size_sub n d.output.length + d.output.length = n
  old_left : size_sub data.length d.old_pos + d.old_pos = data.length

variable {data : List UInt8} {n : Nat} {d d' : DiffState} {o : DiffOpcode} {s : ApplyState U}

theorem patched_safe (patched : Patched data n d) : Safe data n d := by
  obtain ⟨placed, room, used⟩ := patched
  refine ⟨placed.symm, room, used, ?_, ?_⟩
  · rw [size_sub_eq room]
    exact Nat.sub_add_cancel room
  · rw [size_sub_eq used]
    exact Nat.sub_add_cancel used

theorem match_copy_patched (patched : Patched data n d) (copied : match_copy data n d o = .ok d') : Patched data n d' := by
  obtain ⟨placed, room, used⟩ := patched
  unfold match_copy at copied
  dsimp only at copied
  by_cases backwards : o.pos.toNat < d.new_pos
  · simp [if_pos backwards] at copied
  · rw [if_neg backwards, size_sub_eq used, size_sub_eq room] at copied
    split at copied
    · cases copied
    · next inside =>
      obtain rfl : _ = d' := by simpa using copied
      refine ⟨?_, ?_, ?_⟩
      all_goals
        simp only [List.length_append, List.length_take, List.length_drop]
        omega

theorem inline_write_patched (patched : Patched data n d) (wrote : inline_write n d o = .ok d') : Patched data n d' := by
  obtain ⟨placed, room, used⟩ := patched
  unfold inline_write at wrote
  rw [size_sub_eq room] at wrote
  split at wrote
  · split at wrote
    · cases wrote
    · obtain rfl : _ = d' := by simpa using wrote
      refine ⟨?_, ?_, used⟩
      all_goals
        simp only [List.length_append]
        omega
  · obtain rfl : d = d' := by simpa using wrote
    exact ⟨placed, room, used⟩

theorem old_advance_patched (patched : Patched data n d) (advanced : old_advance data d o = .ok d') :
    Patched data n d' := by
  obtain ⟨placed, room, used⟩ := patched
  unfold old_advance at advanced
  rw [size_sub_eq used] at advanced
  split at advanced
  · split at advanced
    · cases advanced
    · obtain rfl : _ = d' := by simpa using advanced
      exact ⟨placed, room, by show _ + _ ≤ _; omega⟩
  · split at advanced
    · obtain rfl : d = d' := by simpa using advanced
      exact ⟨placed, room, used⟩
    · split at advanced
      · cases advanced
      · obtain rfl : _ = d' := by simpa using advanced
        exact ⟨placed, room, by show _ + _ ≤ _; omega⟩

theorem passes_patched (patched : Patched data n d) (passes : Passes data n d o d') : Patched data n d' := by
  cases passes with
  | copied first => exact match_copy_patched patched first
  | written first second => exact inline_write_patched (match_copy_patched patched first) second
  | advanced first second third =>
    exact old_advance_patched (inline_write_patched (match_copy_patched patched first) second) third

theorem apply_opcode_patched (patched : Patched data n d) (went : Apply.apply_opcode data n d o = .ok d') :
    Patched data n d' := by
  have checks := apply_opcode_spec patched o
  rw [went] at checks
  exact checks.2

/-- At the test of the loop the locals are within their bounds. -/
theorem reached_patched {seen : Nat} {s₁ : ApplyState U} (reached : Reached data n s seen d s₁) : Patched data n d := by
  induction reached with
  | entered => exact patched_start data n
  | again _ _ _ went ih => exact apply_opcode_patched ih went

theorem visited_patched (visited : Visited data n s d) : Patched data n d := by
  cases visited with
  | test reached => exact reached_patched reached
  | within reached _ _ passes => exact passes_patched (reached_patched reached) passes

/-! ### Termination and errors -/

/-- An error that was set, by its category and its message. -/
def Announced (e : DeltaError) : Prop := e.message ≠ "" ∧ (e.code = .io_error ∨ e.code = .corrupt_delta)

theorem category_announced (r : DeltaReader) {message : String} (named : message ≠ "") :
    Announced ⟨Apply.category r, message⟩ := by
  refine ⟨named, ?_⟩
  unfold Apply.category
  split
  · exact .inl rfl
  · exact .inr rfl

theorem reading_reports {m : ReadM α} {good : α → DeltaReader → Prop} (reports : Reports m s.reader good (· ≠ "")) :
    Reports (Apply.reading Apply.category m) s (fun a s' => good a s'.reader) Announced := by
  cases run : m s.reader with
  | ok a r =>
    have ran : Apply.reading Apply.category m s = .ok a { s with reader := r } := by
      simp only [Apply.reading, run]
    exact reports_ok ran (reports.of_ok run)
  | error message r =>
    have ran : Apply.reading Apply.category m s = .error ⟨Apply.category r, message⟩ { s with reader := r } := by
      simp only [Apply.reading, run]
    exact reports_error ran (category_announced r (reports.of_error run))

theorem match_copy_named {message : String} (failed : match_copy data n d o = .error message) : message ≠ "" := by
  unfold match_copy at failed
  dsimp only at failed
  split at failed
  · obtain rfl : _ = message := by simpa using failed
    decide
  · split at failed
    · obtain rfl : _ = message := by simpa using failed
      decide
    · cases failed

theorem inline_write_named {message : String} (failed : inline_write n d o = .error message) : message ≠ "" := by
  unfold inline_write at failed
  split at failed
  · split at failed
    · obtain rfl : _ = message := by simpa using failed
      decide
    · cases failed
  · cases failed

theorem old_advance_named {message : String} (failed : old_advance data d o = .error message) : message ≠ "" := by
  unfold old_advance at failed
  split at failed
  · split at failed
    · obtain rfl : _ = message := by simpa using failed
      decide
    · cases failed
  · split at failed
    · cases failed
    · split at failed
      · obtain rfl : _ = message := by simpa using failed
        decide
      · cases failed

theorem apply_opcode_named {message : String} (failed : Apply.apply_opcode data n d o = .error message) : message ≠ "" := by
  rw [apply_opcode_eq] at failed
  cases first : match_copy data n d o with
  | error m =>
    rw [first] at failed
    obtain rfl : m = message := Except.error.inj failed
    exact match_copy_named first
  | ok d₁ =>
    rw [first] at failed
    change (inline_write n d₁ o >>= fun d₂ => old_advance data d₂ o) = .error message at failed
    cases second : inline_write n d₁ o with
    | error m =>
      rw [second] at failed
      obtain rfl : m = message := Except.error.inj failed
      exact inline_write_named second
    | ok d₂ =>
      rw [second] at failed
      exact old_advance_named failed

/-- Only a run without opcodes is refused at its end. -/
theorem finish_diff_reports (seen : Nat) (s : ApplyState U) :
    Reports (Apply.reading (fun _ => .corrupt_delta) (DeltaReader.finish_diff seen)) s (fun _ _ => True) Announced := by
  by_cases none : seen = 0
  · apply reports_error
    · simp [Apply.reading, DeltaReader.finish_diff, DeltaReader.fail_if, none]
      rfl
    · exact ⟨by decide, .inr rfl⟩
  · apply reports_ok
    · simp [Apply.reading, DeltaReader.finish_diff, DeltaReader.fail_if, none]
      rfl
    · trivial

/-- With more steps than there are bytes to come, the loop ends on its own. -/
theorem apply_opcodes_ends : ∀ (fuel seen : Nat) (d : DiffState) (s : ApplyState U), Patched data n d →
    remaining s.reader.in_ < fuel →
    Reports (Apply.apply_opcodes data n fuel seen d) s (fun d' _ => Patched data n d') Announced := by
  intro fuel
  induction fuel with
  | zero =>
    intro seen d s _ enough
    exact absurd enough (Nat.not_lt_zero _)
  | succ fuel ih =>
    intro seen d s patched enough
    unfold Apply.apply_opcodes
    refine reports_bind (reading_reports (at_diff_opcode_draws s.reader)) (fun _ announced => announced) ?_
    intro more s₁ le
    cases more with
    | false =>
      simp only [Bool.false_eq_true, if_false]
      apply reports_bind (finish_diff_reports seen s₁) (fun _ announced => announced)
      intro _ _ _
      exact reports_pure patched
    | true =>
      simp only [if_true]
      refine reports_bind (reading_reports (read_diff_opcode_takes s₁.reader)) (fun _ announced => announced) ?_
      intro o s₂ less
      cases went : Apply.apply_opcode data n d o with
      | error message => exact reports_throw ⟨apply_opcode_named went, .inr rfl⟩
      | ok d' => exact ih (seen + 1) d' s₂ (apply_opcode_patched patched went) (by omega)

/-- The loop reaches its test with at least one byte taken for each opcode. -/
theorem reached_takes {seen : Nat} {s₁ : ApplyState U} (reached : Reached data n s seen d s₁) :
    seen + remaining s₁.reader.in_ ≤ remaining s.reader.in_ := by
  induction reached with
  | entered => simp
  | again _ more read _ ih =>
    have le := (reading_reports (at_diff_opcode_draws _)).of_ok more
    have less := (reading_reports (read_diff_opcode_takes _)).of_ok read
    omega

/-- What is reached belongs to the run: the run goes on from there. -/
theorem reached_continues {seen fuel : Nat} {s₁ : ApplyState U} (reached : Reached data n s seen d s₁)
    (enough : remaining s.reader.in_ < fuel) :
    Apply.apply_opcodes data n fuel 0 {} s = Apply.apply_opcodes data n (fuel - seen) seen d s₁ := by
  induction reached with
  | entered => rfl
  | @again seen d d' s₁ s₂ s₃ o before more read went ih =>
    have taken := reached_takes before
    obtain ⟨k, count⟩ : ∃ k, fuel - seen = k + 1 := ⟨fuel - seen - 1, by omega⟩
    have next : fuel - (seen + 1) = k := by omega
    rw [ih, count, next, Apply.apply_opcodes, bind_ok more]
    simp only [if_true]
    rw [bind_ok read, went]
    rfl

/-- A tail copy that is made stays within the old data. -/
theorem copy_tail_inside (patched : Patched data n d) {output : List UInt8}
    (copied : Apply.copy_tail data n d = .ok output) : d.old_pos + (n - d.output.length) ≤ data.length := by
  obtain ⟨_, _, used⟩ := patched
  unfold Apply.copy_tail at copied
  dsimp only at copied
  rw [size_sub_eq used] at copied
  split at copied
  · split at copied
    · cases copied
    · omega
  · omega

theorem applyDiff_ends {fuel : Nat} (enough : remaining s.reader.in_ < fuel) :
    Reports (Apply.applyDiff fuel data n) s (fun output _ => output.length = n) Announced := by
  unfold Apply.applyDiff
  refine reports_bind (apply_opcodes_ends fuel 0 {} s (patched_start data n) enough) (fun _ announced => announced) ?_
  intro d s₁ patched
  have tail := copy_tail_spec patched
  cases copied : Apply.copy_tail data n d with
  | error message =>
    refine reports_throw ⟨?_, .inr rfl⟩
    unfold Apply.copy_tail at copied
    split at copied
    · dsimp only at copied
      split at copied
      · obtain rfl : _ = message := by simpa using copied
        show "Diff tail copy out of bounds" ≠ ""
        decide
      · cases copied
    · cases copied
  | ok output =>
    rw [copied] at tail
    show Reports (if output.length = n then _ else _) s₁ _ _
    rw [if_pos tail.2]
    exact reports_pure tail.2

/-- On every stream of bytes the interpreter stays within the old data and the
    target, ends, and either returns output of the target size or names what
    went wrong. -/
theorem interpreter_is_safe (data : List UInt8) (n : Nat) (s : ApplyState U) {fuel : Nat}
    (enough : remaining s.reader.in_ < fuel) :
    (∀ seen d s₁, Reached data n s seen d s₁ →
      Apply.apply_opcodes data n fuel 0 {} s = Apply.apply_opcodes data n (fuel - seen) seen d s₁) ∧
    (∀ d, Visited data n s d → Safe data n d ∧
      (∀ o d', match_copy data n d o = .ok d' → d.old_pos + (o.pos.toNat - d.new_pos) ≤ data.length) ∧
      ∀ output, Apply.copy_tail data n d = .ok output → d.old_pos + (n - d.output.length) ≤ data.length) ∧
    Reports (Apply.applyDiff fuel data n) s (fun output _ => output.length = n) Announced := by
  refine ⟨fun seen d s₁ reached => reached_continues reached enough, ?_, applyDiff_ends enough⟩
  intro d visited
  have patched := visited_patched visited
  refine ⟨patched_safe patched, ?_, fun output copied => copy_tail_inside patched copied⟩
  intro o d' copied
  have used := (match_copy_patched patched copied).used
  unfold match_copy at copied
  dsimp only at copied
  split at copied
  · cases copied
  · split at copied
    · cases copied
    · obtain rfl : _ = d' := by simpa using copied
      exact used

/-- A stream with one `I` opcode in front of the interpreter. -/
def oneInsert : ApplyState StrongHash.padded where
  old_file := {}
  reader := { in_ := { f_ := { opened := true, data := [OP_INSERT, 0, 0, 0, 0, 1, 7] }, readable_ := true },
              trailer_digest_size_ := 16 }
  transaction := {}
  system := { fs := .holding [] }
  whole_file_hash := StrongHash.padded.init

/-- `interpreter_is_safe` on that stream. -/
theorem interpreter_is_safe_insert :
    Reports (Apply.applyDiff 8 [] 1) oneInsert (fun output _ => output.length = 1) Announced :=
  (interpreter_is_safe [] 1 oneInsert (by decide)).2.2

end

end Roll.Interpreting
