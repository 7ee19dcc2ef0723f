import Roll.Calm

/-!
Positioned reads of a file that somebody may replace once.

A read that succeeds returns bytes of the content the file has then; the file
has the content it was signed with until it is replaced, and after that the
other one for good.
-/
namespace Roll.Swapping
open Roll.Cursor

/-! ### The stream -/

/-- The contents that the file of this stream is still given. -/
def replacements (s : FStream) : List (List UInt8) := s.events.filterMap (·.replaced)

/-- The file is not replaced any more, or it has the signed bytes and is replaced once. -/
def Swaps (signed : List UInt8) (s : FStream) : Prop :=
  replacements s = [] ∨ s.data = signed ∧ ∃ other, replacements s = [other]

/-- Of the two states of a stream, the file has the same bytes in both, or the signed
    ones in the first. -/
def Follows (signed : List UInt8) (s s' : FStream) : Prop := s'.data = s.data ∨ s.data = signed

variable {signed : List UInt8} {s s' s'' : FStream}

theorem follows_refl (s : FStream) : Follows signed s s := .inl rfl

theorem Follows.trans (first : Follows signed s s') (second : Follows signed s' s'') : Follows signed s s'' := by
  rcases first with same | before
  · rcases second with same' | before'
    · exact .inl (same'.trans same)
    · exact .inr (same ▸ before')
  · exact .inr before

/-- The signed bytes, or those that the file has and keeps. -/
def Version (signed v : List UInt8) (s : FStream) : Prop := v = signed ∨ s.data = v

theorem Version.follows {v : List UInt8} (version : Version signed v s) (follows : Follows signed s s') :
    Version signed v s' := by
  rcases version with before | here
  · exact .inl before
  · rcases follows with same | before
    · exact .inr (same.trans here)
    · exact .inl (here.symm.trans before)

theorem tick_swaps (swaps : Swaps signed s) : Swaps signed s.tick.2 ∧ Follows signed s s.tick.2 := by
  unfold FStream.tick
  cases events : s.events with
  | nil => exact ⟨swaps, follows_refl s⟩
  | cons e rest =>
    dsimp only
    cases changed : e.replaced with
    | none =>
      have same : replacements s = rest.filterMap (·.replaced) := by simp [replacements, events, changed]
      exact ⟨by unfold Swaps at swaps ⊢; rw [same] at swaps; exact swaps, .inl rfl⟩
    | some content =>
      have split : replacements s = content :: rest.filterMap (·.replaced) := by simp [replacements, events, changed]
      rcases swaps with none | ⟨before, other, once⟩
      · rw [split] at none
        cases none
      · rw [split] at once
        exact ⟨.inl (List.cons.inj once).2, .inr before⟩

theorem seekg_swaps (p : Nat) (swaps : Swaps signed s) : Swaps signed (s.seekg p) ∧ Follows signed s (s.seekg p) := by
  have swaps' : Swaps signed { s with eofbit := false } := swaps
  obtain ⟨ticked, follows⟩ := tick_swaps swaps'
  unfold FStream.seekg
  dsimp only
  by_cases failed : ({ s with eofbit := false } : FStream).fail = true
  · rw [if_pos failed]
    exact ⟨swaps', .inl rfl⟩
  · rw [if_neg failed]
    cases ({ s with eofbit := false } : FStream).tick.1.fault with
    | some j => exact ⟨ticked, follows⟩
    | none => exact ⟨ticked, follows⟩

/-- A read without error returns what the file then has. -/
theorem read_swaps (n : Nat) (swaps : Swaps signed s) : Swaps signed (s.read n).2 ∧ Follows signed s (s.read n).2 ∧
    (s.good = true → (s.read n).2.badbit = false → (s.read n).1 = ((s.read n).2.data.drop s.pos).take n) := by
  obtain ⟨ticked, follows⟩ := tick_swaps swaps
  have place : s.tick.2.pos = s.pos := by
    unfold FStream.tick
    split <;> rfl
  unfold FStream.read
  by_cases good : s.good = true
  · rw [if_neg (by simp [good])]
    dsimp only
    cases s.tick.2.stopsAt s.tick.1 n with
    | some j => exact ⟨ticked, follows, fun _ bad => by cases bad⟩
    | none => exact ⟨ticked, follows, fun _ _ => by rw [place]⟩
  · rw [if_pos (by simpa using good)]
    exact ⟨swaps, .inl rfl, fun impossible => absurd impossible good⟩

/-! ### The handle -/

variable {f f' f'' : FileIo} {calm : Prop}

/-- A handle that is only read, on a file that is replaced at most once; in calm it
    is not, and nothing fails. -/
structure Input (calm : Prop) (signed : List UInt8) (f : FileIo) : Prop where
  swaps : Swaps signed f.f_
  steady : calm → Steady signed f

theorem Input.content (input : Input calm signed f) (holds : calm) : f.f_.data = signed := (input.steady holds).stream.data

theorem steady_input (steady : Steady signed f) : Input calm signed f where
  swaps := .inl (by rw [replacements, steady.stream.events]; rfl)
  steady _ := steady

/-- What a handle went through: its file, the strings it returned, and the size taken at open. -/
structure Onward (signed : List UInt8) (f f' : FileIo) : Prop where
  follows : Follows signed f.f_ f'.f_
  seen : ∀ d ∈ f.seen, d ∈ f'.seen
  size : f'.size_ = f.size_

theorem onward_refl (f : FileIo) : Onward signed f f := ⟨follows_refl f.f_, fun _ member => member, rfl⟩

theorem Onward.trans (first : Onward signed f f') (second : Onward signed f' f'') : Onward signed f f'' :=
  ⟨first.follows.trans second.follows, fun d member => second.seen d (first.seen d member), second.size.trans first.size⟩

/-- A read that fits the buffer is one read of the stream. -/
theorem read_chunk_once {n : Nat} (some : 0 < n) (small : n ≤ FileIo.READ_BUFFER_SIZE) (opened : f.f_.opened = true)
    (readable : f.readable_ = true) (quiet : f.io_error_ = false) (drained : f.rpos_ = f.rlen_) :
    f.read_chunk n = ((f.pull n).1, { (f.pull n).2 with seen := f.seen ++ [(f.pull n).1] }) := by
  have stepped : f.read_step n = f.pull n := by
    have none : min n (f.rlen_ - f.rpos_) = 0 := by omega
    have same : { f with rpos_ := f.rpos_ + 0 } = f := rfl
    unfold FileIo.read_step
    simp only [none]
    rw [if_pos some, same, Nat.sub_zero, List.take_zero]
    rfl
  obtain ⟨m, rfl⟩ : ∃ m, n = m + 1 := ⟨n - 1, by omega⟩
  have looped : FileIo.read_steps (m + 1) (m + 1) [] f = f.pull (m + 1) := by
    unfold FileIo.read_steps
    simp only [List.length_nil, Nat.sub_zero, if_pos (Nat.succ_pos m), Nat.min_eq_left small, stepped, List.nil_append]
    split
    · rfl
    · next whole =>
      cases m with
      | zero => rfl
      | succ m =>
        unfold FileIo.read_steps
        simp only [Bool.or_eq_true, decide_eq_true_eq, not_or] at whole
        rw [if_neg whole.1]
  unfold FileIo.read_chunk
  rw [if_neg (by omega), if_neg (by simp [opened, readable, quiet]), looped]
  rfl

/-- A positioned read is refused, fails to find its position, or reads from there on. -/
theorem read_chunk_at_cases (f : FileIo) (n p : Nat) :
    f.read_chunk_at n p = ([], { f.discard_read_buffer with io_error_ := true }) ∨
    f.read_chunk_at n p = ([], { f.discard_read_buffer with f_ := f.f_.clear.seekg p, io_error_ := true }) ∨
    (f.f_.opened = true ∧ f.readable_ = true ∧ f.io_error_ = false ∧ p ≤ STREAMOFF_MAX ∧
      (f.f_.clear.seekg p).fail = false ∧
      f.read_chunk_at n p = FileIo.read_chunk n { f.discard_read_buffer with f_ := f.f_.clear.seekg p }) := by
  unfold FileIo.read_chunk_at
  dsimp only
  split
  · exact .inl rfl
  · next accepted =>
    simp only [FileIo.discard_read_buffer, Bool.or_eq_true, Bool.not_eq_true', decide_eq_true_eq, not_or,
      Bool.not_eq_false, Bool.not_eq_true, Nat.not_lt, gt_iff_lt] at accepted
    obtain ⟨⟨⟨opened, readable⟩, quiet⟩, fits⟩ := accepted
    split
    · exact .inr (.inl rfl)
    · next found => exact .inr (.inr ⟨opened, readable, quiet, fits, Bool.eq_false_iff.mpr found, rfl⟩)

/-- A cleared stream that finds its position is good there. -/
theorem seekg_cleared (p : Nat) (s : FStream) : (s.clear.seekg p).opened = s.opened ∧
    ((s.clear.seekg p).fail = false → (s.clear.seekg p).good = true ∧ (s.clear.seekg p).pos = p) := by
  unfold FStream.seekg FStream.clear FStream.tick
  cases s.events with
  | nil => exact ⟨rfl, fun _ => ⟨rfl, rfl⟩⟩
  | cons e rest =>
    simp only [FStream.fail, Bool.or_self, Bool.false_eq_true, if_false]
    cases e.fault with
    | some j => exact ⟨rfl, fun impossible => by cases impossible⟩
    | none => exact ⟨rfl, fun _ => ⟨rfl, rfl⟩⟩

/-- A positioned read goes to the stream twice, for the position and for the bytes. -/
theorem read_chunk_at_stream {n : Nat} (some : 0 < n) (small : n ≤ FileIo.READ_BUFFER_SIZE) (p : Nat)
    (swaps : Swaps signed f.f_) :
    Swaps signed (f.read_chunk_at n p).2.f_ ∧ Follows signed f.f_ (f.read_chunk_at n p).2.f_ ∧
      (∀ d ∈ f.seen, d ∈ (f.read_chunk_at n p).2.seen) ∧
      ((f.read_chunk_at n p).2.io_error_ = false → p ≤ STREAMOFF_MAX ∧
        (f.read_chunk_at n p).1 = ((f.read_chunk_at n p).2.f_.data.drop p).take n ∧
        (f.read_chunk_at n p).1 ∈ (f.read_chunk_at n p).2.seen) := by
  have swaps' : Swaps signed f.f_.clear := swaps
  obtain ⟨sought, follows⟩ := seekg_swaps p swaps'
  obtain ⟨kept, placed⟩ := seekg_cleared p f.f_
  rcases read_chunk_at_cases f n p with refused | lost | ⟨opened, readable, quiet, fits, found, ran⟩
  · rw [refused]
    exact ⟨swaps, follows_refl _, fun _ member => member, fun impossible => by cases impossible⟩
  · rw [lost]
    exact ⟨sought, follows, fun _ member => member, fun impossible => by cases impossible⟩
  · set g : FileIo := { f.discard_read_buffer with f_ := f.f_.clear.seekg p } with gIs
    have once : g.read_chunk n = ((g.pull n).1, { (g.pull n).2 with seen := f.seen ++ [(g.pull n).1] }) :=
      read_chunk_once some small (kept.trans opened) readable quiet rfl
    obtain ⟨good, place⟩ := placed found
    obtain ⟨pulled, follows', bytes⟩ := read_swaps n sought
    rw [ran, once]
    refine ⟨pulled, follows.trans follows', fun d member => List.mem_append_left _ member, fun flawless => ?_⟩
    have unharmed : ((f.f_.clear.seekg p).read n).2.badbit = false := (Bool.or_eq_false_iff.mp flawless).1
    have read := bytes good unharmed
    rw [place] at read
    exact ⟨fits, read, List.mem_append_right _ (List.mem_singleton_self _)⟩

/-- A positioned read keeps the handle an input; without an error it returns what the
    file then has there, and it is listed. -/
theorem read_chunk_at_input {n : Nat} (some : 0 < n) (small : n ≤ FileIo.READ_BUFFER_SIZE) {p : Nat}
    (fits : calm → p ≤ STREAMOFF_MAX) (input : Input calm signed f) :
    Input calm signed (f.read_chunk_at n p).2 ∧ Onward signed f (f.read_chunk_at n p).2 ∧
      ((f.read_chunk_at n p).2.io_error_ = false → p ≤ STREAMOFF_MAX ∧
        (f.read_chunk_at n p).1 = ((f.read_chunk_at n p).2.f_.data.drop p).take n ∧
        (f.read_chunk_at n p).1 ∈ (f.read_chunk_at n p).2.seen) := by
  obtain ⟨swaps, follows, seen, read⟩ := read_chunk_at_stream some small p input.swaps
  have steady : calm → Steady signed (f.read_chunk_at n p).2 := fun holds =>
    (read_chunk_at_spec (input.steady holds) n (fits holds)).2.steady
  exact ⟨⟨swaps, steady⟩, ⟨follows, seen, read_chunk_at_size n p f⟩, read⟩

theorem close_seen (f : FileIo) : f.close.2.seen = f.seen := by
  unfold FileIo.close
  dsimp only
  split <;> rfl

/-! ### Opening -/

variable {env : Environment} {sys sys' : System} {p : Path}

/-- The file at this path has the signed bytes or others, and from then on it is
    replaced at most once, and not if it has others. -/
def Replaced (env : Environment) (sys : System) (p : Path) (signed : List UInt8) : Prop :=
  ∃ content, sys.Holds env p content ∧ Swaps signed { data := content, events := (env.media p).events }

theorem replaced_later (clock : Nat) (replaced : Replaced env sys p signed) :
    Replaced env (Calm.later sys clock) p signed := replaced

/-- The stream of a file that was opened, with whatever happened to it by then. -/
theorem open_in_ticked {content : List UInt8} (holds : sys.Holds env p content)
    (opened : FileIo.open_in env p sys = (true, f, sys')) :
    f.f_ = ({ opened := true, data := content, badFrom := (env.media p).badFrom
              handsOver := (env.media p).handsOver, events := (env.media p).events } : FStream).tick.2 := by
  obtain ⟨inode, leads, data⟩ := holds
  simp only [FileIo.open_in, System.status, System.call] at opened
  cases first : env.faults sys.clock with
  | some message => simp [first] at opened
  | none =>
    cases second : env.faults (sys.clock + 1) with
    | some message => simp [first, leads, second] at opened
    | none =>
      simp only [first, leads, second, data] at opened
      generalize FStream.tick _ = r at opened ⊢
      obtain ⟨e, s₁⟩ := r
      dsimp only at opened
      split at opened
      · cases opened
      · rw [← (Prod.mk.inj (Prod.mk.inj opened).2).1]

theorem open_in_swaps (replaced : Replaced env sys p signed) (opened : FileIo.open_in env p sys = (true, f, sys')) :
    Swaps signed f.f_ := by
  obtain ⟨content, holds, swaps⟩ := replaced
  have swaps' : Swaps signed { opened := true, data := content, badFrom := (env.media p).badFrom
                               handsOver := (env.media p).handsOver, events := (env.media p).events } := swaps
  rw [open_in_ticked holds opened]
  exact (tick_swaps swaps').1

/-! ### Files that nobody replaces -/

/-- A handle on a file that has these bytes and keeps them; its operations may fail. -/
structure Unreplaced (content : List UInt8) (f : FileIo) : Prop where
  data : f.f_.data = content
  never : replacements f.f_ = []

theorem unreplaced_swaps {content : List UInt8} (data : s.data = content) (follows : Follows (0 :: content) s s')
    (swaps : Swaps (0 :: content) s') : s'.data = content ∧ replacements s' = [] := by
  -- Of a signed content that the file never had, both properties say that nothing happened.
  have same : s'.data = content := by
    rcases follows with same | before
    · exact same.trans data
    · simp [data] at before
  refine ⟨same, swaps.resolve_right fun swapped => ?_⟩
  simp [same] at swapped

/-- A positioned read leaves it so, and without an error it returns what is there. -/
theorem read_chunk_at_unreplaced {content : List UInt8} (unreplaced : Unreplaced content f) {n : Nat} (some : 0 < n)
    (small : n ≤ FileIo.READ_BUFFER_SIZE) (p : Nat) : Unreplaced content (f.read_chunk_at n p).2 ∧
      ((f.read_chunk_at n p).2.io_error_ = false → (f.read_chunk_at n p).1 = (content.drop p).take n) := by
  have otherwise : Swaps (0 :: content) f.f_ := .inl unreplaced.never
  obtain ⟨swaps, follows, _, read⟩ := read_chunk_at_stream some small p otherwise
  obtain ⟨data, never⟩ := unreplaced_swaps unreplaced.data follows swaps
  refine ⟨⟨data, never⟩, fun quiet => ?_⟩
  rw [(read quiet).2.1, data]

/-- The file at this path has these bytes, and nobody replaces it. -/
def Lasting (env : Environment) (sys : System) (p : Path) (content : List UInt8) : Prop :=
  sys.Holds env p content ∧ ∀ e ∈ (env.media p).events, e.replaced = none

theorem open_in_unreplaced {content : List UInt8} (lasting : Lasting env sys p content)
    (opened : FileIo.open_in env p sys = (true, f, sys')) : Unreplaced content f := by
  obtain ⟨holds, alone⟩ := lasting
  set s : FStream := { opened := true, data := content, badFrom := (env.media p).badFrom
                       handsOver := (env.media p).handsOver, events := (env.media p).events } with sIs
  have never : replacements s = [] := by
    rw [replacements, List.filterMap_eq_nil_iff]
    exact alone
  have ticked : f.f_ = s.tick.2 := open_in_ticked holds opened
  have otherwise : Swaps (0 :: content) s := .inl never
  obtain ⟨swaps, follows⟩ := tick_swaps otherwise
  rw [← ticked] at swaps follows
  obtain ⟨data, never'⟩ := unreplaced_swaps rfl follows swaps
  exact ⟨data, never'⟩

end Roll.Swapping
