import Roll.Cursor
import Roll.FileSystem

/-!
Opening files: where no system call fails, and what stays in any case.
-/
namespace Roll

/-- No system call fails. -/
def Environment.Quiet (env : Environment) : Prop := ∀ n, env.faults n = none

/-- The path leads to a file of these bytes. -/
def System.Holds (env : Environment) (s : System) (p : Path) (content : List UInt8) : Prop :=
  ∃ inode, s.fs.lookup (env.locate p) = .at (.file inode) ∧ s.fs.data inode = .bytes content

/-- A handle that was just opened on these bytes. -/
def FileIo.opened (content : List UInt8) (badFrom : Option Nat) (handsOver : Bool) : FileIo :=
  { f_ := { opened := true, data := content, badFrom, handsOver }, size_ := content.length, readable_ := true }

namespace Calm
open Roll.Cursor

variable {env : Environment} {content : List UInt8}

/-- A quiet system call only takes time. -/
theorem call_quiet (quiet : env.Quiet) (s : System) : s.call env = (none, { s with clock := s.clock + 1 }) := by
  simp [System.call, quiet s.clock]

theorem status_quiet (quiet : env.Quiet) (s : System) (p : Path) :
    s.status env p = (match s.fs.lookup (env.locate p) with
      | .missing => .ok none
      | .looping => .error "Too many levels of symbolic links"
      | .at node => .ok (some node), { s with clock := s.clock + 1 }) := by
  rw [System.status, call_quiet quiet]
  simp only
  cases s.fs.lookup (env.locate p) <;> rfl

theorem open_in_quiet (quiet : env.Quiet) {s : System} {p : Path} (holds : s.Holds env p content)
    (still : (env.media p).events = []) :
    FileIo.open_in env p s =
      (true, FileIo.opened content (env.media p).badFrom (env.media p).handsOver, { s with clock := s.clock + 2 }) := by
  obtain ⟨inode, leads, data⟩ := holds
  simp only [FileIo.open_in, status_quiet quiet, leads, call_quiet quiet, data, FStream.tick, still]
  rfl

/-- Only time has passed. -/
def later (s : System) (clock : Nat) : System := { s with clock }

def Untouched (s s' : System) : Prop := ∃ clock, s' = later s clock

theorem untouched_refl (s : System) : Untouched s s := ⟨s.clock, rfl⟩

theorem untouched_later (s : System) (clock : Nat) : Untouched s (later s clock) := ⟨clock, rfl⟩

theorem Untouched.fs {s s' : System} : Untouched s s' → s'.fs = s.fs := by
  rintro ⟨clock, rfl⟩
  rfl

theorem Untouched.trans {s s' s'' : System} : Untouched s s' → Untouched s' s'' → Untouched s s'' := by
  rintro ⟨clock, rfl⟩ ⟨clock', rfl⟩
  exact ⟨clock', rfl⟩

theorem call_untouched (env : Environment) (s : System) : Untouched s (s.call env).2 := ⟨_, rfl⟩

theorem status_untouched (env : Environment) (p : Path) (s : System) : Untouched s (s.status env p).2 := by
  have called := call_untouched env s
  unfold System.status
  generalize s.call env = r at called ⊢
  obtain ⟨failed, s₁⟩ := r
  cases failed with
  | some message => exact called
  | none =>
    dsimp only
    split <;> exact called

/-- Opening a file to read it changes no file, and the handle is on what the
    file holds. -/
theorem open_in_untouched (env : Environment) (p : Path) (s : System) : Untouched s (FileIo.open_in env p s).2.2 := by
  have looked := status_untouched env p s
  unfold FileIo.open_in
  generalize s.status env p = r at looked ⊢
  obtain ⟨found, s₁⟩ := r
  have called : Untouched s (s₁.call env).2 := Untouched.trans looked (call_untouched env s₁)
  rcases found with message | _ | node
  · exact looked
  · exact looked
  · cases node with
    | file inode =>
      dsimp only
      generalize s₁.call env = r at called ⊢
      obtain ⟨failed, s₂⟩ := r
      cases failed with
      | some message => exact called
      | none =>
        dsimp only
        split <;> split <;> exact called
    | directory => exact looked
    | other => exact looked
    | link target => exact looked

theorem open_in_holds {s s' : System} {p : Path} {f : FileIo} (holds : s.Holds env p content) (calm : env.media p = {})
    (opened : FileIo.open_in env p s = (true, f, s')) : f = FileIo.opened content none true := by
  obtain ⟨inode, leads, data⟩ := holds
  simp only [FileIo.open_in, System.status, System.call] at opened
  cases first : env.faults s.clock with
  | some message => simp [first] at opened
  | none =>
    cases second : env.faults (s.clock + 1) with
    | some message => simp [first, leads, second] at opened
    | none =>
      simp only [first, leads, second, data, calm, FStream.tick] at opened
      exact (Prod.mk.inj (Prod.mk.inj opened).2).1.symm

theorem opened_feeds (handsOver : Bool) : Feeds content (FileIo.opened content none handsOver) content false where
  stream := ⟨rfl, rfl, rfl, by simp [FileIo.opened]⟩
  readable := rfl
  window := ⟨Nat.le_refl _, Nat.zero_le _⟩
  flags _ := ⟨rfl, by simp [FileIo.opened], by simp [FileIo.opened]⟩
  rest := rfl
  calm _ := rfl

theorem opened_faulty (handsOver : Bool) {k : Nat} (le : k ≤ content.length) :
    Feeds content (FileIo.opened content (some k) handsOver) content true where
  stream := ⟨rfl, rfl, rfl, by simpa [FileIo.opened] using le⟩
  readable := rfl
  window := ⟨Nat.le_refl _, Nat.zero_le _⟩
  flags _ := ⟨rfl, by simp [FileIo.opened], by simp [FileIo.opened]⟩
  rest := rfl
  calm := by simp

end Calm

end Roll
