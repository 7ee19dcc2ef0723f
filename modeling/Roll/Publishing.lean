import Roll.Documents
import Roll.Refinement
import Roll.Tracking

/-!
What others see of the outputs, over any interleaving of the steps of any
number of transactions and of signals.

A transaction composes a text and places it, as a whole, at its destination:
the registry refines a shelf of documents. Names that are those of staged files
are not looked at, and no destination may have one.
-/
namespace Roll.Publishing
open Roll.Parsing Roll.Outcome Roll.Calm Roll.Cursor Roll.Staging Roll.Stepping Roll.Tracking
open Roll.Refinement (Machine Refines)
open Roll.Documents (Shelf)

/-- A name that staged files have. -/
def staged_name (n : Name) : Bool := ".rolling_hash-".toList.isPrefixOf n.2.toList

/-- What is found at a name. -/
inductive Entry
  | file (data : FileData)
  | directory
  | other
  | link (target : Name)
deriving DecidableEq, Repr

def Entry.of (data : Nat → FileData) : Node → Entry
  | .file inode => .file (data inode)
  | .directory => .directory
  | .other => .other
  | .link target => .link target

def entry (fs : FileSystem) (n : Name) : Option Entry := (fs.names n).map (.of fs.data)

section
variable {ι : Type}

/-- The events of a step: a text is begun with the destination, what is written
    to an idle transaction is added, and the rename places it. -/
def events (env : Environment) (r : Registry ι) : Action ι → List (Documents.Event ι Name UInt8)
  | .open_ i _ _ => match r.objects i with
    | some ⟨t, .idle _⟩ => if t.destination_.empty then [.begun i] else []
    | _ => []
  | .write i chunk => match r.objects i with
    | some ⟨_, .idle _⟩ => [.added i chunk]
    | _ => []
  | .advance i => match r.objects i with
    | some ⟨t, .replacing temporary⟩ =>
      if (r.system.rename env temporary t.destination_).1.isNone then [.placed i (env.locate t.destination_)] else []
    | _ => []
  | _ => []

end

/-! ### One transaction -/

/-- The staged file of a transaction that has composed this text: as long as no
    operation on the handle fails, the text is what the file holds once it is closed. -/
structure Drafted (env : Environment) (t : OutputTransaction) (fs : FileSystem) (text : List UInt8) (p : Path) : Prop where
  hidden : staged_name (env.locate p) = true
  used : t.inode_ < fs.next
  leads : ∀ node, fs.names (env.locate p) = some node → node = .file t.inode_
  stores : t.file_.is_open = true → Stores text t.file_
  stored : t.file_.is_open = false → t.file_.io_error_ = false → fs.data t.inode_ = .bytes text

/-- A method has yet to stage the file. -/
def Beginning : Phase → Prop
  | .inspecting .staging => True
  | .comparing .staging _ => True
  | .naming _ => True
  | .creating _ _ => True
  | .looking _ _ => True
  | _ => False

/-- A commit has closed the handle. -/
def Closed : Phase → Prop
  | .syncing _ => True
  | .inspecting (.replacing _) => True
  | .comparing (.replacing _) _ => True
  | .replacing _ => True
  | .releasing => True
  | .clearing => True
  | _ => False

/-- The invariant of one transaction and the text that it has composed. -/
structure Held (env : Environment) (o : TransactionObject) (fs : FileSystem) (text : List UInt8) : Prop where
  apart : staged_name (env.locate o.transaction.destination_) = false
  unstaged : o.transaction.temporary_ = none → o.transaction.file_.is_open = false
  fresh : Beginning o.phase → text = []
  drafted : ∀ p, o.transaction.temporary_ = some p → Drafted env o.transaction fs text p
  closed : Closed o.phase → o.transaction.file_.is_open = false ∧ o.transaction.file_.io_error_ = false

/-- What a step of one transaction, apart from the slots and the rename, leaves of
    the files: the names change at its own candidate and at its own staged path, and
    the data of its own file that is open. -/
structure Works (env : Environment) (o : TransactionObject) (s : System) (o' : TransactionObject) (s' : System) : Prop where
  names : ∀ n, s'.fs.names n = s.fs.names n ∨
    (s'.fs.names n = none ∧ ∃ p, o.transaction.temporary_ = some p ∧ n = env.locate p) ∨
    ∃ p, chosen o.phase = some p ∧ n = env.locate p
  data : ∀ k, s'.fs.data k = s.fs.data k ∨ k = o.transaction.inode_ ∧ o.transaction.file_.is_open = true ∨ s.fs.next ≤ k
  next : s.fs.next ≤ s'.fs.next
  inode : o'.transaction.temporary_ ≠ none → o'.transaction.inode_ = o.transaction.inode_ ∧
      o.transaction.temporary_ ≠ none ∨ o'.transaction.inode_ = s.fs.next ∧ s.fs.next < s'.fs.next
  opens : o'.transaction.file_.is_open = true → o'.transaction.inode_ = o.transaction.inode_ ∧
      o.transaction.file_.is_open = true ∨ o'.transaction.inode_ = s.fs.next

variable {env : Environment} {o o' : TransactionObject} {t t' : OutputTransaction} {s s' : System} {phase phase' : Phase}
  {text text' : List UInt8} {α : Type}

/-- What a step may see or change of a transaction and of the files. -/
def filing (q : OutputTransaction × System) :
    Path × Option Path × Nat × FileIo × (Name → Option Node) × (Nat → FileData) × Nat :=
  (q.1.destination_, q.1.temporary_, q.1.inode_, q.1.file_, q.2.fs.names, q.2.fs.data, q.2.fs.next)

theorem idle_filing {m : OutputM α} (idle : Idle m) : Frames filing m := idle.frames fun _ _ _ => rfl

/-- A step after which the files are as they were. -/
theorem works_filing (same : filing (t', s') = filing (t, s)) : Works env ⟨t, phase⟩ s ⟨t', phase'⟩ s' := by
  simp only [filing, Prod.mk.injEq] at same
  obtain ⟨destination, temporary, inode, file, names, data, next⟩ := same
  refine ⟨fun n => .inl (congrFun names n), fun k => .inl (congrFun data k), Nat.le_of_eq next.symm, ?_, ?_⟩
  · intro staged
    exact .inl ⟨inode, fun nothing => staged (temporary.trans nothing)⟩
  · intro opened
    refine .inl ⟨inode, ?_⟩
    rw [← show t'.file_ = t.file_ from file]
    exact opened

theorem held_filing (same : filing (t', s') = filing (t, s)) (fresh : Beginning phase' → text = [])
    (closed : Closed phase' → t.file_.is_open = false ∧ t.file_.io_error_ = false)
    (held : Held env ⟨t, phase⟩ s.fs text) : Held env ⟨t', phase'⟩ s'.fs text := by
  simp only [filing, Prod.mk.injEq] at same
  obtain ⟨destination, temporary, inode, file, names, data, next⟩ := same
  obtain ⟨apart, unstaged, _, drafted, _⟩ := held
  refine ⟨?_, ?_, fresh, ?_, ?_⟩
  · simpa only [destination] using apart
  · simpa only [temporary, file] using unstaged
  · intro p staged
    obtain ⟨hidden, used, leads, stores, stored⟩ := drafted p (temporary.symm.trans staged)
    exact ⟨hidden, by simpa only [inode, next] using used, by simpa only [names, inode] using leads,
      by simpa only [file] using stores, by simpa only [file, inode, data] using stored⟩
  · intro sealing
    simpa only [file] using closed sealing

/-- A part that leaves the files as they were. -/
theorem part_filing {m : OutputM α} {f : α → Phase} (frames : Frames filing m) :
    Works env ⟨t, phase⟩ s (TransactionObject.part m f t s).1 (TransactionObject.part m f t s).2 := by
  have same := frames (t, s)
  unfold TransactionObject.part
  cases run : m (t, s) with
  | ok a q =>
    rw [run] at same
    exact works_filing same
  | error e q =>
    rw [run] at same
    exact works_filing same

theorem part_held {m : OutputM α} {f : α → Phase} (frames : Frames filing m)
    (fresh : ∀ a, Beginning (f a) → text = [])
    (closed : ∀ a, Closed (f a) → t.file_.is_open = false ∧ t.file_.io_error_ = false)
    (held : Held env ⟨t, phase⟩ s.fs text) :
    Held env (TransactionObject.part m f t s).1 (TransactionObject.part m f t s).2.fs text := by
  have same := frames (t, s)
  unfold TransactionObject.part
  cases run : m (t, s) with
  | ok a q =>
    rw [run] at same
    exact held_filing same (fresh a) (closed a) held
  | error e q =>
    rw [run] at same
    exact held_filing same (fun impossible => impossible.elim) (fun impossible => impossible.elim) held

theorem permissions_files (env : Environment) (p : Path) (mode : Nat) (s : System) :
    (s.permissions env p mode).2.fs.names = s.fs.names ∧ (s.permissions env p mode).2.fs.data = s.fs.data ∧
      (s.permissions env p mode).2.fs.next = s.fs.next := by
  unfold System.permissions System.call
  cases env.faults s.clock with
  | some message => exact ⟨rfl, rfl, rfl⟩
  | none =>
    dsimp only
    cases s.fs.lookup (env.locate p) with
    | missing => exact ⟨rfl, rfl, rfl⟩
    | looping => exact ⟨rfl, rfl, rfl⟩
    | «at» node => cases node <;> exact ⟨rfl, rfl, rfl⟩

theorem copyPermissions_filing (env : Environment) : Frames filing (OutputTransaction.copyPermissions env) := by
  rintro ⟨t, s⟩
  have looked := status_untouched env t.destination_ s
  unfold OutputTransaction.copyPermissions
  dsimp only
  generalize s.status env t.destination_ = r at looked ⊢
  obtain ⟨result, s₁⟩ := r
  obtain ⟨clock, rfl⟩ := looked
  rcases result with message | _ | node
  · rfl
  · rfl
  · cases node with
    | file inode =>
      cases t.temporary_ with
      | none => rfl
      | some p =>
        obtain ⟨names, data, next⟩ := permissions_files env p ((later s clock).fs.permissions inode) (later s clock)
        dsimp only
        generalize (later s clock).permissions env p ((later s clock).fs.permissions inode) = r at names data next ⊢
        obtain ⟨failed, s₂⟩ := r
        have same : filing (t, s₂) = filing (t, s) := by
          dsimp only at names data next
          simp [filing, names, data, next, later]
        cases failed with
        | ok _ => exact same
        | error message => exact same
    | directory => rfl
    | other => rfl
    | link target => rfl

/-! ### Writing and closing -/

/-- A closed handle takes nothing: what it is given is empty, or sets the sticky error. -/
theorem write_shut {f : FileIo} (shut : f.is_open = false) (chunk : List UInt8) :
    (f.write_chunk chunk).2.is_open = false ∧
      ((f.write_chunk chunk).2.io_error_ = false → chunk = [] ∧ f.io_error_ = false) := by
  have unread : f.unread_buffer.f_.opened = false ∧ (f.io_error_ = true → f.unread_buffer.io_error_ = true) := by
    unfold FileIo.unread_buffer
    dsimp only
    split
    · refine ⟨?_, fun failed => by simp [FileIo.discard_read_buffer, failed]⟩
      have same : ∀ (st : FStream) (n : Nat), (st.seekg n).opened = st.opened := by
        intro st n
        unfold FStream.seekg FStream.tick
        dsimp only
        split
        · rfl
        · split <;> split <;> rfl
      exact (same _ _).trans shut
    · exact ⟨shut, fun failed => by simp [FileIo.discard_read_buffer, failed]⟩
  have stream : ∀ (st : FStream), st.opened = false → (st.write chunk).opened = false ∧
      ((st.write chunk).good = true → chunk = []) := by
    intro st closed
    unfold FStream.write
    by_cases good : st.good = true
    · rw [if_neg (by simp [good]), if_pos (by simp [closed])]
      refine ⟨closed, ?_⟩
      intro still
      simp only [FStream.good, Bool.and_eq_true, Bool.not_not] at still
      exact List.isEmpty_iff.mp still.2
    · rw [if_pos (by simpa using good)]
      exact ⟨closed, fun still => by simp [FStream.good] at still⟩
  unfold FileIo.write_chunk
  by_cases failed : f.io_error_ = true
  · rw [if_pos failed]
    exact ⟨shut, fun fine => by simp [failed] at fine⟩
  · rw [if_neg failed]
    dsimp only
    split
    · exact ⟨unread.1, fun fine => by simp at fine⟩
    · obtain ⟨closed, nothing⟩ := stream _ unread.1
      split
      · next bad =>
        exact ⟨closed, fun fine => absurd bad (by simpa using fine)⟩
      · next fine =>
        have good : (f.unread_buffer.f_.write chunk).good = true := by simpa using fine
        split
        · exact ⟨closed, fun _ => ⟨nothing good, by simpa using failed⟩⟩
        · split
          · exact ⟨closed, fun _ => ⟨nothing good, by simpa using failed⟩⟩
          · exact ⟨closed, fun fine => by simp at fine⟩

/-- A closed handle, on a file that holds the text unless an operation failed. -/
theorem held_shut {f : FileIo} (shut : f.is_open = false) (names : s'.fs.names = s.fs.names)
    (next : s'.fs.next = s.fs.next)
    (stored : ∀ p, t.temporary_ = some p → f.io_error_ = false → s'.fs.data t.inode_ = .bytes text')
    (fresh : Beginning phase' → text' = []) (closed : Closed phase' → f.io_error_ = false)
    (held : Held env ⟨t, phase⟩ s.fs text) : Held env ⟨{ t with file_ := f }, phase'⟩ s'.fs text' := by
  obtain ⟨apart, _, _, drafted, _⟩ := held
  refine ⟨apart, fun _ => shut, fresh, ?_, fun sealing => ⟨shut, closed sealing⟩⟩
  intro p staged
  obtain ⟨hidden, used, leads, _, _⟩ := drafted p staged
  refine ⟨hidden, Nat.lt_of_lt_of_eq used next.symm, names ▸ leads, ?_, fun _ fine => stored p staged fine⟩
  intro impossible
  rw [show f.is_open = false from shut] at impossible
  cases impossible

/-- Closing the handle leaves the text in the file, or the sticky error. -/
theorem close_file_held (held : Held env ⟨t, phase⟩ s.fs text) (phase' : Phase) :
    ∃ closed s', OutputTransaction.close_file (t, s) = .ok closed ({ t with file_ := t.file_.close.2 }, s') ∧
      Works env ⟨t, phase⟩ s ⟨{ t with file_ := t.file_.close.2 }, phase'⟩ s' ∧
      ((Beginning phase' → text = []) → (Closed phase' → t.file_.close.2.io_error_ = false) →
        Held env ⟨{ t with file_ := t.file_.close.2 }, phase'⟩ s'.fs text) := by
  have drafted := held.drafted
  by_cases opened : t.file_.is_open = true
  · -- Only a staged file is open, and it has stored the text unless an operation failed.
    obtain ⟨p, staged⟩ : ∃ p, t.temporary_ = some p := by
      apply Option.ne_none_iff_exists'.mp
      intro nothing
      rw [held.unstaged nothing] at opened
      cases opened
    have writing := (drafted p staged).stores opened
    obtain ⟨shut, _, data, flawless⟩ := close_alone writing.alone
    have flag : t.file_.close.1 = !t.file_.close.2.io_error_ := by
      have isOpen : t.file_.f_.opened = true := opened
      unfold FileIo.close
      rw [if_neg (by simp [FileIo.discard_read_buffer, isOpen])]
    have unopened : t.file_.close.2.is_open = true → False := by
      intro impossible
      cases (show t.file_.close.2.is_open = false from shut).symm.trans impossible
    by_cases closed : t.file_.close.1 = true
    · have run : OutputTransaction.close_file (t, s) = .ok true ({ t with file_ := t.file_.close.2 },
          s.set (s.fs.store t.inode_ (.bytes t.file_.close.2.f_.data))) := by
        simp only [OutputTransaction.close_file, closed, opened, Bool.and_self, if_true]
      refine ⟨true, _, run, ⟨fun n => .inl rfl, ?_, Nat.le_refl _, fun staged => .inl ⟨rfl, staged⟩,
        fun impossible => (unopened impossible).elim⟩, ?_⟩
      · intro k
        by_cases mine : k = t.inode_
        · exact .inr (.inl ⟨mine, opened⟩)
        · exact .inl (if_neg mine)
      · intro fresh sealing
        refine held_shut (s := s) shut rfl rfl ?_ fresh sealing held
        intro _ _ _
        refine (if_pos rfl).trans ?_
        rw [data, (writing.stored (flawless closed opened)).1]
    · have failed : t.file_.close.2.io_error_ = true := by
        rw [flag] at closed
        simpa using closed
      have run : OutputTransaction.close_file (t, s) = .ok false ({ t with file_ := t.file_.close.2 }, s) := by
        simp only [OutputTransaction.close_file, closed, Bool.false_and, Bool.false_eq_true, if_false]
      refine ⟨false, _, run, ⟨fun n => .inl rfl, fun k => .inl rfl, Nat.le_refl _, fun staged => .inl ⟨rfl, staged⟩,
        fun impossible => (unopened impossible).elim⟩, ?_⟩
      intro fresh sealing
      refine held_shut shut rfl rfl ?_ fresh sealing held
      intro _ _ fine
      cases failed.symm.trans fine
  · have shut : t.file_.is_open = false := by simpa using opened
    have closes : t.file_.close = (true, t.file_.discard_read_buffer) := by
      have notOpen : t.file_.f_.opened = false := shut
      unfold FileIo.close
      rw [if_pos (by simp [FileIo.discard_read_buffer, notOpen])]
    have run : OutputTransaction.close_file (t, s) = .ok true ({ t with file_ := t.file_.close.2 }, s) := by
      simp only [OutputTransaction.close_file, closes, shut, Bool.and_false, Bool.false_eq_true, if_false]
    have still : t.file_.close.2 = t.file_.discard_read_buffer := by rw [closes]
    have shut' : t.file_.close.2.is_open = false := by
      rw [still]
      exact shut
    refine ⟨true, _, run, ⟨fun n => .inl rfl, fun k => .inl rfl, Nat.le_refl _, fun staged => .inl ⟨rfl, staged⟩, ?_⟩, ?_⟩
    · intro impossible
      cases shut'.symm.trans impossible
    · intro fresh sealing
      refine held_shut shut' rfl rfl ?_ fresh sealing held
      intro p staged fine
      rw [still] at fine
      exact (drafted p staged).stored shut fine

/-- The first part of a commit. -/
theorem close_staged_held {p : Path} (held : Held env ⟨t, phase⟩ s.fs text) :
    let q := TransactionObject.part OutputTransaction.close_staged (fun _ => .syncing p) t s
    Works env ⟨t, phase⟩ s q.1 q.2 ∧ Held env q.1 q.2.fs text := by
  obtain ⟨closed, s', run, works, settles⟩ := close_file_held held (.syncing p)
  obtain ⟨_, _, run', works', settles'⟩ :=
    close_file_held held (.idle (.error ⟨.io_error, "Failed to flush output file"⟩))
  obtain ⟨rfl, same⟩ := EStateM.Result.ok.inj (run.symm.trans run')
  obtain rfl := (Prod.mk.inj same).2
  have got : (get : OutputM _) ({ t with file_ := t.file_.close.2 }, s') =
      .ok ({ t with file_ := t.file_.close.2 }, s') ({ t with file_ := t.file_.close.2 }, s') := rfl
  unfold TransactionObject.part OutputTransaction.close_staged
  rw [bind_ok run, bind_ok got]
  by_cases failed : (!closed || t.file_.close.2.has_error) = true
  · simp only [if_pos failed]
    exact ⟨works', settles' (fun impossible => impossible.elim) (fun impossible => impossible.elim)⟩
  · simp only [if_neg failed]
    refine ⟨works, settles (fun impossible => impossible.elim) fun _ => ?_⟩
    have fine : t.file_.close.2.has_error = false := by
      cases error : t.file_.close.2.has_error with
      | false => rfl
      | true => simp [error] at failed
    exact fine

/-! ### Staging and leaving -/

theorem created_stores {p : Path} (ours : Ours env p) : Stores [] (FileIo.created env p) where
  opened := rfl
  alone := ours
  drained := rfl
  write_only := rfl
  within := Nat.le_refl _
  stored _ := ⟨rfl, rfl, rfl⟩

/-- The staged file is new, and so its text is. -/
theorem open_candidate_held {attempts : Nat} {p : Path} (hidden : staged_name (env.locate p) = true) (ours : Ours env p)
    (fits : Fits ⟨t, .creating attempts p⟩) (held : Held env ⟨t, .creating attempts p⟩ s.fs text) :
    let q := TransactionObject.part (OutputTransaction.open_candidate env p)
      (fun opened => if opened then .tracking 0 else .looking attempts p) t s
    Works env ⟨t, .creating attempts p⟩ s q.1 q.2 ∧ Held env q.1 q.2.fs text := by
  have nothing : t.temporary_ = none := fits.due.1
  obtain ⟨apart, _, fresh, _, _⟩ := held
  have blank : text = [] := fresh trivial
  have unstaged : ∀ q, t.temporary_ = some q → False := by
    intro q staged
    cases nothing.symm.trans staged
  have created : ∀ n, (s.fs.create (env.locate p)).names n = s.fs.names n ∨ n = env.locate p := by
    intro n
    by_cases here : n = env.locate p
    · exact .inr here
    · exact .inl (if_neg here)
  have kept : ∀ k, (s.fs.create (env.locate p)).data k = s.fs.data k ∨ s.fs.next ≤ k := by
    intro k
    by_cases new : k = s.fs.next
    · exact .inr (Nat.le_of_eq new.symm)
    · exact .inl (if_neg new)
  have names : ∀ n, (s.fs.create (env.locate p)).names n = s.fs.names n ∨
      ((s.fs.create (env.locate p)).names n = none ∧ ∃ q, t.temporary_ = some q ∧ n = env.locate q) ∨
      ∃ q, chosen (.creating attempts p) = some q ∧ n = env.locate q :=
    fun n => (created n).imp id fun here => .inr ⟨p, rfl, here⟩
  rcases open_candidate_runs env p t s with ⟨clock, run⟩ | ⟨_, _, ⟨clock, run⟩ | ⟨_, _, clock, run⟩⟩
  · simp only [TransactionObject.part, run]
    refine ⟨⟨fun n => .inl rfl, fun k => .inl rfl, Nat.le_refl _, fun staged => absurd nothing staged, ?_⟩, ?_⟩
    · intro impossible
      cases impossible
    · exact ⟨apart, fun _ => rfl, fun _ => blank, fun q staged => (unstaged q staged).elim, fun impossible => impossible.elim⟩
  · simp only [TransactionObject.part, run]
    refine ⟨⟨names, fun k => (kept k).imp id .inr, Nat.le_succ _, fun _ => .inr ⟨rfl, Nat.lt_succ_self _⟩, fun _ => .inr rfl⟩,
      ⟨apart, ?_, fun _ => blank, ?_, fun impossible => impossible.elim⟩⟩
    · intro impossible
      cases impossible
    · intro q same
      obtain rfl : p = q := Option.some.inj same
      refine ⟨hidden, Nat.lt_succ_self _, ?_, fun _ => blank ▸ created_stores ours, ?_⟩
      · intro node named
        exact (Option.some.inj ((if_pos rfl).symm.trans named)).symm
      · intro impossible
        cases impossible
  · simp only [TransactionObject.part, run]
    refine ⟨⟨names, fun k => (kept k).imp id .inr, Nat.le_succ _, fun staged => absurd nothing staged, ?_⟩, ?_⟩
    · intro impossible
      cases impossible
    · exact ⟨apart, fun _ => rfl, fun _ => blank, fun q staged => (unstaged q staged).elim, fun impossible => impossible.elim⟩

/-- Removing takes away at most the staged name. -/
theorem removing_held (held : Held env ⟨t, .removing⟩ s.fs text) :
    Works env ⟨t, .removing⟩ s (TransactionObject.proceed env t s .removing).1
        (TransactionObject.proceed env t s .removing).2 ∧
      Held env (TransactionObject.proceed env t s .removing).1 (TransactionObject.proceed env t s .removing).2.fs text := by
  unfold TransactionObject.proceed
  cases staged : t.temporary_ with
  | none =>
    simp only
    exact ⟨works_filing rfl,
      held_filing rfl (fun impossible => impossible.elim) (fun impossible => impossible.elim) held⟩
  | some p =>
    simp only
    have removed : ∀ n, (s.remove env p).fs.names n = s.fs.names n ∨ (s.remove env p).fs.names n = none ∧ n = env.locate p := by
      intro n
      unfold System.remove System.call
      cases env.faults s.clock with
      | some message => exact .inl rfl
      | none =>
        dsimp only
        split
        · by_cases here : n = env.locate p
          · exact .inr ⟨if_pos here, here⟩
          · exact .inl (if_neg here)
        · exact .inl rfl
    have rest : (s.remove env p).fs.data = s.fs.data ∧ (s.remove env p).fs.next = s.fs.next := by
      unfold System.remove System.call
      cases env.faults s.clock with
      | some message => exact ⟨rfl, rfl⟩
      | none =>
        dsimp only
        split
        · exact ⟨rfl, rfl⟩
        · exact ⟨rfl, rfl⟩
    obtain ⟨data, next⟩ := rest
    obtain ⟨apart, unstaged, _, drafted, _⟩ := held
    refine ⟨⟨?_, fun k => .inl (congrFun data k), Nat.le_of_eq next.symm, fun staged => .inl ⟨rfl, staged⟩,
      fun opened => .inl ⟨rfl, opened⟩⟩, ⟨apart, unstaged, fun impossible => impossible.elim, ?_,
      fun impossible => impossible.elim⟩⟩
    · intro n
      rcases removed n with same | ⟨gone, here⟩
      · exact .inl same
      · exact .inr (.inl ⟨gone, p, staged, here⟩)
    · intro q same
      obtain ⟨hidden, used, leads, stores, stored⟩ := drafted q same
      refine ⟨hidden, Nat.lt_of_lt_of_eq used next.symm, ?_, stores, fun shut fine => (congrFun data _).trans (stored shut fine)⟩
      intro node named
      rcases removed (env.locate q) with same | ⟨gone, _⟩
      · exact leads node (same.symm.trans named)
      · cases gone.symm.trans named

theorem release_held (held : Held env ⟨t, .clearing⟩ s.fs text) :
    Works env ⟨t, .clearing⟩ s (TransactionObject.proceed env t s .clearing).1
        (TransactionObject.proceed env t s .clearing).2 ∧
      Held env (TransactionObject.proceed env t s .clearing).1 (TransactionObject.proceed env t s .clearing).2.fs text := by
  refine ⟨⟨fun n => .inl rfl, fun k => .inl rfl, Nat.le_refl _, ?_, fun opened => .inl ⟨rfl, opened⟩⟩,
    ⟨held.apart, fun _ => (held.closed trivial).1, fun impossible => impossible.elim, ?_, fun impossible => impossible.elim⟩⟩
  · intro staged
    exact absurd rfl staged
  · intro p staged
    cases staged

theorem proceed_held (hidden : ∀ p, chosen phase = some p → staged_name (env.locate p) = true)
    (ours : ∀ p, staged_name (env.locate p) = true → Ours env p) (fits : Fits ⟨t, phase⟩)
    (held : Held env ⟨t, phase⟩ s.fs text) :
    Works env ⟨t, phase⟩ s (TransactionObject.proceed env t s phase).1 (TransactionObject.proceed env t s phase).2 ∧
      Held env (TransactionObject.proceed env t s phase).1 (TransactionObject.proceed env t s phase).2.fs text := by
  have done : ∀ {P : Prop}, False → P := fun impossible => impossible.elim
  have fresh := held.fresh
  have closed := held.closed
  cases phase with
  | inspecting goal =>
    have idle := idle_filing (inspect_idle env)
    refine ⟨part_filing idle, ?_⟩
    cases goal with
    | staging => exact part_held (f := .comparing .staging) idle (fun _ => fresh) (fun _ => closed) held
    | replacing p => exact part_held (f := .comparing (.replacing p)) idle (fun _ => fresh) (fun _ => closed) held
  | comparing goal inputs =>
    cases inputs with
    | nil =>
      cases goal with
      | staging => exact ⟨works_filing rfl, held_filing rfl fresh closed held⟩
      | replacing p => exact ⟨works_filing rfl, held_filing rfl fresh closed held⟩
    | cons input rest =>
      have idle := idle_filing (compareInputs_idle env [input])
      cases goal with
      | staging =>
        exact ⟨part_filing idle, part_held (f := fun _ => .comparing .staging rest) idle (fun _ => fresh) (fun _ => closed) held⟩
      | replacing p =>
        exact ⟨part_filing idle, part_held (f := fun _ => .comparing (.replacing p) rest) idle (fun _ => fresh) (fun _ => closed) held⟩
  | naming attempts =>
    cases attempts with
    | zero =>
      have frames : Frames filing (OutputTransaction.stage env 0) := by
        rintro ⟨t, s⟩
        rw [stage_none]
        rfl
      exact ⟨part_filing frames, part_held (f := fun _ => .idle (.ok ())) frames (fun _ => done) (fun _ => done) held⟩
    | succ attempts =>
      have frames : Frames filing (OutputTransaction.next_candidate env) := fun _ => rfl
      exact ⟨part_filing frames, part_held (f := .creating attempts) frames (fun _ => fresh) (fun _ => done) held⟩
  | creating attempts p =>
    obtain ⟨works, held'⟩ := open_candidate_held (hidden p rfl) (ours p (hidden p rfl)) fits held
    exact ⟨works, held'⟩
  | looking attempts p =>
    have idle := idle_filing (is_taken_idle env p)
    exact ⟨part_filing idle, part_held (f := fun taken : Bool => Phase.naming (if taken then attempts else 0)) idle (fun _ => fresh) (fun _ => done) held⟩
  | copying =>
    have frames := copyPermissions_filing env
    exact ⟨part_filing frames, part_held (f := fun _ => .idle (.ok ())) frames (fun _ => done) (fun _ => done) held⟩
  | closing p =>
    obtain ⟨works, held'⟩ := close_staged_held (p := p) held
    exact ⟨works, held'⟩
  | syncing p =>
    have idle := idle_filing (sync_staged_idle env p)
    refine ⟨part_filing idle, part_held (f := fun synced : Bool => if synced then Phase.inspecting (.replacing p)
      else .idle (.error ⟨.io_error, "Failed to flush output file"⟩)) idle ?_ ?_ held⟩
    · intro synced
      cases synced with
      | true => exact done
      | false => exact done
    · intro synced
      cases synced with
      | true => exact closed
      | false => exact done
  | clearing =>
    obtain ⟨works, held'⟩ := release_held held
    exact ⟨works, held'⟩
  | removing =>
    obtain ⟨works, held'⟩ := removing_held held
    exact ⟨works, held'⟩
  | idle result => exact ⟨works_filing rfl, held_filing rfl fresh closed held⟩
  | tracking k => exact ⟨works_filing rfl, held_filing rfl fresh closed held⟩
  | replacing p => exact ⟨works_filing rfl, held_filing rfl fresh closed held⟩
  | releasing => exact ⟨works_filing rfl, held_filing rfl fresh closed held⟩
  | forgetting => exact ⟨works_filing rfl, held_filing rfl fresh closed held⟩

/-! ### The registry -/

section
variable {ι : Type} [DecidableEq ι] {r r' : Registry ι} {i j : ι} {action : Action ι} {system : System}
  {shelf shelf' : Shelf ι Name UInt8}

/-- What the shelf says of a name. -/
def shows (system : System) (shelf : Shelf ι Name UInt8) (n : Name) : Option Entry :=
  match shelf.shown n with
  | some text => some (.file (.bytes text))
  | none => entry system.fs n

/-- The registry and the shelf, in a process that started in `system`. -/
structure Kept (env : Environment) (system : System) (r : Registry ι) (shelf : Shelf ι Name UInt8) : Prop where
  sound : Sound env system.fs.next r
  held : ∀ i o, r.objects i = some o → Held env o r.system.fs (shelf.texts i)
  distinct : ∀ i j o o', r.objects i = some o → r.objects j = some o' → o.transaction.temporary_ ≠ none →
    o'.transaction.temporary_ ≠ none → o.transaction.inode_ = o'.transaction.inode_ → i = j
  covered : ∀ i o, r.objects i = some o → o.transaction.file_.is_open = true → ∀ n, staged_name n = false →
    r.system.fs.names n ≠ some (.file o.transaction.inode_)
  shown : ∀ n, staged_name n = false → entry r.system.fs n = shows system shelf n

theorem step_sound {first : Nat} (sound : Sound env first r) (action : Action ι) : Sound env first (r.step env action) := by
  obtain ⟨owned, apart, filed⟩ := sound
  have change : Change env r action _ := step_changes owned.fits
  exact ⟨change_owned change owned, change_apart change apart, change_filed change owned filed⟩

omit [DecidableEq ι] in
theorem entry_frame {fs fs' : FileSystem} {n : Name} (names : fs'.names n = fs.names n)
    (data : ∀ k, fs.names n = some (.file k) → fs'.data k = fs.data k) : entry fs' n = entry fs n := by
  unfold entry
  rw [names]
  cases named : fs.names n with
  | none => rfl
  | some node =>
    cases node with
    | file k => simp [Entry.of, data k named]
    | directory => rfl
    | other => rfl
    | link target => rfl

omit [DecidableEq ι] in
/-- What other transactions do to the files. -/
theorem held_frame {fs fs' : FileSystem} (next : fs.next ≤ fs'.next)
    (names : ∀ p, o.transaction.temporary_ = some p →
      fs'.names (env.locate p) = fs.names (env.locate p) ∨ fs'.names (env.locate p) = none)
    (data : o.transaction.temporary_ ≠ none → fs'.data o.transaction.inode_ = fs.data o.transaction.inode_)
    (held : Held env o fs text) : Held env o fs' text := by
  obtain ⟨apart, unstaged, fresh, drafted, closed⟩ := held
  refine ⟨apart, unstaged, fresh, ?_, closed⟩
  intro p staged
  obtain ⟨hidden, used, leads, stores, stored⟩ := drafted p staged
  refine ⟨hidden, Nat.lt_of_lt_of_le used next, ?_, stores, ?_⟩
  · intro node named
    rcases names p staged with same | gone
    · exact leads node (same.symm.trans named)
    · cases gone.symm.trans named
  · intro shut fine
    rw [data fun nothing => by cases staged.symm.trans nothing]
    exact stored shut fine

omit [DecidableEq ι] in
/-- A staged path of one transaction is not at the name that another one keeps. -/
theorem staged_apart (apart : Apart r) {o' : TransactionObject} {p q : Path} (here : r.objects i = some o)
    (there : r.objects j = some o') (kept : reserved o = some p) (staged : o'.transaction.temporary_ = some q)
    (same : env.locate q = env.locate p) : j = i := by
  apply apart.apart j i q p
  · simp [there, reserved, staged]
  · simp [here, kept]
  · exact (Prod.mk.inj same).2

theorem chosen_reserved (fits : Fits o) {p : Path} (chooses : chosen o.phase = some p) : reserved o = some p := by
  obtain ⟨t, phase⟩ := o
  cases phase with
  | creating attempts path =>
    have nothing : t.temporary_ = none := fits.due.1
    simpa [reserved, nothing] using chooses
  | _ => cases chooses

omit [DecidableEq ι] in
/-- The names that transactions keep are those of staged files. -/
theorem reserved_hidden (apart : Apart r) {p : Path} (here : r.objects i = some o) (kept : reserved o = some p) :
    staged_name (env.locate p) = true := by
  obtain ⟨d, a, b, c, rfl, _⟩ := apart.made i p (by simp [here, kept])
  simp [staged_name, Environment.locate, OutputTransaction.candidate, String.toList_append]

omit [DecidableEq ι] in
/-- The names that are looked at stay, but for the rename. -/
theorem works_visible (kept : Kept env system r shelf) (here : r.objects i = some o)
    (works : Works env o r.system o' r'.system) {n : Name} (seen : staged_name n = false) :
    r'.system.fs.names n = r.system.fs.names n := by
  rcases works.names n with same | ⟨_, p, temporary, rfl⟩ | ⟨p, chooses, rfl⟩
  · exact same
  · rw [((kept.held i o here).drafted p temporary).hidden] at seen
    cases seen
  · rw [reserved_hidden kept.sound.apart here (chosen_reserved (kept.sound.owned.fits i o here) chooses)] at seen
    cases seen

/-- A step of one transaction, apart from the rename. -/
theorem kept_works (kept : Kept env system r shelf) (sound : Sound env system.fs.next r') (here : r.objects i = some o)
    (works : Works env o r.system o' r'.system) (objects : r'.objects = (r.put i (some o')).objects)
    (held : Held env o' r'.system.fs (shelf'.texts i)) (others : ∀ j ≠ i, shelf'.texts j = shelf.texts j)
    (placed : shelf'.placed = shelf.placed) : Kept env system r' shelf' := by
  have visible : ∀ n, staged_name n = false → r'.system.fs.names n = r.system.fs.names n :=
    fun n seen => works_visible kept here works seen
  obtain ⟨⟨owned, apart, _⟩, holds, distinct, covered, shown⟩ := kept
  obtain ⟨names, data, next, inode, opens⟩ := works
  have mine : r'.objects i = some o' := by simp [objects, Registry.put]
  have theirs : ∀ j ≠ i, r'.objects j = r.objects j := by
    intro j other
    simp [objects, Registry.put, other]
  have fits := owned.fits i o here
  have staged : o.transaction.file_.is_open = true → o.transaction.temporary_ ≠ none := by
    intro opened nothing
    rw [(holds i o here).unstaged nothing] at opened
    cases opened
  have still : ∀ n, staged_name n = false → entry r'.system.fs n = entry r.system.fs n := by
    intro n seen
    apply entry_frame (visible n seen)
    intro k named
    rcases data k with same | ⟨rfl, opened⟩ | new
    · exact same
    · exact absurd named (covered i o here opened n seen)
    · have := r.system.fs.used n k named
      omega
  refine ⟨sound, ?_, ?_, ?_, ?_⟩
  · intro j oj there
    by_cases same : j = i
    · subst same
      obtain rfl := Option.some.inj (mine.symm.trans there)
      exact held
    · rw [theirs j same] at there
      rw [others j same]
      have old := holds j oj there
      apply held_frame next _ _ old
      · intro q temporary
        rcases names (env.locate q) with unchanged | ⟨gone, _⟩ | ⟨p, chooses, equal⟩
        · exact .inl unchanged
        · exact .inr gone
        · exact absurd (staged_apart apart here there (chosen_reserved fits chooses) temporary equal) same
      · intro temporary
        rcases data oj.transaction.inode_ with unchanged | ⟨equal, opened⟩ | new
        · exact unchanged
        · exact absurd (distinct j i oj o there here temporary (staged opened) equal) same
        · obtain ⟨q, path⟩ := Option.ne_none_iff_exists'.mp temporary
          have := (old.drafted q path).used
          omega
  · have fresh : ∀ j oj, j ≠ i → r'.objects j = some oj → oj.transaction.temporary_ ≠ none →
        o'.transaction.temporary_ ≠ none → o'.transaction.inode_ = oj.transaction.inode_ → False := by
      intro j oj other there temporary temporary' equal
      rw [theirs j other] at there
      rcases inode temporary' with ⟨old, before⟩ | ⟨new, _⟩
      · exact other (distinct j i oj o there here temporary before (equal.symm.trans old))
      · obtain ⟨q, path⟩ := Option.ne_none_iff_exists'.mp temporary
        have := ((holds j oj there).drafted q path).used
        omega
    intro j l oj ol there there' temporary temporary' equal
    by_cases same : j = i
    · subst same
      obtain rfl := Option.some.inj (mine.symm.trans there)
      by_cases same' : l = j
      · exact same'.symm
      · exact (fresh l ol same' there' temporary' temporary equal).elim
    · by_cases same' : l = i
      · subst same'
        obtain rfl := Option.some.inj (mine.symm.trans there')
        exact (fresh j oj same there temporary temporary' equal.symm).elim
      · rw [theirs j same] at there
        rw [theirs l same'] at there'
        exact distinct j l oj ol there there' temporary temporary' equal
  · intro j oj there opened n seen named
    rw [visible n seen] at named
    by_cases same : j = i
    · subst same
      obtain rfl := Option.some.inj (mine.symm.trans there)
      rcases opens opened with ⟨old, before⟩ | new
      · exact covered j o here before n seen (old ▸ named)
      · have := r.system.fs.used n _ named
        omega
    · rw [theirs j same] at there
      exact covered j oj there opened n seen named
  · intro n seen
    rw [still n seen, shown n seen]
    simp [shows, Shelf.shown, placed]

omit [DecidableEq ι] in
/-- A transaction comes or goes, and the files stay. -/
theorem kept_objects (kept : Kept env system r shelf) (sound : Sound env system.fs.next r')
    (same : r'.system = r.system) (objects : ∀ j oj, r'.objects j = some oj → r.objects j = some oj ∨
      oj.transaction.temporary_ = none ∧ oj.transaction.file_.is_open = false ∧ Held env oj r.system.fs (shelf.texts j)) :
    Kept env system r' shelf := by
  obtain ⟨_, holds, distinct, covered, shown⟩ := kept
  refine ⟨sound, ?_, ?_, ?_, same ▸ shown⟩
  · intro j oj there
    rw [same]
    rcases objects j oj there with old | ⟨_, _, held⟩
    · exact holds j oj old
    · exact held
  · intro j l oj ol there there' temporary temporary' equal
    rcases objects j oj there with old | ⟨nothing, _⟩
    · rcases objects l ol there' with old' | ⟨nothing, _⟩
      · exact distinct j l oj ol old old' temporary temporary' equal
      · exact absurd nothing temporary'
    · exact absurd nothing temporary
  · intro j oj there opened
    rw [same]
    rcases objects j oj there with old | ⟨_, shut, _⟩
    · exact covered j oj old opened
    · cases shut.symm.trans opened

omit [DecidableEq ι] in
theorem discarded_data (env : Environment) (r : Registry ι) :
    (r.discard_all_staged env).system.fs.data = r.system.fs.data := by
  have each : ∀ (slots : List (Option ι)) (s : System), (slots.foldl (r.unlink_slot env) s).fs.data = s.fs.data := by
    intro slots
    induction slots with
    | nil => exact fun s => rfl
    | cons slot slots ih =>
      intro s
      rw [List.foldl_cons, ih]
      unfold Registry.unlink_slot
      split
      · next p _ =>
        unfold System.unlink System.call
        cases env.faults s.clock with
        | some message => rfl
        | none =>
          dsimp only
          split <;> rfl
      · rfl
  exact each _ _

omit [DecidableEq ι] in
/-- A signal takes away names of staged files only. -/
theorem discarded_visible (kept : Kept env system r shelf) {n : Name} (seen : staged_name n = false) :
    (r.discard_all_staged env).system.fs.names n = r.system.fs.names n := by
  obtain ⟨_, _, names⟩ := unlink_slots env r r.staged_paths r.system
  rcases names n with same | ⟨_, j, p, _, staged, rfl⟩
  · exact same
  · obtain ⟨o, here, temporary⟩ := Option.bind_eq_some_iff.mp staged
    rw [((kept.held j o here).drafted p temporary).hidden] at seen
    cases seen

omit [DecidableEq ι] in
theorem kept_discarded (kept : Kept env system r shelf) (sound : Sound env system.fs.next (r.discard_all_staged env)) :
    Kept env system (r.discard_all_staged env) shelf := by
  have visible : ∀ n, staged_name n = false → (r.discard_all_staged env).system.fs.names n = r.system.fs.names n :=
    fun n seen => discarded_visible kept seen
  have data := discarded_data env r
  obtain ⟨_, holds, distinct, covered, shown⟩ := kept
  obtain ⟨next, _, names⟩ := unlink_slots env r r.staged_paths r.system
  refine ⟨sound, ?_, distinct, ?_, ?_⟩
  · intro j o here
    apply held_frame (Nat.le_of_eq next.symm) _ (fun _ => congrFun data _) (holds j o here)
    intro p _
    exact (names (env.locate p)).imp id And.left
  · intro j o here opened n seen
    rw [visible n seen]
    exact covered j o here opened n seen
  · intro n seen
    rw [entry_frame (visible n seen) fun k _ => congrFun data k]
    exact shown n seen

omit [DecidableEq ι] in
/-- A rename frames all names but its two. -/
theorem rename_elsewhere (fs : FileSystem) (source target : Name) {n : Name} (other : n ≠ target) :
    (fs.rename source target).names n = fs.names n ∨ (fs.rename source target).names n = none ∧ n = source := by
  unfold FileSystem.rename
  split
  · exact .inl rfl
  · by_cases moved : n = source
    · exact .inr ⟨(if_neg other).trans (if_pos moved), moved⟩
    · exact .inl ((if_neg other).trans (if_neg moved))

omit [DecidableEq ι] in
theorem rename_rest (fs : FileSystem) (source target : Name) :
    (fs.rename source target).data = fs.data ∧ (fs.rename source target).next = fs.next := by
  unfold FileSystem.rename
  split
  · exact ⟨rfl, rfl⟩
  · exact ⟨rfl, rfl⟩

omit [DecidableEq ι] in
/-- The rename of a staged file changes one of the names that are looked at. -/
theorem replaced_visible (kept : Kept env system r shelf) {p : Path} {clock : Nat}
    (here : r.objects i = some ⟨t, .replacing p⟩)
    (system' : r'.system = (later r.system clock).set (r.system.fs.rename (env.locate p) (env.locate t.destination_)))
    {n : Name} (seen : staged_name n = false) (other : n ≠ env.locate t.destination_) :
    r'.system.fs.names n = r.system.fs.names n := by
  rw [system']
  rcases rename_elsewhere r.system.fs (env.locate p) (env.locate t.destination_) other with same | ⟨_, rfl⟩
  · exact same
  · have staged : t.temporary_ = some p := (kept.sound.owned.fits i _ here).due
    rw [((kept.held i _ here).drafted p staged).hidden] at seen
    cases seen

/-- The rename places the text of the transaction at its destination. -/
theorem kept_replaced (kept : Kept env system r shelf) {p : Path} {node : Node} {clock : Nat}
    (here : r.objects i = some ⟨t, .replacing p⟩) (source : r.system.fs.names (env.locate p) = some node)
    (system' : r'.system = (later r.system clock).set (r.system.fs.rename (env.locate p) (env.locate t.destination_)))
    (objects : r'.objects = (r.put i (some ⟨t, .releasing⟩)).objects) (sound : Sound env system.fs.next r') :
    Kept env system r' (shelf.apply (.placed i (env.locate t.destination_))) := by
  have visible : ∀ n, staged_name n = false → n ≠ env.locate t.destination_ →
      r'.system.fs.names n = r.system.fs.names n := fun n seen other => replaced_visible kept here system' seen other
  obtain ⟨⟨owned, apart, _⟩, holds, distinct, covered, shown⟩ := kept
  have staged : t.temporary_ = some p := (owned.fits i _ here).due
  have held := holds i _ here
  obtain ⟨hidden, used, leads, _, stored⟩ := held.drafted p staged
  obtain ⟨shut, fine⟩ := held.closed trivial
  obtain rfl : node = .file t.inode_ := leads node source
  have text : r.system.fs.data t.inode_ = .bytes (shelf.texts i) := stored shut fine
  have arrives : r'.system.fs.names (env.locate t.destination_) = some (.file t.inode_) := by
    rw [system']
    exact (rename_target _ _ _).trans source
  obtain ⟨data, next⟩ : r'.system.fs.data = r.system.fs.data ∧ r'.system.fs.next = r.system.fs.next := by
    rw [system']
    exact rename_rest _ _ _
  have elsewhere : ∀ n, n ≠ env.locate t.destination_ →
      r'.system.fs.names n = r.system.fs.names n ∨ r'.system.fs.names n = none ∧ n = env.locate p := by
    intro n other
    rw [system']
    exact rename_elsewhere _ _ _ other
  have frame : ∀ {o : TransactionObject} {text : List UInt8}, Held env o r.system.fs text →
      Held env o r'.system.fs text := by
    intro o text held
    apply held_frame (Nat.le_of_eq next.symm) _ (fun _ => congrFun data _) held
    intro q temporary
    have apart' : env.locate q ≠ env.locate t.destination_ := by
      intro same
      have hidden' := (held.drafted q temporary).hidden
      have aimed : staged_name (env.locate t.destination_) = false := (holds i _ here).apart
      rw [same, aimed] at hidden'
      cases hidden'
    exact (elsewhere (env.locate q) apart').imp id And.left
  -- The transaction and its text are as they were, apart from the phase.
  have origin : ∀ j oj, r'.objects j = some oj → ∃ phase, r.objects j = some ⟨oj.transaction, phase⟩ ∧
      Held env oj r.system.fs (shelf.texts j) := by
    intro j oj there
    rw [objects] at there
    rcases put_cases there with ⟨rfl, now⟩ | ⟨_, old⟩
    · obtain rfl := Option.some.inj now
      exact ⟨_, here, ⟨held.apart, held.unstaged, fun impossible => impossible.elim, held.drafted, fun _ => ⟨shut, fine⟩⟩⟩
    · exact ⟨_, old, holds j oj old⟩
  refine ⟨sound, ?_, ?_, ?_, ?_⟩
  · intro j oj there
    obtain ⟨_, _, held'⟩ := origin j oj there
    exact frame held'
  · intro j l oj ol there there' temporary temporary' equal
    obtain ⟨_, old, _⟩ := origin j oj there
    obtain ⟨_, old', _⟩ := origin l ol there'
    exact distinct j l _ _ old old' temporary temporary' equal
  · intro j oj there opened n seen named
    obtain ⟨_, old, held'⟩ := origin j oj there
    by_cases target : n = env.locate t.destination_
    · -- Two open handles are on different files, and this one is closed.
      rw [target, arrives] at named
      have same : t.inode_ = oj.transaction.inode_ := Node.file.inj (Option.some.inj named)
      have temporary : oj.transaction.temporary_ ≠ none := by
        intro nothing
        cases (held'.unstaged nothing).symm.trans opened
      obtain rfl := distinct i j _ _ here old (fun nothing => by cases staged.symm.trans nothing) temporary same
      obtain ⟨rfl, _⟩ := TransactionObject.mk.inj (Option.some.inj (here.symm.trans old))
      cases shut.symm.trans opened
    · rw [visible n seen target] at named
      exact covered j _ old opened n seen named
  · intro n seen
    have placed := Shelf.shown_placed shelf (env.locate t.destination_) n (shelf.texts i)
    have reads : (shelf.apply (.placed i (env.locate t.destination_))).shown n =
      if n = env.locate t.destination_ then some (shelf.texts i) else shelf.shown n := placed
    unfold shows
    rw [reads]
    by_cases target : n = env.locate t.destination_
    · rw [if_pos target, target, entry, arrives]
      simp [Entry.of, data, text]
    · rw [if_neg target, entry_frame (visible n seen target) fun k _ => congrFun data k]
      exact shown n seen

/-- What a step does to the transactions, to the files and to the shelf. -/
inductive Effect (env : Environment) (r r' : Registry ι) (shelf : Shelf ι Name UInt8) : Shelf ι Name UInt8 → Prop
  | objects (same : r'.system = r.system) (objects : ∀ j oj, r'.objects j = some oj → r.objects j = some oj ∨
      oj.transaction.temporary_ = none ∧ oj.transaction.file_.is_open = false ∧
        Held env oj r.system.fs (shelf.texts j)) : Effect env r r' shelf shelf
  | worked {i : ι} {o o' : TransactionObject} {shelf' : Shelf ι Name UInt8} (here : r.objects i = some o)
      (works : Works env o r.system o' r'.system) (objects : r'.objects = (r.put i (some o')).objects)
      (held : Held env o' r'.system.fs (shelf'.texts i)) (others : ∀ j ≠ i, shelf'.texts j = shelf.texts j)
      (placed : shelf'.placed = shelf.placed) : Effect env r r' shelf shelf'
  | replaced {i : ι} {t : OutputTransaction} {p : Path} {node : Node} {clock : Nat}
      (here : r.objects i = some ⟨t, .replacing p⟩) (source : r.system.fs.names (env.locate p) = some node)
      (system' : r'.system = (later r.system clock).set (r.system.fs.rename (env.locate p) (env.locate t.destination_)))
      (objects : r'.objects = (r.put i (some ⟨t, .releasing⟩)).objects) :
      Effect env r r' shelf (shelf.apply (.placed i (env.locate t.destination_)))
  | discarded (same : r' = r.discard_all_staged env) : Effect env r r' shelf shelf

theorem kept_effect (kept : Kept env system r shelf) (sound : Sound env system.fs.next r')
    (effect : Effect env r r' shelf shelf') : Kept env system r' shelf' := by
  cases effect with
  | objects same objects => exact kept_objects kept sound same objects
  | worked here works objects held others placed => exact kept_works kept sound here works objects held others placed
  | replaced here source system' objects => exact kept_replaced kept here source system' objects sound
  | discarded same =>
    subst same
    exact kept_discarded kept sound

/-- A name that is looked at changes only where a text is placed there. -/
theorem effect_names {n : Name} (kept : Kept env system r shelf) (effect : Effect env r r' shelf shelf')
    (seen : staged_name n = false) : r'.system.fs.names n = r.system.fs.names n ∨
      ∃ i t q, r.objects i = some ⟨t, .replacing q⟩ ∧ n = env.locate t.destination_ ∧
        r'.system.fs.names n = some (.file t.inode_) ∧ r.system.fs.names (env.locate q) ≠ none ∧
        shelf' = shelf.apply (.placed i n) := by
  cases effect with
  | objects same => exact .inl (by rw [same])
  | worked here works => exact .inl (works_visible kept here works seen)
  | @replaced i t q node clock here source system' =>
    by_cases target : n = env.locate t.destination_
    · have staged : t.temporary_ = some q := (kept.sound.owned.fits i _ here).due
      obtain rfl : node = .file t.inode_ := ((kept.held i _ here).drafted q staged).leads node source
      refine .inr ⟨i, t, q, here, target, ?_, by simp [source], target ▸ rfl⟩
      rw [system', target]
      exact (rename_target _ _ _).trans source
    · exact .inl (replaced_visible kept here system' seen target)
  | discarded same =>
    subst same
    exact .inl (discarded_visible kept seen)

/-- A step of the registry, with what is seen of it. -/
def publishing (env : Environment) : Machine (Registry ι) (Action ι) (Documents.Event ι Name UInt8) where
  step := Registry.step env
  events := events env

/-- No destination has the name of a staged file. -/
def Allowed (env : Environment) : Action ι → Prop
  | .open_ _ destination _ => staged_name (env.locate destination) = false
  | _ => True

theorem effect_nothing : Effect env r r shelf shelf := .objects rfl fun _ _ there => .inl there

theorem effect_constructed : Effect env r (r.put i (some {})) shelf shelf := by
  refine .objects rfl ?_
  intro j oj there
  rcases put_cases there with ⟨rfl, new⟩ | ⟨_, old⟩
  · obtain rfl := Option.some.inj new
    refine .inr ⟨rfl, rfl, ⟨rfl, fun _ => rfl, fun impossible => impossible.elim, ?_, fun impossible => impossible.elim⟩⟩
    intro p staged
    cases staged
  · exact .inl old

theorem effect_forgotten (slots : List (Option ι)) :
    Effect env r { (r.put i none) with staged_paths := slots } shelf shelf := by
  refine .objects rfl ?_
  intro j oj there
  rcases put_cases there with ⟨_, gone⟩ | ⟨_, old⟩
  · cases gone
  · exact .inl old

/-- A step that leaves the files as they were. -/
theorem effect_filing (kept : Kept env system r shelf) (here : r.objects i = some ⟨t, phase⟩)
    (objects : r'.objects = (r.put i (some ⟨t', phase'⟩)).objects)
    (same : filing (t', r'.system) = filing (t, r.system)) (begun : Beginning phase' → Beginning phase)
    (sealing : Closed phase' → Closed phase) : Effect env r r' shelf shelf := by
  have held := kept.held i _ here
  exact .worked here (works_filing same) objects
    (held_filing same (fun fresh => held.fresh (begun fresh)) (fun closed => held.closed (sealing closed)) held)
    (fun _ _ => rfl) rfl

/-- A call, which does nothing while a method is under way. -/
theorem effect_call {method : OutputTransaction → System → TransactionObject × System}
    (idle : ∀ t result, r.objects i = some ⟨t, .idle result⟩ →
      Works env ⟨t, .idle result⟩ r.system (method t r.system).1 (method t r.system).2 ∧
        Held env (method t r.system).1 (method t r.system).2.fs (shelf'.texts i) ∧
        (∀ j ≠ i, shelf'.texts j = shelf.texts j) ∧ shelf'.placed = shelf.placed)
    (busy : (∀ t result, r.objects i ≠ some ⟨t, .idle result⟩) → shelf' = shelf) :
    Effect env r (r.call i method) shelf shelf' := by
  unfold Registry.call
  split
  · next t result here =>
    obtain ⟨works, held, others, placed⟩ := idle t result here
    exact .worked here works rfl held others placed
  · next other =>
    rw [busy fun t result here => other t result here]
    exact effect_nothing

theorem step_effect (ours : ∀ p, staged_name (env.locate p) = true → Ours env p) (kept : Kept env system r shelf)
    (allowed : Allowed env action) :
    Effect env r (r.step env action) shelf ((events env r action).foldl Shelf.apply shelf) := by
  have done : ∀ {P : Prop}, False → P := fun impossible => impossible.elim
  have fits := kept.sound.owned.fits
  cases action with
  | construct i =>
    simp only [Registry.step]
    split
    · exact effect_nothing
    · exact effect_constructed
  | open_ i destination inputs =>
    apply effect_call
    · intro t result here
      have held := kept.held i _ here
      unfold TransactionObject.part OutputTransaction.accept
      by_cases unaimed : t.destination_.empty = true
      · have aimed : OutputTransaction.aim destination inputs (t, r.system) =
            .ok () ({ t with destination_ := destination, inputs_ := inputs }, r.system) := if_pos unaimed
        have nothing : t.temporary_ = none := (fits i _ here).blank unaimed
        have begun : events env r (.open_ i destination inputs) = [.begun i] := by simp [events, here, unaimed]
        rw [bind_ok aimed, begun]
        have works : ∀ phase, Works env ⟨t, .idle result⟩ r.system
            ⟨{ t with destination_ := destination, inputs_ := inputs }, phase⟩ r.system := by
          intro phase
          exact ⟨fun n => .inl rfl, fun k => .inl rfl, Nat.le_refl _, fun staged => absurd nothing staged,
            fun opened => .inl ⟨rfl, opened⟩⟩
        have held' : ∀ phase, (¬ Closed phase) → Held env ⟨{ t with destination_ := destination, inputs_ := inputs }, phase⟩
            r.system.fs ((Shelf.apply shelf (.begun i)).texts i) := by
          intro phase unsealed
          refine ⟨allowed, held.unstaged, fun _ => by simp [Shelf.apply], ?_, fun sealing => absurd sealing unsealed⟩
          intro p staged
          cases nothing.symm.trans staged
        have others : ∀ j ≠ i, (Shelf.apply shelf (.begun i)).texts j = shelf.texts j := by
          intro j other
          simp [Shelf.apply, other]
        by_cases named : destination.filename = ""
        · simp only [if_pos named]
          exact ⟨works _, held' _ id, others, rfl⟩
        · simp only [if_neg named]
          exact ⟨works _, held' _ id, others, rfl⟩
      · have refused : OutputTransaction.aim destination inputs (t, r.system) =
            .error ⟨.invalid_argument, "Output transaction already opened"⟩ (t, r.system) := if_neg unaimed
        have nothing : events env r (.open_ i destination inputs) = [] := by simp [events, here, unaimed]
        rw [bind_error refused, nothing]
        exact ⟨works_filing rfl, held_filing rfl done done held, fun _ _ => rfl, rfl⟩
    · intro busy
      have nothing : events env r (.open_ i destination inputs) = [] := by
        simp only [events]
      rw [nothing]
      rfl
  | write i chunk =>
    apply effect_call
    · intro t result here
      have held := kept.held i _ here
      have added : events env r (.write i chunk) = [.added i chunk] := by simp [events, here]
      rw [added]
      have text : (Shelf.apply shelf (.added i chunk)).texts i = shelf.texts i ++ chunk := by simp [Shelf.apply]
      refine ⟨?_, ?_, ?_, rfl⟩
      · refine ⟨fun n => .inl rfl, fun k => .inl rfl, Nat.le_refl _, fun staged => .inl ⟨rfl, staged⟩, ?_⟩
        intro opened
        refine .inl ⟨rfl, ?_⟩
        by_contra unopened
        have shut : t.file_.is_open = false := by simpa using unopened
        cases (write_shut shut chunk).1.symm.trans opened
      · show Held env _ r.system.fs ((Shelf.apply shelf (.added i chunk)).texts i)
        rw [text]
        by_cases opened : t.file_.is_open = true
        · refine ⟨held.apart, ?_, done, ?_, done⟩
          · intro nothing
            cases (held.unstaged nothing).symm.trans opened
          · intro p staged
            obtain ⟨hidden, used, leads, stores, _⟩ := held.drafted p staged
            have stores' := (write_chunk_stores (stores opened) chunk).1
            refine ⟨hidden, used, leads, fun _ => stores', ?_⟩
            intro shut
            cases (show (t.file_.write_chunk chunk).2.is_open = true from stores'.opened).symm.trans shut
        · have shut : t.file_.is_open = false := by simpa using opened
          obtain ⟨shut', nothing⟩ := write_shut shut chunk
          refine held_shut (s := r.system) shut' rfl rfl ?_ done done held
          intro p staged fine
          obtain ⟨rfl, before⟩ := nothing fine
          rw [List.append_nil]
          exact (held.drafted p staged).stored shut before
      · intro j other
        simp [Shelf.apply, other]
    · intro busy
      have nothing : events env r (.write i chunk) = [] := by
        simp only [events]
      rw [nothing]
      rfl
  | commit i =>
    simp only [Registry.step]
    apply effect_call
    · intro t result here
      have held := kept.held i _ here
      cases t.temporary_ with
      | none => exact ⟨works_filing rfl, held_filing rfl done done held, fun _ _ => rfl, rfl⟩
      | some p => exact ⟨works_filing rfl, held_filing rfl done done held, fun _ _ => rfl, rfl⟩
    · exact fun _ => rfl
  | destroy i =>
    apply effect_call
    · intro t result here
      obtain ⟨closed, s', run, works, settles⟩ := close_file_held (kept.held i _ here) .removing
      simp only [TransactionObject.part, run]
      exact ⟨works, settles done done, fun _ _ => rfl, rfl⟩
    · exact fun _ => rfl
  | discard_all_staged => exact .discarded rfl
  | advance i =>
    simp only [Registry.step]
    unfold Registry.advance
    cases here : r.objects i with
    | none =>
      have nothing : events env r (.advance i) = [] := by simp [events, here]
      rw [nothing]
      exact effect_nothing
    | some o =>
      obtain ⟨t, phase⟩ := o
      have held := kept.held i _ here
      have fits := fits i _ here
      have quiet : (∀ p, phase ≠ .replacing p) → (events env r (.advance i)).foldl Shelf.apply shelf = shelf := by
        intro other
        have nothing : events env r (.advance i) = [] := by
          simp only [events, here]
          split
          · next same =>
            obtain ⟨_, same⟩ := TransactionObject.mk.inj (Option.some.inj same)
            exact absurd same (other _)
          · rfl
        rw [nothing]
        rfl
      cases phase with
      | tracking k =>
        rw [quiet (by simp)]
        simp only [Registry.claim]
        split
        · exact effect_filing kept here rfl rfl done done
        · exact effect_filing kept here rfl rfl done done
        · exact effect_filing kept here rfl rfl done done
      | replacing p =>
        simp only [Registry.replace, OutputTransaction.replace]
        rcases Discarding.rename_runs env p t.destination_ r.system with ⟨message, clock, run⟩ | ⟨node, clock, present, run⟩
        · have nothing : events env r (.advance i) = [] := by simp [events, here, run]
          simp only [run]
          rw [nothing]
          exact effect_filing kept here rfl rfl done done
        · have placed : events env r (.advance i) = [.placed i (env.locate t.destination_)] := by
            simp [events, here, run]
          simp only [run]
          rw [placed]
          exact .replaced here present rfl rfl
      | releasing =>
        rw [quiet (by simp)]
        exact effect_filing kept here rfl rfl done id
      | forgetting =>
        rw [quiet (by simp)]
        exact effect_forgotten _
      | _ =>
        rw [quiet (by simp)]
        obtain ⟨works, held'⟩ := proceed_held
          (fun p chooses => reserved_hidden kept.sound.apart here (chosen_reserved fits chooses)) ours fits held
        exact .worked here works rfl held' (fun _ _ => rfl) rfl

/-- A process that has just started. -/
theorem start_kept (env : Environment) (system : System) : Kept env system ({ system } : Registry ι) {} := by
  have sound : Sound env system.fs.next (Registry.run env system ([] : List (Action ι))) := run_sound env system []
  refine ⟨sound, ?_, ?_, ?_, fun _ _ => rfl⟩
  · intro i o here
    cases here
  · intro i j o o' here
    cases here
  · intro i o here
    cases here

theorem publishing_refines {env : Environment} (ours : ∀ p, staged_name (env.locate p) = true → Ours env p)
    (system : System) : Refines (publishing (ι := ι) env) Shelf.apply (Allowed env) (Kept env system) :=
  fun _ _ action kept allowed => kept_effect kept (step_sound kept.sound action) (step_effect ours kept allowed)

/-- Over any interleaving of transactions and signals, a name that is not that of a
    staged file holds what it held at first or, as a whole, the text that was placed
    there last; and every text that was placed is all that its transaction was
    given since it was opened. -/
theorem outputs_are_placed_whole (env : Environment) (system : System) (actions : List (Action ι))
    (ours : ∀ p, staged_name (env.locate p) = true → Ours env p) (apart : ∀ action ∈ actions, Allowed env action) :
    let history := (publishing env).history { system } actions
    (∀ n, staged_name n = false →
      entry (Registry.run env system actions).system.fs n = shows system (Shelf.after history) n) ∧
    ∀ n text, (n, text) ∈ (Shelf.after history).placed → ∃ before i rest,
      history = before ++ .placed i n :: rest ∧ text = Shelf.composed i before := by
  intro history
  have kept := (publishing_refines ours system).run (start_kept env system) apart
  exact ⟨kept.shown, fun n text member => Shelf.placed_mem history member⟩

/-- Two transactions for one destination, one of them committed while the other one
    writes, and a signal at the end. -/
def racing : List (Action Bool) :=
  [[.construct false, .construct true, .open_ false ⟨"", "out"⟩ [], .open_ true ⟨"", "out"⟩ []],
    (List.replicate 7 [.advance false, .advance true]).flatten,
    [.write false [1], .write true [2], .commit true], List.replicate 7 (.advance true),
    [.write false [3], .commit false], List.replicate 7 (.advance false), [.discard_all_staged]].flatten

theorem nobody_writes : ∀ p, staged_name (({} : Environment).locate p) = true → Ours {} p := by
  intro p _ e member
  cases member

theorem racing_allowed : ∀ action ∈ racing, Allowed {} action := by
  have all : ∀ action ∈ racing, (∃ i, action = .open_ i ⟨"", "out"⟩ []) ∨ ∀ i d inputs, action ≠ .open_ i d inputs := by
    simp [racing]
  intro action member
  rcases all action member with ⟨i, rfl⟩ | other
  · exact (by decide : staged_name (0, "out") = false)
  · cases action with
    | open_ i d inputs => exact absurd rfl (other i d inputs)
    | _ => trivial

/-- Two transactions race for a name: it ends up with the whole text of the one that commits last. -/
theorem racing_placed : entry (Registry.run {} { fs := .holding [] } racing).system.fs (0, "out") =
    some (.file (.bytes [1, 3])) := by
  have shown := (outputs_are_placed_whole {} { fs := .holding [] } racing nobody_writes racing_allowed).1 (0, "out") (by decide)
  refine shown.trans ?_
  have last : (Shelf.after ((publishing {}).history { system := { fs := .holding [] } } racing)).shown (0, "out") =
      some [1, 3] := by decide +kernel
  simp only [shows, last]

end

end Roll.Publishing
