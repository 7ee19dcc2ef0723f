import Roll.Discarding
import Roll.Registry

/-!
What the single steps of transactions do, and what each step does to the
registry of staged paths.
-/
namespace Roll.Stepping
open Roll.Parsing Roll.Outcome Roll.Calm Roll.Staging

variable {env : Environment} {α : Type}

/-! ### The steps of one transaction -/

/-- What a step may see or change of a transaction and of the names. -/
def standing (q : OutputTransaction × System) : Path × Option Path × Option Nat × (Name → Option Node) × Nat × Nat :=
  (q.1.destination_, q.1.temporary_, q.1.slot_, q.2.fs.names, q.2.fs.next, q.2.counter)

theorem idle_standing {m : OutputM α} (idle : Idle m) : Frames standing m := idle.frames fun _ _ _ => rfl

theorem inspect_idle (env : Environment) : Idle (OutputTransaction.inspect env) := by
  intro t s
  have looked := status_untouched env t.destination_ s
  unfold OutputTransaction.inspect Leaves
  dsimp only
  generalize s.status env t.destination_ = r at looked ⊢
  obtain ⟨result, s₁⟩ := r
  rcases result with message | _ | node
  · exact ⟨rfl, looked⟩
  · exact ⟨rfl, looked⟩
  · by_cases regular : System.is_regular node = true
    · simp only [regular, if_true]
      exact ⟨trivial, looked⟩
    · simp only [regular, if_false, Bool.false_eq_true]
      exact ⟨trivial, looked⟩

theorem sync_staged_idle (env : Environment) (path : Path) : Idle (OutputTransaction.sync_staged env path) := by
  intro t s
  unfold OutputTransaction.sync_staged
  cases found : s.fs.lookup (env.locate path) with
  | missing =>
    simp only [Leaves, found]
    exact ⟨trivial, (call_untouched env s).trans (call_untouched env _)⟩
  | looping =>
    simp only [Leaves, found]
    exact ⟨trivial, (call_untouched env s).trans (call_untouched env _)⟩
  | «at» node =>
    simp only [Leaves, found]
    exact sync_file_idle env t s

theorem copyPermissions_standing (env : Environment) : Frames standing (OutputTransaction.copyPermissions env) := by
  rintro ⟨t, s⟩
  obtain ⟨s', run, names, next, counter⟩ := Discarding.copyPermissions_runs env t s
  simp [run, standing, names, next, counter]

theorem close_file_standing : Frames standing OutputTransaction.close_file := by
  rintro ⟨t, s⟩
  obtain ⟨closed, s', run, names, next, counter, _⟩ := Discarding.close_file_runs t s
  simp [run, after, standing, names, next, counter]

theorem close_staged_standing : Frames standing OutputTransaction.close_staged := by
  apply frames_bind close_file_standing
  intro closed
  apply frames_bind (fun _ => rfl)
  rintro ⟨t, _⟩
  by_cases failed : (!closed || t.file_.has_error) = true
  · simp only [if_pos failed]
    exact frames_throw _
  · simp only [if_neg failed]
    exact frames_pure _

/-- What a method that goes on to its goal knows of the transaction. -/
def Pending (t : OutputTransaction) : Goal → Prop
  | .staging => t.temporary_ = none ∧ t.destination_.empty = false
  | .replacing temporary => t.temporary_ = some temporary

/-- What holds when a step is due. -/
def Due (t : OutputTransaction) : Phase → Prop
  | .idle _ => True
  | .inspecting goal => Pending t goal
  | .comparing goal _ => Pending t goal
  | .naming _ => Pending t .staging
  | .creating _ _ => Pending t .staging
  | .looking _ _ => Pending t .staging
  | .tracking _ => t.slot_ = none ∧ t.temporary_ ≠ none
  | .copying => True
  | .closing temporary => Pending t (.replacing temporary)
  | .syncing temporary => Pending t (.replacing temporary)
  | .replacing temporary => Pending t (.replacing temporary)
  | .releasing => True
  | .clearing => t.slot_ = none
  | .removing => True
  | .forgetting => True

/-- The invariant of one transaction. -/
structure Fits (o : TransactionObject) : Prop where
  blank : o.transaction.destination_.empty = true → o.transaction.temporary_ = none
  slotted : o.transaction.temporary_ = none → o.transaction.slot_ = none
  due : Due o.transaction o.phase

/-- The candidate that a transaction is about to create. -/
def chosen : Phase → Option Path
  | .creating _ path => some path
  | _ => none

/-- The path that a transaction keeps for itself. -/
def reserved (o : TransactionObject) : Option Path := o.transaction.temporary_.or (chosen o.phase)

/-- What a step of one transaction, apart from the slots and the rename, does:
    it names a new candidate, creates a file at it, or takes a name away. -/
structure Proceeds (env : Environment) (o : TransactionObject) (s : System) (o' : TransactionObject) (s' : System) :
    Prop where
  fits : Fits o'
  slot : o'.transaction.slot_ = o.transaction.slot_
  next : s.fs.next ≤ s'.fs.next
  names : ∀ n node, s'.fs.names n = some node →
    s.fs.names n = some node ∨ node = .file s.fs.next ∧ s.fs.next < s'.fs.next
  staged : ∀ p, o'.transaction.temporary_ = some p → o.transaction.temporary_ = some p ∨
    o.transaction.temporary_ = none ∧ s'.fs.names (env.locate p) = some (.file s.fs.next) ∧ s.fs.next < s'.fs.next
  counter : s.counter ≤ s'.counter
  reserved : ∀ p, Stepping.reserved o' = some p → Stepping.reserved o = some p ∨
    (∃ d a b, p = OutputTransaction.candidate d a b s.counter) ∧ s.counter < s'.counter

variable {o o' : TransactionObject} {t t' : OutputTransaction} {s s' : System} {phase phase' : Phase}

theorem due_standing (same : standing (t', s') = standing (t, s)) (due : Due t phase) : Due t' phase := by
  simp only [standing, Prod.mk.injEq] at same
  obtain ⟨destination, temporary, slot, _⟩ := same
  cases phase with
  | inspecting goal => cases goal <;> simpa [Due, Pending, destination, temporary] using due
  | comparing goal inputs => cases goal <;> simpa [Due, Pending, destination, temporary] using due
  | _ => simp_all [Due, Pending]

/-- A step after which all of this is as it was. -/
theorem proceeds_standing (fits : Fits ⟨t, phase⟩) (same : standing (t', s') = standing (t, s)) (due : Due t phase')
    (unchosen : chosen phase' = none) : Proceeds env ⟨t, phase⟩ s ⟨t', phase'⟩ s' := by
  have due' := due_standing same due
  simp only [standing, Prod.mk.injEq] at same
  obtain ⟨destination, temporary, slot, names, next, counter⟩ := same
  obtain ⟨blank, slotted, _⟩ := fits
  refine ⟨⟨?_, ?_, due'⟩, slot, Nat.le_of_eq next.symm, ?_, ?_, Nat.le_of_eq counter.symm, ?_⟩
  · simpa [destination, temporary] using blank
  · simpa [temporary, slot] using slotted
  · intro n node named
    exact .inl (names ▸ named)
  · intro p staged
    exact .inl (temporary ▸ staged)
  · intro p kept
    simp only [Stepping.reserved, unchosen, Option.or_none, temporary] at kept ⊢
    exact .inl (by simp [kept])

theorem part_standing {m : OutputM α} {f : α → Phase} (fits : Fits ⟨t, phase⟩) (frames : Frames standing m)
    (due : ∀ a, Due t (f a)) (unchosen : ∀ a, chosen (f a) = none) :
    Proceeds env ⟨t, phase⟩ s (TransactionObject.part m f t s).1 (TransactionObject.part m f t s).2 := by
  have same := frames (t, s)
  unfold TransactionObject.part
  cases run : m (t, s) with
  | ok a q =>
    rw [run] at same
    exact proceeds_standing fits same (due a) (unchosen a)
  | error e q =>
    rw [run] at same
    exact proceeds_standing fits same trivial rfl

theorem next_candidate_proceeds {attempts : Nat} (fits : Fits ⟨t, phase⟩) (pending : Pending t .staging) :
    Proceeds env ⟨t, phase⟩ s
      (TransactionObject.part (OutputTransaction.next_candidate env) (.creating attempts) t s).1
      (TransactionObject.part (OutputTransaction.next_candidate env) (.creating attempts) t s).2 := by
  have named : OutputTransaction.next_candidate env (t, s) =
      .ok (OutputTransaction.candidate t.destination_ (env.random s.draws) (env.random (s.draws + 1)) s.counter)
        (t, { s with draws := s.draws + 2, counter := s.counter + 1 }) := rfl
  simp only [TransactionObject.part, named]
  obtain ⟨blank, slotted, _⟩ := fits
  refine ⟨⟨blank, slotted, pending⟩, rfl, Nat.le_refl _, fun n node named => .inl named, fun p staged => .inl staged,
    Nat.le_succ _, ?_⟩
  intro p kept
  have nothing : t.temporary_ = none := pending.1
  simp only [Stepping.reserved, nothing, chosen, Option.none_or, Option.some.injEq] at kept
  exact .inr ⟨⟨_, _, _, kept.symm⟩, Nat.lt_succ_self _⟩

/-- A new file at a free name. -/
theorem create_names {fs : FileSystem} {m n : Name} {node : Node} (named : (fs.create m).names n = some node) :
    fs.names n = some node ∨ node = .file fs.next ∧ fs.next < (fs.create m).next := by
  by_cases here : n = m
  · have fresh : some (Node.file fs.next) = some node := (if_pos here).symm.trans named
    exact .inr ⟨(Option.some.inj fresh).symm, Nat.lt_succ_self _⟩
  · exact .inl ((if_neg here).symm.trans named)

theorem open_candidate_proceeds {attempts : Nat} {path : Path} (fits : Fits ⟨t, .creating attempts path⟩) :
    Proceeds env ⟨t, .creating attempts path⟩ s
      (TransactionObject.part (OutputTransaction.open_candidate env path)
        (fun opened => if opened then .tracking 0 else .looking attempts path) t s).1
      (TransactionObject.part (OutputTransaction.open_candidate env path)
        (fun opened => if opened then .tracking 0 else .looking attempts path) t s).2 := by
  obtain ⟨blank, slotted, unstaged, aimed⟩ := fits
  have nothing : t.temporary_ = none := unstaged
  have unslotted : t.slot_ = none := slotted nothing
  have still : ∀ p, Stepping.reserved ⟨t, .looking attempts path⟩ = some p → False := by
    intro p kept
    simp [Stepping.reserved, chosen, nothing] at kept
  rcases open_candidate_runs env path t s with ⟨clock, run⟩ | ⟨free, _, ⟨clock, run⟩ | ⟨_, _, clock, run⟩⟩
  · simp only [TransactionObject.part, run]
    exact ⟨⟨blank, slotted, nothing, aimed⟩, rfl, Nat.le_refl _, fun n node named => .inl named,
      fun p staged => .inl staged, Nat.le_refl _, fun p kept => (still p kept).elim⟩
  · simp only [TransactionObject.part, run]
    refine ⟨⟨?_, ?_, unslotted, Option.some_ne_none _⟩, rfl, Nat.le_succ _, fun n node named => create_names named, ?_,
      Nat.le_refl _, ?_⟩
    · intro unaimed
      rw [show t.destination_.empty = true from unaimed] at aimed
      cases aimed
    · intro impossible
      cases impossible
    · intro p staged
      obtain rfl : path = p := Option.some.inj staged
      exact .inr ⟨nothing, if_pos rfl, Nat.lt_succ_self _⟩
    · intro p kept
      obtain rfl : path = p := by simpa [Stepping.reserved] using kept
      exact .inl (by simp [Stepping.reserved, chosen, nothing])
  · simp only [TransactionObject.part, run]
    exact ⟨⟨blank, slotted, nothing, aimed⟩, rfl, Nat.le_succ _, fun n node named => create_names named,
      fun p staged => .inl staged, Nat.le_refl _, fun p kept => (still p kept).elim⟩

theorem release_proceeds (fits : Fits ⟨t, .clearing⟩) :
    Proceeds env ⟨t, .clearing⟩ s
      (TransactionObject.part (OutputTransaction.release env) (fun _ => .idle (.ok ())) t s).1
      (TransactionObject.part (OutputTransaction.release env) (fun _ => .idle (.ok ())) t s).2 := by
  obtain ⟨_, _, unslotted⟩ := fits
  refine ⟨⟨fun _ => rfl, fun _ => unslotted, trivial⟩, rfl, Nat.le_refl _, fun n node named => .inl named, ?_,
    Nat.le_refl _, ?_⟩
  · intro p staged
    cases staged
  · intro p kept
    cases kept

/-- Removing takes away no other name. -/
theorem remove_names (env : Environment) (p : Path) (s : System) :
    (s.remove env p).fs.next = s.fs.next ∧ (s.remove env p).counter = s.counter ∧
      ∀ n node, (s.remove env p).fs.names n = some node → s.fs.names n = some node := by
  unfold System.remove System.call
  cases env.faults s.clock with
  | some message => exact ⟨rfl, rfl, fun n node named => named⟩
  | none =>
    dsimp only
    by_cases here : (s.fs.names (env.locate p)).isSome = true
    · rw [if_pos here]
      refine ⟨rfl, rfl, ?_⟩
      intro n node named
      by_cases same : n = env.locate p
      · simp [System.set, FileSystem.remove, same] at named
      · exact (if_neg same).symm.trans named
    · rw [if_neg here]
      exact ⟨rfl, rfl, fun n node named => named⟩

theorem proceed_proceeds (fits : Fits ⟨t, phase⟩) : Proceeds env ⟨t, phase⟩ s
    (TransactionObject.proceed env t s phase).1 (TransactionObject.proceed env t s phase).2 := by
  have due := fits.due
  unfold TransactionObject.proceed
  cases phase with
  | inspecting goal => exact part_standing fits (idle_standing (inspect_idle env)) (fun _ => due) (fun _ => rfl)
  | comparing goal inputs =>
    cases inputs with
    | nil =>
      cases goal with
      | staging => exact proceeds_standing fits rfl due rfl
      | replacing temporary => exact proceeds_standing fits rfl due rfl
    | cons input rest =>
      have idle := compareInputs_idle env [input]
      cases goal with
      | staging =>
        exact part_standing (f := fun _ => .comparing .staging rest) fits (idle_standing idle) (fun _ => due)
          (fun _ => rfl)
      | replacing temporary =>
        exact part_standing (f := fun _ => .comparing (.replacing temporary) rest) fits (idle_standing idle)
          (fun _ => due) (fun _ => rfl)
  | naming attempts =>
    cases attempts with
    | zero =>
      have frames : Frames standing (OutputTransaction.stage env 0) := by
        rintro ⟨t, s⟩
        rw [stage_none]
        rfl
      exact part_standing fits frames (fun _ => trivial) (fun _ => rfl)
    | succ attempts => exact next_candidate_proceeds fits due
  | creating attempts path => exact open_candidate_proceeds fits
  | looking attempts path =>
    exact part_standing fits (idle_standing (is_taken_idle env path)) (fun _ => due) (fun _ => rfl)
  | copying => exact part_standing fits (copyPermissions_standing env) (fun _ => trivial) (fun _ => rfl)
  | closing temporary => exact part_standing fits close_staged_standing (fun _ => due) (fun _ => rfl)
  | syncing temporary =>
    apply part_standing fits (idle_standing (sync_staged_idle env temporary))
    · intro synced
      cases synced with
      | true => exact due
      | false => exact trivial
    · intro synced
      cases synced with
      | true => rfl
      | false => rfl
  | clearing => exact release_proceeds fits
  | removing =>
    cases staged : t.temporary_ with
    | none =>
      simp only
      exact proceeds_standing fits rfl trivial rfl
    | some p =>
      simp only
      obtain ⟨next, counter, names⟩ := remove_names env p s
      obtain ⟨blank, slotted, _⟩ := fits
      refine ⟨⟨blank, slotted, trivial⟩, rfl, Nat.le_of_eq next.symm, fun n node named => .inl (names n node named),
        fun q kept => .inl kept, Nat.le_of_eq counter.symm, fun q kept => .inl kept⟩
  | idle result => exact proceeds_standing fits rfl due rfl
  | tracking k => exact proceeds_standing fits rfl due rfl
  | replacing temporary => exact proceeds_standing fits rfl due rfl
  | releasing => exact proceeds_standing fits rfl due rfl
  | forgetting => exact proceeds_standing fits rfl due rfl

/-! ### The signal handler -/

theorem unlink_names (env : Environment) (p : Path) (s : System) :
    (s.unlink env p).fs.next = s.fs.next ∧ (s.unlink env p).counter = s.counter ∧
      ∀ n, (s.unlink env p).fs.names n = s.fs.names n ∨ (s.unlink env p).fs.names n = none ∧ n = env.locate p := by
  unfold System.unlink System.call
  cases env.faults s.clock with
  | some message => exact ⟨rfl, rfl, fun n => .inl rfl⟩
  | none =>
    dsimp only
    split
    · exact ⟨rfl, rfl, fun n => .inl rfl⟩
    · exact ⟨rfl, rfl, fun n => .inl rfl⟩
    · refine ⟨rfl, rfl, ?_⟩
      intro n
      by_cases here : n = env.locate p
      · exact .inr ⟨if_pos here, here⟩
      · exact .inl (if_neg here)

section
variable {ι : Type}

/-- A name is that of a path that one of these slots points at. -/
def Listed (env : Environment) (r : Registry ι) (slots : List (Option ι)) (n : Name) : Prop :=
  ∃ i p, some i ∈ slots ∧ r.staged i = some p ∧ n = env.locate p

theorem unlink_slots (env : Environment) (r : Registry ι) : ∀ (slots : List (Option ι)) (s : System),
    (slots.foldl (r.unlink_slot env) s).fs.next = s.fs.next ∧ (slots.foldl (r.unlink_slot env) s).counter = s.counter ∧
      ∀ n, (slots.foldl (r.unlink_slot env) s).fs.names n = s.fs.names n ∨
        (slots.foldl (r.unlink_slot env) s).fs.names n = none ∧ Listed env r slots n := by
  intro slots
  induction slots with
  | nil => exact fun s => ⟨rfl, rfl, fun n => .inl rfl⟩
  | cons slot slots ih =>
    intro s
    have later : ∀ n, Listed env r slots n → Listed env r (slot :: slots) n := by
      rintro n ⟨i, p, member, staged, rfl⟩
      exact ⟨i, p, List.mem_cons_of_mem _ member, staged, rfl⟩
    obtain ⟨next, counter, names⟩ := ih (r.unlink_slot env s slot)
    rw [List.foldl_cons]
    have first : (r.unlink_slot env s slot).fs.next = s.fs.next ∧ (r.unlink_slot env s slot).counter = s.counter ∧
        ∀ n, (r.unlink_slot env s slot).fs.names n = s.fs.names n ∨
          (r.unlink_slot env s slot).fs.names n = none ∧ Listed env r (slot :: slots) n := by
      unfold Registry.unlink_slot
      cases slot with
      | none => exact ⟨rfl, rfl, fun n => .inl rfl⟩
      | some i =>
        cases staged : r.staged i with
        | none =>
          simp only [Option.bind_some, staged]
          exact ⟨trivial, trivial, fun n => .inl trivial⟩
        | some p =>
          simp only [Option.bind_some, staged]
          obtain ⟨next, counter, names⟩ := unlink_names env p s
          refine ⟨next, counter, fun n => (names n).imp id ?_⟩
          rintro ⟨gone, rfl⟩
          exact ⟨gone, i, p, List.mem_cons_self, staged, rfl⟩
    obtain ⟨next₁, counter₁, names₁⟩ := first
    refine ⟨next.trans next₁, counter.trans counter₁, ?_⟩
    intro n
    rcases names n with same | ⟨gone, listed⟩
    · rcases names₁ n with same₁ | ⟨gone₁, listed⟩
      · exact .inl (same.trans same₁)
      · exact .inr ⟨same.trans gone₁, listed⟩
    · exact .inr ⟨gone, later n listed⟩

/-- Where no call fails, what the slots point at is gone, unless it is a directory. -/
theorem unlink_slots_gone {env : Environment} (quiet : env.Quiet) (r : Registry ι) {n : Name} :
    ∀ (slots : List (Option ι)) (s : System), Listed env r slots n → s.fs.names n ≠ some .directory →
      (slots.foldl (r.unlink_slot env) s).fs.names n = none := by
  intro slots
  induction slots with
  | nil =>
    rintro s ⟨i, p, member, _⟩
    cases member
  | cons slot slots ih =>
    rintro s ⟨i, p, member, staged, rfl⟩ file
    rw [List.foldl_cons]
    have kept : (r.unlink_slot env s slot).fs.names (env.locate p) ≠ some .directory := by
      obtain ⟨_, _, names⟩ := unlink_slots env r [slot] s
      rcases names (env.locate p) with same | ⟨gone, _⟩
      · exact fun directory => file (same.symm.trans directory)
      · intro directory
        cases gone.symm.trans directory
    rcases List.mem_cons.mp member with rfl | later
    · have gone : (r.unlink_slot env s (some i)).fs.names (env.locate p) = none := by
        simp only [Registry.unlink_slot, Option.bind_some, staged, System.unlink, call_quiet quiet]
        split
        · assumption
        · next directory => exact absurd directory file
        · exact if_pos rfl
      obtain ⟨_, _, names⟩ := unlink_slots env r slots (r.unlink_slot env s (some i))
      rcases names (env.locate p) with same | ⟨gone', _⟩
      · exact same.trans gone
      · exact gone'
    · exact ih _ ⟨i, p, later, staged, rfl⟩ kept

/-- A released slot points nowhere. -/
theorem untracked_subset {r : Registry ι} {j : ι} (t : OutputTransaction) {k : Nat} (pointed : (r.untracked t)[k]? = some (some j)) :
    r.staged_paths[k]? = some (some j) := by
  unfold Registry.untracked at pointed
  cases slot : t.slot_ with
  | none =>
    simp only [slot] at pointed
    exact pointed
  | some l =>
    simp only [slot, List.getElem?_set] at pointed
    by_cases here : l = k
    · rw [if_pos here] at pointed
      split at pointed <;> cases pointed
    · rw [if_neg here] at pointed
      exact pointed

end

/-! ### The steps of the registry -/

section
variable {ι : Type} [DecidableEq ι] {r r' : Registry ι} {i j : ι} {action : Action ι}

/-- No slot points at a path with this name. -/
def Unlisted (env : Environment) (r : Registry ι) (n : Name) : Prop :=
  ∀ (k : Nat) i p, r.staged_paths[k]? = some (some i) → r.staged i = some p → env.locate p ≠ n

/-- The step does not bring a committed output and a slot together: no slot points
    at the name that a rename replaces, and no slot is claimed for a path at which
    a rename has left a committed output meanwhile. -/
def Clear (env : Environment) (r : Registry ι) : Action ι → Prop
  | .advance i =>
    (∀ t temporary, r.objects i = some ⟨t, .replacing temporary⟩ →
      (r.system.rename env temporary t.destination_).1 = none → Unlisted env r (env.locate t.destination_)) ∧
    (∀ t k p, r.objects i = some ⟨t, .tracking k⟩ → r.staged_paths[k]? = some none → t.temporary_ = some p →
      ∀ node, r.system.fs.names (env.locate p) = some node → (env.locate p, node) ∉ r.committed)
  | _ => True

/-- What a step does. -/
inductive Change (env : Environment) (r : Registry ι) : Action ι → Registry ι → Prop
  | nothing {action : Action ι} (clear : Clear env r action) : Change env r action r
  | constructed {i : ι} (absent : r.objects i = none) : Change env r (.construct i) (r.put i (some {}))
  | resumed {action : Action ι} {i : ι} {o : TransactionObject} {q : TransactionObject × System}
      (here : r.objects i = some o) (clear : Clear env r action) (proceeds : Proceeds env o r.system q.1 q.2) :
      Change env r action (r.resume i q)
  | claimed {i : ι} {t : OutputTransaction} {k : Nat} (here : r.objects i = some ⟨t, .tracking k⟩)
      (free : r.staged_paths[k]? = some none) :
      Change env r (.advance i)
        { (r.put i (some ⟨{ t with slot_ := some k }, .copying⟩)) with staged_paths := r.staged_paths.set k (some i) }
  | released {i : ι} {o : TransactionObject} {left : Option TransactionObject} (here : r.objects i = some o)
      (clear : Clear env r (.advance i))
      (leaves : left = none ∨ left = some ⟨{ o.transaction with slot_ := none }, .clearing⟩) :
      Change env r (.advance i) { (r.put i left) with staged_paths := r.untracked o.transaction }
  | replaced {i : ι} {t : OutputTransaction} {p : Path} {node : Node} (here : r.objects i = some ⟨t, .replacing p⟩)
      (source : r.system.fs.names (env.locate p) = some node) (clock : Nat)
      (takes : (r.system.rename env p t.destination_).1 = none) :
      Change env r (.advance i)
        { (r.put i (some ⟨t, .releasing⟩)) with
          system := (later r.system clock).set (r.system.fs.rename (env.locate p) (env.locate t.destination_))
          committed := r.committed ++ [(env.locate t.destination_, node)] }
  | discarded : Change env r .discard_all_staged (r.discard_all_staged env)

theorem replace_changes {temporary : Path} (here : r.objects i = some ⟨t, .replacing temporary⟩)
    (fits : Fits ⟨t, .replacing temporary⟩) : Change env r (.advance i) (r.replace env i t temporary) := by
  unfold Registry.replace OutputTransaction.replace
  rcases Discarding.rename_runs env temporary t.destination_ r.system with ⟨message, clock, run⟩ | ⟨node, clock, present, run⟩
  · simp only [run]
    apply Change.resumed (q := (⟨t, .idle _⟩, later r.system clock)) here
    · refine ⟨?_, ?_⟩
      · intro t' p' here' takes
        obtain ⟨rfl, same⟩ := TransactionObject.mk.inj (Option.some.inj (here.symm.trans here'))
        obtain rfl := Phase.replacing.inj same
        rw [run] at takes
        cases takes
      · intro t' k p' here'
        cases here.symm.trans here'
    · exact proceeds_standing fits rfl trivial rfl
  · simp only [run, present]
    exact .replaced here present clock (by rw [run])

theorem claim_changes {k : Nat} (here : r.objects i = some ⟨t, .tracking k⟩) (fits : Fits ⟨t, .tracking k⟩) :
    Change env r (.advance i) (r.claim i t k) := by
  unfold Registry.claim
  have clear : r.staged_paths[k]? ≠ some none → Clear env r (.advance i) := by
    refine fun taken => ⟨?_, ?_⟩
    · intro t' p here'
      cases here.symm.trans here'
    · intro t' k' p here' free
      obtain ⟨_, same⟩ := TransactionObject.mk.inj (Option.some.inj (here.symm.trans here'))
      obtain rfl := Phase.tracking.inj same
      exact absurd free taken
  cases slot : r.staged_paths[k]? with
  | none =>
    refine .resumed (q := (⟨t, .copying⟩, r.system)) here (clear ?_) (proceeds_standing fits rfl trivial rfl)
    simp [slot]
  | some owner =>
    cases owner with
    | none => exact .claimed here slot
    | some other =>
      refine .resumed (q := (⟨t, .tracking (k + 1)⟩, r.system)) here (clear ?_)
        (proceeds_standing fits rfl fits.due rfl)
      simp [slot]

theorem advance_changes (fits : ∀ o, r.objects i = some o → Fits o) : Change env r (.advance i) (r.advance env i) := by
  unfold Registry.advance
  cases here : r.objects i with
  | none =>
    refine .nothing ⟨?_, ?_⟩
    · intro t p here'
      cases here.symm.trans here'
    · intro t k p here'
      cases here.symm.trans here'
  | some o =>
    obtain ⟨t, phase⟩ := o
    have fits := fits _ here
    have clear : (∀ p, phase ≠ .replacing p) → (∀ k, phase ≠ .tracking k) → Clear env r (.advance i) := by
      refine fun unplaced untracked => ⟨?_, ?_⟩
      · intro t' p here'
        obtain ⟨_, same⟩ := TransactionObject.mk.inj (Option.some.inj (here.symm.trans here'))
        exact absurd same (unplaced p)
      · intro t' k p here'
        obtain ⟨_, same⟩ := TransactionObject.mk.inj (Option.some.inj (here.symm.trans here'))
        exact absurd same (untracked k)
    cases phase with
    | tracking k => exact claim_changes here fits
    | replacing p => exact replace_changes here fits
    | releasing => exact .released here (clear nofun nofun) (.inr rfl)
    | forgetting => exact .released here (clear nofun nofun) (.inl rfl)
    | _ => exact .resumed here (clear nofun nofun) (proceed_proceeds fits)

theorem call_changes {method : OutputTransaction → System → TransactionObject × System}
    (fits : ∀ o, r.objects i = some o → Fits o) (clear : Clear env r action)
    (proceeds : ∀ t result, Fits ⟨t, .idle result⟩ →
      Proceeds env ⟨t, .idle result⟩ r.system (method t r.system).1 (method t r.system).2) :
    Change env r action (r.call i method) := by
  unfold Registry.call
  split
  · next t result here => exact .resumed here clear (proceeds t result (fits _ here))
  · exact .nothing clear

theorem accept_proceeds {destination : Path} {inputs : List Path} (fits : Fits ⟨t, phase⟩) :
    Proceeds env ⟨t, phase⟩ s
      (TransactionObject.part (OutputTransaction.accept destination inputs) (fun _ => .inspecting .staging) t s).1
      (TransactionObject.part (OutputTransaction.accept destination inputs) (fun _ => .inspecting .staging) t s).2 := by
  obtain ⟨blank, slotted, due⟩ := fits
  have still : Proceeds env ⟨t, phase⟩ s ⟨t, .idle (.error ⟨.invalid_argument, "Output transaction already opened"⟩)⟩ s :=
    proceeds_standing ⟨blank, slotted, due⟩ rfl trivial rfl
  unfold TransactionObject.part OutputTransaction.accept
  by_cases unaimed : t.destination_.empty = true
  · have aimed : OutputTransaction.aim destination inputs (t, s) =
        .ok () ({ t with destination_ := destination, inputs_ := inputs }, s) := if_pos unaimed
    have nothing : t.temporary_ = none := blank unaimed
    rw [bind_ok aimed]
    by_cases named : destination.filename = ""
    · rw [if_pos named]
      exact ⟨⟨fun _ => nothing, slotted, trivial⟩, rfl, Nat.le_refl _, fun n node named => .inl named,
        fun p staged => .inl staged, Nat.le_refl _, fun p kept => still.reserved p kept⟩
    · rw [if_neg named]
      have full : destination.empty = false := by simp [Path.empty, named]
      exact ⟨⟨fun _ => nothing, slotted, nothing, full⟩, rfl, Nat.le_refl _, fun n node named => .inl named,
        fun p staged => .inl staged, Nat.le_refl _, fun p kept => still.reserved p kept⟩
  · have refused : OutputTransaction.aim destination inputs (t, s) =
        .error ⟨.invalid_argument, "Output transaction already opened"⟩ (t, s) := if_neg unaimed
    rw [bind_error refused]
    exact still

theorem step_changes (fits : ∀ i o, r.objects i = some o → Fits o) : Change env r action (r.step env action) := by
  cases action with
  | construct i =>
    cases here : r.objects i with
    | none =>
      simp only [Registry.step, here, Option.isSome_none, Bool.false_eq_true, if_false]
      exact .constructed here
    | some o =>
      simp only [Registry.step, here, Option.isSome_some, if_true]
      exact .nothing trivial
  | open_ i destination inputs => exact call_changes (fits i) trivial fun t result fits => accept_proceeds fits
  | write i chunk =>
    exact call_changes (fits i) trivial fun t result fits => proceeds_standing fits rfl trivial rfl
  | commit i =>
    simp only [Registry.step]
    apply call_changes (fits i) (show Clear env r (.commit i) from trivial)
    intro t result fits
    cases staged : t.temporary_ with
    | none =>
      simp only
      exact proceeds_standing fits rfl trivial rfl
    | some p =>
      simp only
      exact proceeds_standing fits rfl staged rfl
  | destroy i =>
    exact call_changes (fits i) trivial fun t result fits =>
      part_standing fits close_file_standing (fun _ => trivial) (fun _ => rfl)
  | advance i => exact advance_changes (fits i)
  | discard_all_staged => exact .discarded

end

end Roll.Stepping
