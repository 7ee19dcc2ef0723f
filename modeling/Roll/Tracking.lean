import Roll.Stepping

/-!
The registry of staged paths, over any interleaving of the steps of any number
of transactions.

Every slot points at the staged path of the one transaction that owns it, and
only that transaction releases it. A signal handler removes files that were
created as staged ones, and it removes a committed output exactly when a rename
has put that output at a path that a slot points at.
-/
namespace Roll.Tracking
open Roll.Calm Roll.Stepping

variable {env : Environment} {α : Type}

/-! ### The names of staged files -/

theorem last_part {p : α → Bool} {front back : List α} {a : α} (stop : p a = false) (all : ∀ b ∈ back, p b = true) :
    (front ++ a :: back).reverse.takeWhile p = back.reverse := by
  rw [List.reverse_append, List.reverse_cons, List.append_assoc, List.takeWhile_append_of_pos]
  · simp [stop]
  · exact fun b member => all b (List.mem_reverse.mp member)

/-- The counter is what follows the last dash. -/
theorem candidate_end (destination : Path) (a b c : Nat) :
    (OutputTransaction.candidate destination a b c).filename.toList.reverse.takeWhile (· ≠ '-') =
      (Nat.toDigits 10 c).reverse := by
  have parts : (OutputTransaction.candidate destination a b c).filename.toList =
      (".rolling_hash-" ++ toString a ++ "-" ++ toString b).toList ++ '-' :: Nat.toDigits 10 c := by
    simp [OutputTransaction.candidate, String.toList_append, Nat.toList_repr]
  rw [parts]
  apply last_part
  · decide
  · intro d member
    have digit := Nat.isDigit_of_mem_toDigits (by decide) (by decide) member
    have other : d ≠ '-' := by
      rintro rfl
      exact absurd digit (by decide)
    simpa using other

/-- Candidates of different counters have different filenames. -/
theorem candidate_counter {d d' : Path} {a a' b b' c c' : Nat}
    (same : (OutputTransaction.candidate d a b c).filename = (OutputTransaction.candidate d' a' b' c').filename) :
    c = c' := by
  have ends := candidate_end d a b c
  rw [same, candidate_end, List.reverse_inj] at ends
  rw [← Nat.ofDigitChars_ten_toDigits (n := c), ← ends, Nat.ofDigitChars_ten_toDigits]

section
variable {ι : Type} [DecidableEq ι] {r r' : Registry ι} {i j : ι} {action : Action ι} {o : TransactionObject}
  {t : OutputTransaction} {phase : Phase}

/-! ### Owners -/

/-- An object is the one that was put, or it is as it was. -/
theorem put_cases {left : Option TransactionObject} (there : (r.put i left).objects j = some o) :
    j = i ∧ left = some o ∨ j ≠ i ∧ r.objects j = some o := by
  by_cases same : j = i
  · subst same
    exact .inl ⟨rfl, by simpa [Registry.put] using there⟩
  · exact .inr ⟨same, by simpa [Registry.put, same] using there⟩

theorem put_bind {β : Type} (f : TransactionObject → Option β) (o : Option TransactionObject) :
    ((r.put i o).objects j).bind f = if j = i then o.bind f else (r.objects j).bind f := by
  by_cases here : j = i
  · subst here
    simp [Registry.put]
  · simp [Registry.put, here]

/-- Transactions fit, and a slot points at a transaction if and only if the
    transaction holds that slot. -/
structure Owned (r : Registry ι) : Prop where
  fits : ∀ i o, r.objects i = some o → Fits o
  owner : ∀ (k : Nat) i, r.staged_paths[k]? = some (some i) ↔ r.slot i = some k

theorem put_fits (fits : ∀ i o, r.objects i = some o → Fits o) {left : Option TransactionObject}
    (fit : ∀ o, left = some o → Fits o) : ∀ j o, (r.put i left).objects j = some o → Fits o := by
  intro j o here
  rcases put_cases here with ⟨_, new⟩ | ⟨_, old⟩
  · exact fit o new
  · exact fits j o old

/-- A transaction that keeps its slot. -/
theorem owned_put (owned : Owned r) {left : Option TransactionObject} (fit : ∀ o, left = some o → Fits o)
    (same : left.bind (·.transaction.slot_) = r.slot i) : Owned (r.put i left) := by
  obtain ⟨fits, owner⟩ := owned
  refine ⟨put_fits fits fit, ?_⟩
  intro k j
  refine (owner k j).trans ?_
  rw [show (r.put i left).slot j = _ from put_bind _ _]
  by_cases here : j = i
  · rw [if_pos here, same, here]
  · rw [if_neg here]
    rfl

/-- A free slot gets a transaction that has none. -/
theorem owned_claim (owned : Owned r) {k : Nat} (free : r.staged_paths[k]? = some none) (unslotted : r.slot i = none)
    {o : TransactionObject} (fit : Fits o) (slotted : o.transaction.slot_ = some k) :
    Owned { (r.put i (some o)) with staged_paths := r.staged_paths.set k (some i) } := by
  obtain ⟨fits, owner⟩ := owned
  obtain ⟨inside, _⟩ := List.getElem?_eq_some_iff.mp free
  refine ⟨put_fits fits (fun o' same => Option.some.inj same ▸ fit), ?_⟩
  intro l j
  show (r.staged_paths.set k (some i))[l]? = some (some j) ↔ (r.put i (some o)).slot j = some l
  rw [show (r.put i (some o)).slot j = _ from put_bind _ _, List.getElem?_set]
  have old := owner l j
  by_cases here : k = l
  · subst here
    rw [if_pos rfl, if_pos inside]
    by_cases same : j = i
    · simp [same, slotted]
    · rw [if_neg same]
      have other : r.slot j ≠ some k := by
        intro held
        rw [← old, free] at held
        cases held
      constructor
      · intro pointed
        exact absurd (Option.some.inj (Option.some.inj pointed)).symm same
      · intro held
        exact absurd held other
  · rw [if_neg here, old]
    by_cases same : j = i
    · simp [same, slotted, unslotted, here]
    · rw [if_neg same]
      rfl

/-- A slot is released by its owner. -/
theorem owned_release (owned : Owned r) {o : TransactionObject} (here : r.objects i = some o)
    {left : Option TransactionObject} (fit : ∀ o, left = some o → Fits o)
    (released : left.bind (·.transaction.slot_) = none) :
    Owned { (r.put i left) with staged_paths := r.untracked o.transaction } := by
  have mine : r.slot i = o.transaction.slot_ := by simp [Registry.slot, here]
  obtain ⟨fits, owner⟩ := owned
  refine ⟨put_fits fits fit, ?_⟩
  intro l j
  show (r.untracked o.transaction)[l]? = some (some j) ↔ (r.put i left).slot j = some l
  rw [show (r.put i left).slot j = _ from put_bind _ _, released]
  have old := owner l j
  unfold Registry.untracked
  cases slot : o.transaction.slot_ with
  | none =>
    simp only
    rw [old]
    by_cases same : j = i
    · simp [same, mine, slot]
    · rw [if_neg same]
      rfl
  | some k =>
    simp only [List.getElem?_set]
    have pointed : r.staged_paths[k]? = some (some i) := (owner k i).mpr (mine.trans slot)
    by_cases last : k = l
    · subst last
      obtain ⟨inside, _⟩ := List.getElem?_eq_some_iff.mp pointed
      rw [if_pos rfl, if_pos inside]
      by_cases same : j = i
      · simp [same]
      · rw [if_neg same]
        constructor
        · intro impossible
          cases Option.some.inj impossible
        · intro held
          have pointed' := old.mpr held
          rw [pointed] at pointed'
          exact absurd (Option.some.inj (Option.some.inj pointed')).symm same
    · rw [if_neg last, old]
      by_cases same : j = i
      · simp [same, mine, slot, last]
      · rw [if_neg same]
        rfl

theorem change_owned (change : Change env r action r') (owned : Owned r) : Owned r' := by
  cases change with
  | nothing => exact owned
  | @constructed i absent =>
    apply owned_put owned
    · intro o same
      obtain rfl := Option.some.inj same
      exact ⟨fun _ => rfl, fun _ => rfl, trivial⟩
    · simp [Registry.slot, absent]
  | @resumed _ i o q here _ proceeds =>
    have put : Owned (r.put i (some q.1)) := by
      apply owned_put owned
      · intro o' same
        obtain rfl := Option.some.inj same
        exact proceeds.fits
      · simp [Registry.slot, here, proceeds.slot]
    exact ⟨put.fits, put.owner⟩
  | @claimed i t k here free =>
    obtain ⟨blank, slotted, unslotted, tracked⟩ := owned.fits i _ here
    apply owned_claim owned free
    · simp only [Registry.slot, here, Option.bind_some]
      exact unslotted
    · exact ⟨blank, fun nothing => absurd nothing tracked, trivial⟩
    · rfl
  | @released i o left here _ leaves =>
    obtain ⟨blank, slotted, _⟩ := owned.fits i _ here
    apply owned_release owned here
    · intro o' same
      rcases leaves with rfl | rfl
      · cases same
      · obtain rfl := Option.some.inj same
        exact ⟨blank, fun _ => rfl, rfl⟩
    · rcases leaves with rfl | rfl
      · rfl
      · rfl
  | @replaced i t p node here _ clock _ =>
    obtain ⟨blank, slotted, _⟩ := owned.fits i _ here
    have put : Owned (r.put i (some ⟨t, .releasing⟩)) := by
      apply owned_put owned
      · intro o' same
        obtain rfl := Option.some.inj same
        exact ⟨blank, slotted, trivial⟩
      · simp [Registry.slot, here]
    exact ⟨put.fits, put.owner⟩
  | discarded => exact ⟨owned.fits, owned.owner⟩

/-! ### The files -/

/-- The paths that transactions keep are candidates that were made before, no two
    of them with one filename. -/
structure Apart (r : Registry ι) : Prop where
  made : ∀ i p, (r.objects i).bind reserved = some p →
    ∃ d a b c, p = OutputTransaction.candidate d a b c ∧ c < r.system.counter
  apart : ∀ i j p q, (r.objects i).bind reserved = some p → (r.objects j).bind reserved = some q →
    p.filename = q.filename → i = j

/-- At a staged path there is at most a file that was created as a staged one, and
    so was every file that was committed. -/
structure Filed (env : Environment) (first : Nat) (r : Registry ι) : Prop where
  grown : first ≤ r.system.fs.next
  staged : ∀ i p node, r.staged i = some p → r.system.fs.names (env.locate p) = some node →
    ∃ inode, node = .file inode ∧ first ≤ inode
  committed : ∀ n node, (n, node) ∈ r.committed → ∃ inode, node = .file inode ∧ inode < r.system.fs.next

theorem apart_put (apart : Apart r) {left : Option TransactionObject} (objects : r'.objects = (r.put i left).objects)
    (counter : r.system.counter ≤ r'.system.counter)
    (kept : ∀ p, left.bind reserved = some p → (r.objects i).bind reserved = some p ∨
      (∃ d a b, p = OutputTransaction.candidate d a b r.system.counter) ∧ r.system.counter < r'.system.counter) :
    Apart r' := by
  obtain ⟨made, apart⟩ := apart
  -- Whatever a transaction keeps, it kept before, or it is the newest candidate.
  have origin : ∀ j p, (r'.objects j).bind reserved = some p → (r.objects j).bind reserved = some p ∨
      j = i ∧ (∃ d a b, p = OutputTransaction.candidate d a b r.system.counter) ∧ r.system.counter < r'.system.counter := by
    intro j p held
    rw [objects, put_bind] at held
    by_cases here : j = i
    · rw [if_pos here] at held
      subst here
      exact (kept p held).imp id fun new => ⟨rfl, new⟩
    · rw [if_neg here] at held
      exact .inl held
  have other : ∀ j p q, (r.objects j).bind reserved = some p →
      (∃ d a b, q = OutputTransaction.candidate d a b r.system.counter) → p.filename ≠ q.filename := by
    rintro j p q held ⟨d, a, b, rfl⟩ same
    obtain ⟨d', a', b', c, rfl, before⟩ := made j p held
    exact absurd (candidate_counter same) (Nat.ne_of_lt before)
  refine ⟨?_, ?_⟩
  · intro j p held
    rcases origin j p held with old | ⟨_, ⟨d, a, b, rfl⟩, later⟩
    · obtain ⟨d, a, b, c, rfl, before⟩ := made j p old
      exact ⟨d, a, b, c, rfl, Nat.lt_of_lt_of_le before counter⟩
    · exact ⟨d, a, b, _, rfl, later⟩
  · intro j l p q held held' same
    rcases origin j p held with old | ⟨rfl, new, _⟩ <;> rcases origin l q held' with old' | ⟨here, new', _⟩
    · exact apart j l p q old old' same
    · exact absurd same (other j p q old new')
    · exact absurd same.symm (other l q p old' new)
    · exact here.symm

theorem change_apart (change : Change env r action r') (apart : Apart r) : Apart r' := by
  cases change with
  | nothing => exact apart
  | constructed absent =>
    refine apart_put apart rfl (Nat.le_refl _) ?_
    intro p held
    cases held
  | resumed here _ proceeds =>
    refine apart_put apart rfl proceeds.counter ?_
    intro p held
    rw [here]
    exact proceeds.reserved p held
  | @claimed i t k here free =>
    refine apart_put apart rfl (Nat.le_refl _) ?_
    intro p held
    rw [here]
    exact .inl held
  | released here _ leaves =>
    refine apart_put apart rfl (Nat.le_refl _) ?_
    intro p held
    rw [here]
    rcases leaves with rfl | rfl
    · cases held
    · refine .inl ?_
      simp only [Option.bind_some, reserved, chosen, Option.or_none] at held ⊢
      simp [held]
  | replaced here _ clock _ =>
    refine apart_put apart rfl (Nat.le_refl _) ?_
    intro p held
    rw [here]
    exact .inl held
  | discarded =>
    obtain ⟨_, counter, _⟩ := unlink_slots env r r.staged_paths r.system
    obtain ⟨made, apart⟩ := apart
    refine ⟨?_, apart⟩
    intro i p held
    obtain ⟨d, a, b, c, same, before⟩ := made i p held
    exact ⟨d, a, b, c, same, Nat.lt_of_lt_of_le before (Nat.le_of_eq counter.symm)⟩

variable {first : Nat}

/-- Only one transaction changes, nothing is committed, and at most one file is new. -/
structure Touches (env : Environment) (r : Registry ι) (i : ι) (left : Option TransactionObject) (r' : Registry ι) :
    Prop where
  objects : r'.objects = (r.put i left).objects
  committed : r'.committed = r.committed
  next : r.system.fs.next ≤ r'.system.fs.next
  names : ∀ n node, r'.system.fs.names n = some node →
    r.system.fs.names n = some node ∨ node = .file r.system.fs.next ∧ r.system.fs.next < r'.system.fs.next
  staged : ∀ p, left.bind (·.transaction.temporary_) = some p → r.staged i = some p ∨
    r'.system.fs.names (env.locate p) = some (.file r.system.fs.next) ∧ r.system.fs.next < r'.system.fs.next

variable {left : Option TransactionObject}

/-- A step that touches no name. -/
theorem put_touches (staged : ∀ p, left.bind (·.transaction.temporary_) = some p → r.staged i = some p)
    (slots : List (Option ι)) : Touches env r i left { (r.put i left) with staged_paths := slots } :=
  ⟨rfl, rfl, Nat.le_refl _, fun _ _ named => .inl named, fun p here => .inl (staged p here)⟩

theorem resume_touches {q : TransactionObject × System} (here : r.objects i = some o)
    (proceeds : Proceeds env o r.system q.1 q.2) : Touches env r i (some q.1) (r.resume i q) := by
  refine ⟨rfl, rfl, proceeds.next, proceeds.names, ?_⟩
  intro p staged
  rw [Registry.staged, here]
  exact (proceeds.staged p staged).imp id And.right

/-- What is at a staged path was there before, unless the file is new. -/
theorem Touches.origin (touches : Touches env r i left r') {p : Path} {node : Node} (held : r'.staged j = some p)
    (named : r'.system.fs.names (env.locate p) = some node) :
    r.staged j = some p ∧ r.system.fs.names (env.locate p) = some node ∨ node = .file r.system.fs.next := by
  obtain ⟨objects, _, _, names, staged⟩ := touches
  have before : r.staged j = some p ∨ r'.system.fs.names (env.locate p) = some (.file r.system.fs.next) := by
    rw [Registry.staged, objects, put_bind] at held
    by_cases here : j = i
    · rw [if_pos here] at held
      subst here
      exact (staged p held).imp id And.left
    · rw [if_neg here] at held
      exact .inl held
  rcases names _ node named with old | ⟨new, _⟩
  · rcases before with same | fresh
    · exact .inl ⟨same, old⟩
    · exact .inr (Option.some.inj (named.symm.trans fresh))
  · exact .inr new

theorem filed_touches (filed : Filed env first r) (touches : Touches env r i left r') : Filed env first r' := by
  obtain ⟨grown, files, commits⟩ := filed
  refine ⟨Nat.le_trans grown touches.next, ?_, ?_⟩
  · intro j p node held named
    rcases touches.origin held named with ⟨staged, old⟩ | new
    · exact files j p node staged old
    · exact ⟨_, new, grown⟩
  · intro n node listed
    obtain ⟨inode, same, before⟩ := commits n node (touches.committed ▸ listed)
    exact ⟨inode, same, Nat.lt_of_lt_of_le before touches.next⟩

theorem constructed_touches (env : Environment) (r : Registry ι) (i : ι) : Touches env r i (some {}) (r.put i (some {})) :=
  put_touches (fun p staged => by cases staged) r.staged_paths

theorem released_touches (here : r.objects i = some o)
    (leaves : left = none ∨ left = some ⟨{ o.transaction with slot_ := none }, .clearing⟩) (slots : List (Option ι)) :
    Touches env r i left { (r.put i left) with staged_paths := slots } := by
  apply put_touches
  intro p staged
  rw [Registry.staged, here]
  rcases leaves with rfl | rfl
  · cases staged
  · exact staged

/-- The rename keeps every staged path. -/
theorem releasing_staged (here : r.objects i = some ⟨t, phase⟩) :
    (r.put i (some ⟨t, .releasing⟩)).staged j = r.staged j := by
  rw [Registry.staged, put_bind]
  by_cases same : j = i
  · rw [if_pos same, Registry.staged, same, here]
    rfl
  · rw [if_neg same, Registry.staged]

theorem rename_target (fs : FileSystem) (source target : Name) : (fs.rename source target).names target = fs.names source := by
  unfold FileSystem.rename
  by_cases same : fs.names source = fs.names target
  · rw [if_pos same]
    exact same.symm
  · rw [if_neg same]
    exact if_pos rfl

theorem change_filed (change : Change env r action r') (owned : Owned r) (filed : Filed env first r) :
    Filed env first r' := by
  cases change with
  | nothing => exact filed
  | constructed absent => exact filed_touches filed (constructed_touches env r _)
  | resumed here _ proceeds => exact filed_touches filed (resume_touches here proceeds)
  | claimed here free =>
    refine filed_touches filed (put_touches ?_ _)
    intro p staged
    rw [Registry.staged, here]
    exact staged
  | released here _ leaves => exact filed_touches filed (released_touches here leaves _)
  | @replaced i t p node here source clock takes =>
    obtain ⟨grown, files, commits⟩ := filed
    have mine : r.staged i = some p := by
      have due : t.temporary_ = some p := (owned.fits i _ here).due
      simp [Registry.staged, here, due]
    obtain ⟨inode, rfl, new⟩ := files i p node mine source
    have next : (r.system.fs.rename (env.locate p) (env.locate t.destination_)).next = r.system.fs.next := by
      unfold FileSystem.rename
      split <;> rfl
    refine ⟨Nat.le_trans grown (Nat.le_of_eq next.symm), ?_, ?_⟩
    · intro j q found staged named
      have staged' : r.staged j = some q := (releasing_staged here).symm.trans staged
      rcases Discarding.rename_named named with last | ⟨old, _⟩
      · have arrived := (rename_target r.system.fs (env.locate p) (env.locate t.destination_)).trans source
        rw [last] at named
        exact ⟨inode, (Option.some.inj (arrived.symm.trans named)).symm, new⟩
      · exact files j q found staged' old
    · intro n found listed
      rcases List.mem_append.mp listed with old | new
      · obtain ⟨inode, same, before⟩ := commits n found old
        exact ⟨inode, same, Nat.lt_of_lt_of_le before (Nat.le_of_eq next.symm)⟩
      · obtain ⟨_, rfl⟩ := Prod.mk.inj (List.mem_singleton.mp new)
        exact ⟨inode, rfl, Nat.lt_of_lt_of_le (r.system.fs.used _ _ source) (Nat.le_of_eq next.symm)⟩
  | discarded =>
    obtain ⟨next, _, names⟩ := unlink_slots env r r.staged_paths r.system
    obtain ⟨grown, files, commits⟩ := filed
    refine ⟨Nat.le_trans grown (Nat.le_of_eq next.symm), ?_, ?_⟩
    · intro j p node staged named
      rcases names (env.locate p) with same | ⟨gone, _⟩
      · exact files j p node staged (same.symm.trans named)
      · cases gone.symm.trans named
    · intro n node listed
      obtain ⟨inode, same, before⟩ := commits n node listed
      exact ⟨inode, same, Nat.lt_of_lt_of_le before (Nat.le_of_eq next.symm)⟩

/-! ### Committed outputs -/

/-- No slot points at a committed output. -/
def Spared (env : Environment) (r : Registry ι) : Prop :=
  ∀ (k : Nat) i p node, r.staged_paths[k]? = some (some i) → r.staged i = some p →
    r.system.fs.names (env.locate p) = some node → (env.locate p, node) ∉ r.committed

/-- A signal handler takes no committed output away, whichever of its calls fail. -/
def Safe (env : Environment) (r : Registry ι) : Prop :=
  ∀ faults n node, (n, node) ∈ r.committed → r.system.fs.names n = some node →
    (r.discard_all_staged { env with faults }).system.fs.names n = some node

omit [DecidableEq ι] in
theorem safe_iff (filed : Filed env first r) : Safe env r ↔ Spared env r := by
  constructor
  · intro safe k i p node pointed staged named listed
    obtain ⟨inode, rfl, _⟩ := filed.staged i p node staged named
    have quiet : ({ env with faults := fun _ => none } : Environment).Quiet := fun _ => rfl
    have file : r.system.fs.names (env.locate p) ≠ some .directory := by
      rw [named]
      nofun
    have gone := unlink_slots_gone quiet r r.staged_paths r.system ⟨i, p, List.mem_of_getElem? pointed, staged, rfl⟩ file
    have kept := safe (fun _ => none) _ _ listed named
    cases gone.symm.trans kept
  · intro spared faults n node listed named
    obtain ⟨_, _, names⟩ := unlink_slots { env with faults } r r.staged_paths r.system
    rcases names n with same | ⟨_, i, p, member, staged, rfl⟩
    · exact same.trans named
    · obtain ⟨k, pointed⟩ := List.getElem?_of_mem member
      exact absurd listed (spared k i p node pointed staged named)

/-- A step of one transaction, after which the slots point where they did. -/
theorem spared_touches (filed : Filed env first r) (touches : Touches env r i left r')
    (slots : ∀ (k : Nat) j, r'.staged_paths[k]? = some (some j) → r.staged_paths[k]? = some (some j))
    (spared : Spared env r) : Spared env r' := by
  intro k j p node pointed held named
  rw [touches.committed]
  rcases touches.origin held named with ⟨staged, old⟩ | rfl
  · exact spared k j p node (slots k j pointed) staged old
  · intro listed
    obtain ⟨inode, same, before⟩ := filed.committed _ _ listed
    obtain rfl := Node.file.inj same
    exact absurd before (Nat.lt_irrefl _)

/-- A slot that is claimed points at no committed output if and only if there is none
    at the staged path. -/
theorem claimed_spared {k : Nat} (here : r.objects i = some ⟨t, .tracking k⟩)
    (free : r.staged_paths[k]? = some none) (spared : Spared env r) :
    Spared env { (r.put i (some ⟨{ t with slot_ := some k }, .copying⟩)) with
        staged_paths := r.staged_paths.set k (some i) } ↔ Clear env r (.advance i) := by
  have kept : ∀ j, (r.put i (some ⟨{ t with slot_ := some k }, .copying⟩)).staged j = r.staged j := by
    intro j
    rw [Registry.staged, put_bind]
    by_cases same : j = i
    · rw [if_pos same, Registry.staged, same, here]
      rfl
    · rw [if_neg same, Registry.staged]
  obtain ⟨inside, _⟩ := List.getElem?_eq_some_iff.mp free
  constructor
  · intro after
    refine ⟨?_, ?_⟩
    · intro t' p here'
      cases here.symm.trans here'
    · intro t' k' p here' _ staged node named
      obtain ⟨rfl, same⟩ := TransactionObject.mk.inj (Option.some.inj (here.symm.trans here'))
      obtain rfl := Phase.tracking.inj same
      refine after k i p node ?_ ((kept i).trans ?_) named
      · exact List.getElem?_set_self inside
      · simp [Registry.staged, here, staged]
  · rintro ⟨_, clear⟩ l j p node pointed staged named
    have staged' : r.staged j = some p := (kept j).symm.trans staged
    have pointed' : (r.staged_paths.set k (some i))[l]? = some (some j) := pointed
    by_cases same : k = l
    · subst same
      rw [List.getElem?_set_self inside] at pointed'
      obtain rfl := Option.some.inj (Option.some.inj pointed')
      apply clear t k p here free _ node named
      simpa [Registry.staged, here] using staged'
    · rw [List.getElem?_set_ne same] at pointed'
      exact spared l j p node pointed' staged' named

/-- After a rename no slot points at a committed output if and only if none pointed
    at the destination. -/
theorem replaced_spared {p : Path} {node : Node} (here : r.objects i = some ⟨t, .replacing p⟩)
    (source : r.system.fs.names (env.locate p) = some node) (clock : Nat)
    (takes : (r.system.rename env p t.destination_).1 = none) (spared : Spared env r) :
    Spared env { (r.put i (some ⟨t, .releasing⟩)) with
        system := (later r.system clock).set (r.system.fs.rename (env.locate p) (env.locate t.destination_))
        committed := r.committed ++ [(env.locate t.destination_, node)] } ↔ Clear env r (.advance i) := by
  have arrived := (rename_target r.system.fs (env.locate p) (env.locate t.destination_)).trans source
  constructor
  · intro after
    refine ⟨?_, ?_⟩
    · intro t' p' here' _ k j q pointed staged same
      obtain ⟨rfl, _⟩ := TransactionObject.mk.inj (Option.some.inj (here.symm.trans here'))
      apply after k j q node pointed ((releasing_staged here).trans staged)
      · show (r.system.fs.rename (env.locate p) (env.locate t.destination_)).names (env.locate q) = some node
        rw [same]
        exact arrived
      · show (env.locate q, node) ∈ r.committed ++ [(env.locate t.destination_, node)]
        rw [same]
        exact List.mem_append_right _ List.mem_cons_self
    · intro t' k p' here'
      cases here.symm.trans here'
  · rintro ⟨unlisted, _⟩ k j q found pointed staged named listed
    have staged' : r.staged j = some q := (releasing_staged here).symm.trans staged
    have other : env.locate q ≠ env.locate t.destination_ := unlisted t p here takes k j q pointed staged'
    rcases Discarding.rename_named named with last | ⟨old, _⟩
    · exact other last
    · rcases List.mem_append.mp listed with before | new
      · exact spared k j q found pointed staged' old before
      · exact other (Prod.mk.inj (List.mem_singleton.mp new)).1

theorem change_spared (change : Change env r action r') (filed : Filed env first r)
    (spared : Spared env r) : Spared env r' ↔ Clear env r action := by
  cases change with
  | nothing clear => exact iff_of_true spared clear
  | constructed absent =>
    refine iff_of_true ?_ trivial
    exact spared_touches filed (constructed_touches env r _) (fun k j pointed => pointed) spared
  | resumed here clear proceeds =>
    refine iff_of_true ?_ clear
    exact spared_touches filed (resume_touches here proceeds) (fun k j pointed => pointed) spared
  | claimed here free => exact claimed_spared here free spared
  | released here clear leaves =>
    refine iff_of_true ?_ clear
    exact spared_touches filed (released_touches here leaves _) (fun k j pointed => untracked_subset _ pointed) spared
  | replaced here source clock takes => exact replaced_spared here source clock takes spared
  | discarded =>
    refine iff_of_true ?_ trivial
    obtain ⟨_, _, names⟩ := unlink_slots env r r.staged_paths r.system
    intro k i p node pointed staged named
    rcases names (env.locate p) with same | ⟨gone, _⟩
    · exact spared k i p node pointed staged (same.symm.trans named)
    · cases gone.symm.trans named

/-! ### Runs -/

theorem run_concat (env : Environment) (system : System) (actions : List (Action ι)) (action : Action ι) :
    Registry.run env system (actions ++ [action]) = (Registry.run env system actions).step env action := by
  simp [Registry.run]

/-- What holds in every state of every run. -/
structure Sound (env : Environment) (first : Nat) (r : Registry ι) : Prop where
  owned : Owned r
  apart : Apart r
  filed : Filed env first r

theorem run_sound (env : Environment) (system : System) (actions : List (Action ι)) :
    Sound env system.fs.next (Registry.run env system actions) := by
  induction actions using List.reverseRecOn with
  | nil =>
    refine ⟨⟨?_, ?_⟩, ⟨?_, ?_⟩, Nat.le_refl _, ?_, ?_⟩
    · intro i o here
      cases here
    · intro k i
      constructor
      · intro pointed
        have empty : (List.replicate 16 none)[k]? = some (some i) := pointed
        rw [List.getElem?_replicate] at empty
        split at empty <;> cases empty
      · intro held
        cases held
    · intro i p held
      cases held
    · intro i j p q held
      cases held
    · intro i p node held
      cases held
    · intro n node listed
      cases listed
  | append_singleton actions action ih =>
    obtain ⟨owned, apart, filed⟩ := ih
    rw [run_concat]
    have change : Change env (Registry.run env system actions) action _ := step_changes owned.fits
    exact ⟨change_owned change owned, change_apart change apart, change_filed change owned filed⟩

theorem start_spared (env : Environment) (system : System) : Spared env (Registry.run env system ([] : List (Action ι))) := by
  intro k i p node _ staged
  cases staged

/-- The registry is safe throughout a run if and only if each step of it is clear. -/
theorem run_safe (env : Environment) (system : System) (actions : List (Action ι)) :
    (∀ done, done <+: actions → Safe env (Registry.run env system done)) ↔
      ∀ done action, done ++ [action] <+: actions → Clear env (Registry.run env system done) action := by
  have safe : ∀ done : List (Action ι), Safe env (Registry.run env system done) ↔
      Spared env (Registry.run env system done) := fun done => safe_iff (run_sound env system done).filed
  have next : ∀ (done : List (Action ι)) action, Spared env (Registry.run env system done) →
      (Spared env (Registry.run env system (done ++ [action])) ↔ Clear env (Registry.run env system done) action) := by
    intro done action spared
    obtain ⟨owned, _, filed⟩ := run_sound env system done
    rw [run_concat]
    exact change_spared (step_changes owned.fits) filed spared
  constructor
  · intro always done action here
    have before := (safe done).mp (always done ((List.prefix_append done [action]).trans here))
    exact (next done action before).mp ((safe _).mp (always _ here))
  · intro clear done
    induction done using List.reverseRecOn with
    | nil => exact fun _ => (safe []).mpr (start_spared env system)
    | append_singleton done action ih =>
      intro here
      have before := (safe done).mp (ih ((List.prefix_append done [action]).trans here))
      exact (safe _).mpr ((next done action before).mpr (clear done action here))

/-- A slot only changes where a transaction claims a free one or releases its own. -/
theorem change_slots (change : Change env r action r') {k : Nat} (moved : r'.staged_paths[k]? ≠ r.staged_paths[k]?) :
    ∃ i, action = .advance i ∧ (r.staged_paths[k]? = some none ∧ r'.staged_paths[k]? = some (some i) ∨
      r.slot i = some k ∧ r'.staged_paths[k]? = some none) := by
  cases change with
  | nothing => exact absurd rfl moved
  | constructed => exact absurd rfl moved
  | resumed => exact absurd rfl moved
  | @claimed i t l here free =>
    obtain ⟨inside, _⟩ := List.getElem?_eq_some_iff.mp free
    refine ⟨i, rfl, .inl ?_⟩
    by_cases same : l = k
    · subst same
      exact ⟨free, List.getElem?_set_self inside⟩
    · exact absurd (List.getElem?_set_ne same) moved
  | @released i o left here =>
    have set : (r.untracked o.transaction)[k]? ≠ r.staged_paths[k]? := moved
    show ∃ j, _ ∧ (_ ∨ _ ∧ (r.untracked o.transaction)[k]? = some none)
    refine ⟨i, rfl, .inr ?_⟩
    unfold Registry.untracked at set ⊢
    cases slot : o.transaction.slot_ with
    | none =>
      simp only [slot] at set
      exact absurd rfl set
    | some l =>
      simp only [slot] at set ⊢
      by_cases same : l = k
      · subst same
        have inside : l < r.staged_paths.length := by
          by_contra outside
          exact set (by rw [List.set_eq_of_length_le (by omega)])
        exact ⟨by simp [Registry.slot, here, slot], List.getElem?_set_self inside⟩
      · exact absurd (List.getElem?_set_ne same) set
  | replaced => exact absurd rfl moved
  | discarded => exact absurd rfl moved

omit [DecidableEq ι] in
theorem staged_reserved {p : Path} (staged : r.staged i = some p) : (r.objects i).bind reserved = some p := by
  obtain ⟨o, here, temporary⟩ := Option.bind_eq_some_iff.mp staged
  rw [here]
  simp [reserved, temporary]

/-- In every state of every run a slot points at the staged path of the one
    transaction that holds it, and at no other's; a transaction claims only free
    slots and releases only its own; a signal handler only takes files away that
    were created as staged files, at the staged paths of transactions with a slot.
    It spares the committed outputs throughout a run if and only if each step of the
    run is clear. -/
theorem staged_paths_are_tracked (env : Environment) (system : System) (actions : List (Action ι)) :
    let r := Registry.run env system actions
    (∀ (k : Nat) i, r.staged_paths[k]? = some (some i) → r.slot i = some k ∧
      ∃ p, r.staged i = some p ∧ ∀ j q, r.staged j = some q → env.locate q = env.locate p → j = i) ∧
    (∀ i j k, r.slot i = some k → r.slot j = some k → i = j) ∧
    (∀ action (k : Nat), (r.step env action).staged_paths[k]? ≠ r.staged_paths[k]? → ∃ i, action = .advance i ∧
      (r.staged_paths[k]? = some none ∧ (r.step env action).staged_paths[k]? = some (some i) ∨
        r.slot i = some k ∧ (r.step env action).staged_paths[k]? = some none)) ∧
    (∀ faults n, (r.discard_all_staged { env with faults }).system.fs.names n ≠ r.system.fs.names n →
      (∃ i k p, r.slot i = some k ∧ r.staged i = some p ∧ n = env.locate p) ∧
        ∃ inode, r.system.fs.names n = some (.file inode) ∧ system.fs.next ≤ inode) ∧
    ((∀ done, done <+: actions → Safe env (Registry.run env system done)) ↔
      ∀ done action, done ++ [action] <+: actions → Clear env (Registry.run env system done) action) := by
  intro r
  obtain ⟨owned, ⟨_, apart⟩, filed⟩ := run_sound env system actions
  refine ⟨?_, ?_, ?_, ?_, run_safe env system actions⟩
  · intro k i pointed
    have held : r.slot i = some k := (owned.owner k i).mp pointed
    obtain ⟨o, here, slotted⟩ := Option.bind_eq_some_iff.mp held
    have staged : o.transaction.temporary_ ≠ none := by
      intro nothing
      rw [(owned.fits i o here).slotted nothing] at slotted
      cases slotted
    obtain ⟨p, temporary⟩ := Option.ne_none_iff_exists'.mp staged
    have mine : r.staged i = some p := by rw [Registry.staged, here, Option.bind_some, temporary]
    refine ⟨held, p, mine, ?_⟩
    intro j q theirs same
    exact apart j i q p (staged_reserved theirs) (staged_reserved mine) (Prod.mk.inj same).2
  · intro i j k held held'
    have pointed := (owned.owner k i).mpr held
    have pointed' := (owned.owner k j).mpr held'
    exact Option.some.inj (Option.some.inj (pointed.symm.trans pointed'))
  · intro action k moved
    exact change_slots (step_changes owned.fits) moved
  · intro faults n moved
    obtain ⟨_, _, names⟩ := unlink_slots { env with faults } r r.staged_paths r.system
    obtain ⟨gone, i, p, member, staged, rfl⟩ := (names n).resolve_left moved
    obtain ⟨k, pointed⟩ := List.getElem?_of_mem member
    refine ⟨⟨i, k, p, (owned.owner k i).mp pointed, staged, rfl⟩, ?_⟩
    obtain ⟨node, named⟩ : ∃ node, r.system.fs.names (env.locate p) = some node := by
      apply Option.ne_none_iff_exists'.mp
      intro absent
      exact moved (gone.trans absent.symm)
    obtain ⟨inode, rfl, new⟩ := filed.staged i p node staged named
    exact ⟨inode, named, new⟩

/-- One transaction stages its file; another one has that path for its destination
    and commits to it. -/
def commitOverStaged : List (Action Bool) :=
  [.construct false, .open_ false ⟨"", "out"⟩ []] ++ List.replicate 6 (.advance false) ++
    [.construct true, .open_ true ⟨"", ".rolling_hash-0-1-0"⟩ []] ++ List.replicate 7 (.advance true) ++
    [.commit true] ++ List.replicate 7 (.advance true)

/-- After that commit, a signal takes the committed output away. -/
theorem committed_output_is_discarded :
    (Registry.run {} { fs := .holding [] } commitOverStaged).staged true = none ∧
      ¬ Safe {} (Registry.run {} { fs := .holding [] } commitOverStaged) := by
  have committed : (Registry.run {} { fs := .holding [] } commitOverStaged).committed =
      [((0, ".rolling_hash-0-1-0"), .file 1)] := by decide +kernel
  have named : (Registry.run {} { fs := .holding [] } commitOverStaged).system.fs.names (0, ".rolling_hash-0-1-0") =
      some (.file 1) := by decide +kernel
  have gone : ((Registry.run {} { fs := .holding [] } commitOverStaged).discard_all_staged {}).system.fs.names
      (0, ".rolling_hash-0-1-0") = none := by decide +kernel
  refine ⟨by decide +kernel, ?_⟩
  intro safe
  have kept := safe (fun _ => none) (0, ".rolling_hash-0-1-0") (.file 1) (committed ▸ List.mem_cons_self) named
  cases gone.symm.trans kept

end

end Roll.Tracking
