import Roll.Tracking

/-!
A transaction that is left alone: the steps of a method, one after another, do
what the method of `OutputTransaction` does, where the slots hold the paths that
they point at.
-/
namespace Roll.Uninterrupted
open Roll.Parsing Roll.Outcome Roll.Calm Roll.Staging Roll.Stepping Roll.Tracking

variable {env : Environment} {α β : Type}

/-! ### Parts that leave the slots alone -/

/-- The system with other slots. -/
def withSlots (s : System) (slots : List (Option Path)) : System := { s with staged_paths := slots }

/-- The computation neither reads nor changes the slots. -/
def Blind (m : OutputM α) : Prop := ∀ t s slots, m (t, withSlots s slots) =
  match m (t, s) with
  | .ok a (t', s') => .ok a (t', withSlots s' slots)
  | .error e (t', s') => .error e (t', withSlots s' slots)

variable {s : System} {slots : List (Option Path)}

theorem status_slots (env : Environment) (p : Path) :
    (withSlots s slots).status env p = ((s.status env p).1, withSlots (s.status env p).2 slots) := by
  unfold System.status System.call withSlots
  cases env.faults s.clock with
  | some message => rfl
  | none =>
    dsimp only
    cases s.fs.lookup (env.locate p) <;> rfl

theorem equivalent_slots (env : Environment) (p q : Path) :
    (withSlots s slots).equivalent env p q = ((s.equivalent env p q).1, withSlots (s.equivalent env p q).2 slots) := by
  unfold System.equivalent System.call withSlots
  cases env.faults s.clock with
  | some message => rfl
  | none =>
    dsimp only
    cases s.fs.lookup (env.locate p) <;> cases s.fs.lookup (env.locate q) <;> rfl

theorem rename_slots (env : Environment) (p q : Path) :
    (withSlots s slots).rename env p q = ((s.rename env p q).1, withSlots (s.rename env p q).2 slots) := by
  unfold System.rename System.call withSlots
  cases env.faults s.clock with
  | some message => rfl
  | none =>
    dsimp only
    split <;> rfl

theorem remove_slots (env : Environment) (p : Path) :
    (withSlots s slots).remove env p = withSlots (s.remove env p) slots := by
  unfold System.remove System.call withSlots
  cases env.faults s.clock with
  | some message => rfl
  | none =>
    dsimp only
    split <;> rfl

theorem permissions_slots (env : Environment) (p : Path) (mode : Nat) :
    (withSlots s slots).permissions env p mode =
      ((s.permissions env p mode).1, withSlots (s.permissions env p mode).2 slots) := by
  unfold System.permissions System.call withSlots
  cases env.faults s.clock with
  | some message => rfl
  | none =>
    dsimp only
    split <;> rfl

theorem create_slots (env : Environment) (p : Path) :
    FileIo.create env p (withSlots s slots) = ((FileIo.create env p s).1, withSlots (FileIo.create env p s).2 slots) := by
  unfold FileIo.create System.call withSlots
  cases env.faults s.clock with
  | some message => rfl
  | none =>
    dsimp only
    split <;> rfl

theorem inspect_blind (env : Environment) : Blind (OutputTransaction.inspect env) := by
  intro t s slots
  simp only [OutputTransaction.inspect, status_slots]
  generalize s.status env t.destination_ = r
  obtain ⟨result, s'⟩ := r
  rcases result with message | _ | node
  · rfl
  · rfl
  · by_cases regular : System.is_regular node = true
    · simp [regular]
    · simp [regular]

theorem compareInputs_blind (env : Environment) (input : Path) : Blind (OutputTransaction.compareInputs env [input]) := by
  intro t s slots
  simp only [OutputTransaction.compareInputs, equivalent_slots]
  generalize s.equivalent env t.destination_ input = r
  obtain ⟨result, s'⟩ := r
  rcases result with message | _ | _ <;> rfl

theorem next_candidate_blind (env : Environment) : Blind (OutputTransaction.next_candidate env) := fun _ _ _ => rfl

theorem open_candidate_blind (env : Environment) (path : Path) : Blind (OutputTransaction.open_candidate env path) := by
  intro t s slots
  simp only [OutputTransaction.open_candidate, FileIo.open_exclusive, create_slots]
  generalize FileIo.create env path s = r
  obtain ⟨created, s'⟩ := r
  cases created with
  | none => rfl
  | some inode =>
    by_cases exclusive : env.noreplace = true
    · simp [exclusive]
    · simp only [exclusive, System.call, withSlots]
      cases env.faults s'.clock with
      | some message => rfl
      | none =>
        dsimp only
        cases env.faults (s'.clock + 1) <;> rfl

theorem is_taken_blind (env : Environment) (path : Path) : Blind (OutputTransaction.is_taken env path) := by
  intro t s slots
  simp only [OutputTransaction.is_taken, System.exists_, status_slots]
  generalize s.status env path = r
  obtain ⟨result, s'⟩ := r
  rcases result with message | node <;> rfl

theorem copyPermissions_blind (env : Environment) : Blind (OutputTransaction.copyPermissions env) := by
  intro t s slots
  simp only [OutputTransaction.copyPermissions, status_slots]
  generalize s.status env t.destination_ = r
  obtain ⟨result, s'⟩ := r
  rcases result with message | _ | node
  · rfl
  · rfl
  · cases node with
    | file inode =>
      cases t.temporary_ with
      | none => rfl
      | some temporary =>
        dsimp only
        rw [show (withSlots s' slots).fs.permissions inode = s'.fs.permissions inode from rfl, permissions_slots]
        generalize s'.permissions env temporary (s'.fs.permissions inode) = r
        obtain ⟨failed, s''⟩ := r
        cases failed <;> rfl
    | directory => rfl
    | other => rfl
    | link target => rfl

theorem replace_blind (env : Environment) (temporary : Path) : Blind (OutputTransaction.replace env temporary) := by
  intro t s slots
  simp only [OutputTransaction.replace, rename_slots]
  generalize s.rename env temporary t.destination_ = r
  obtain ⟨failed, s'⟩ := r
  cases failed <;> rfl

theorem release_blind (env : Environment) : Blind (OutputTransaction.release env) := fun _ _ _ => rfl

theorem close_file_blind : Blind OutputTransaction.close_file := by
  intro t s slots
  unfold OutputTransaction.close_file
  dsimp only
  split <;> rfl

theorem blind_bind {m : OutputM α} {f : α → OutputM β} (first : Blind m) (second : ∀ a, Blind (f a)) : Blind (m >>= f) := by
  intro t s slots
  have begun := first t s slots
  cases run : m (t, s) with
  | ok a q =>
    rw [run] at begun
    rw [bind_ok begun, bind_ok run]
    exact second a _ _ slots
  | error e q =>
    rw [run] at begun
    rw [bind_error begun, bind_error run]

theorem stage_none_blind (env : Environment) : Blind (OutputTransaction.stage env 0) := by
  intro t s slots
  rw [stage_none, stage_none]

theorem sync_file_blind (env : Environment) : Blind (OutputTransaction.sync_file env) := by
  intro t s slots
  unfold OutputTransaction.sync_file System.call withSlots
  dsimp only
  cases env.faults s.clock with
  | none => rfl
  | some message => cases env.faults (s.clock + 1) <;> rfl

theorem sync_staged_blind (env : Environment) (path : Path) : Blind (OutputTransaction.sync_staged env path) := by
  intro t s slots
  unfold OutputTransaction.sync_staged
  dsimp only
  rw [show (withSlots s slots).fs = s.fs from rfl]
  cases s.fs.lookup (env.locate path) with
  | missing => rfl
  | looping => rfl
  | «at» node => exact sync_file_blind env t s slots

theorem close_staged_blind : Blind OutputTransaction.close_staged := by
  apply blind_bind close_file_blind
  intro closed t s slots
  have got : ∀ s : System, (get : OutputM _) (t, s) = .ok (t, s) (t, s) := fun _ => rfl
  rw [bind_ok (got _), bind_ok (got _)]
  by_cases failed : (!closed || t.file_.has_error) = true
  · simp only [if_pos failed]
    rfl
  · simp only [if_neg failed]
    rfl

/-! ### The methods in parts -/

theorem compareInputs_parts (env : Environment) (input : Path) (rest : List Path) :
    OutputTransaction.compareInputs env (input :: rest) =
      OutputTransaction.compareInputs env [input] >>= fun _ => OutputTransaction.compareInputs env rest := by
  funext ⟨t, s⟩
  cases compared : s.equivalent env t.destination_ input with
  | mk result s₁ =>
    rcases result with message | _ | _
    · have first : OutputTransaction.compareInputs env [input] (t, s) =
          .error ⟨.io_error, "Cannot compare output and input: " ++ message⟩ (t, s₁) := by
        simp only [OutputTransaction.compareInputs, compared]
      rw [bind_error first]
      simp only [OutputTransaction.compareInputs, compared]
    · have first : OutputTransaction.compareInputs env [input] (t, s) = .ok () (t, s₁) := by
        simp only [OutputTransaction.compareInputs, compared]
        rfl
      rw [bind_ok first, OutputTransaction.compareInputs]
      simp only [compared]
    · have first : OutputTransaction.compareInputs env [input] (t, s) =
          .error ⟨.invalid_argument, "Output path aliases input: " ++ input.string⟩ (t, s₁) := by
        simp only [OutputTransaction.compareInputs, compared]
      rw [bind_error first]
      simp only [OutputTransaction.compareInputs, compared]

theorem validateDestination_parts (env : Environment) : OutputTransaction.validateDestination env =
    OutputTransaction.inspect env >>= OutputTransaction.compareInputs env := by
  funext ⟨t, s⟩
  simp only [OutputTransaction.validateDestination, OutputTransaction.inspect, bind, EStateM.bind]
  generalize s.status env t.destination_ = r
  obtain ⟨result, s₁⟩ := r
  rcases result with message | _ | node
  · rfl
  · rfl
  · by_cases regular : System.is_regular node = true
    · simp [regular]
    · simp [regular]

theorem open_parts (env : Environment) (destination : Path) (inputs : List Path) :
    OutputTransaction.open_ env destination inputs = (do
      OutputTransaction.accept destination inputs
      OutputTransaction.validateDestination env
      OutputTransaction.stage env OutputTransaction.ATTEMPTS) := by
  unfold OutputTransaction.open_ OutputTransaction.accept
  rw [bind_assoc]
  congr 1
  funext _
  by_cases unnamed : destination.filename = ""
  · rw [if_pos unnamed, if_pos unnamed]
    rfl
  · rw [if_neg unnamed, if_neg unnamed]
    rfl

theorem flush_parts (env : Environment) : OutputTransaction.flush env = (do
    OutputTransaction.close_staged
    if ← OutputTransaction.sync_file env then pure () else throw ⟨.io_error, "Failed to flush output file"⟩) := by
  unfold OutputTransaction.flush OutputTransaction.close_staged
  rw [bind_assoc]
  congr 1
  funext closed
  rw [bind_assoc]
  congr 1
  funext ⟨t, s⟩
  by_cases failed : (!closed || t.file_.has_error) = true
  · simp only [if_pos failed]
    rfl
  · simp only [if_neg failed]
    rfl

/-! ### Runs of one transaction -/

section
variable {ι : Type} [DecidableEq ι] {i j : ι} {r r' r'' : Registry ι} {o : TransactionObject} {t : OutputTransaction}
  {phase phase' : Phase}

/-- Steps of one transaction with nothing between them. -/
inductive Alone (env : Environment) (i : ι) : Registry ι → Registry ι → Prop
  | done (r : Registry ι) : Alone env i r r
  | step {r r' : Registry ι} (rest : Alone env i (r.advance env i) r') : Alone env i r r'

theorem Alone.trans (first : Alone env i r r') (second : Alone env i r' r'') : Alone env i r r'' := by
  induction first with
  | done r => exact second
  | step rest ih => exact .step (ih second)

theorem Alone.one (env : Environment) (i : ι) (r : Registry ι) : Alone env i r (r.advance env i) := .step (.done _)

/-- The system whose slots hold the paths that they point at. -/
def view (r : Registry ι) : System := withSlots r.system (r.staged_paths.map (·.bind r.staged))

/-- A method that ends with this result in this state. -/
def returned (result : Except DeltaError Unit) (q : OutputTransaction × System) :
    EStateM.Result DeltaError (OutputTransaction × System) Unit :=
  match result with
  | .ok () => .ok () q
  | .error e => .error e q

/-- From this phase on, the steps of the transaction do what `m` does. -/
def Completes (env : Environment) (i : ι) (phase : Phase) (m : OutputM Unit) : Prop :=
  ∀ (r : Registry ι) t, Owned r → r.objects i = some ⟨t, phase⟩ →
    ∃ r' t' result, Alone env i r r' ∧ Owned r' ∧ r'.objects i = some ⟨t', .idle result⟩ ∧
      m (t, view r) = returned result (t', view r')

theorem completes_idle (env : Environment) (i : ι) (result : Except DeltaError Unit) :
    Completes env i (.idle result) (match result with
      | .ok () => pure ()
      | .error e => throw e) := by
  intro r t owned here
  refine ⟨r, t, result, .done r, owned, here, ?_⟩
  cases result with
  | ok _ => rfl
  | error e => rfl

omit [DecidableEq ι] in
theorem Owned.pointed (owned : Owned r) (member : some j ∈ r.staged_paths) : ∃ k, r.slot j = some k := by
  obtain ⟨k, pointed⟩ := List.getElem?_of_mem member
  exact ⟨k, (owned.owner k j).mp pointed⟩

omit [DecidableEq ι] in
/-- The view of a registry whose slots point at staged paths of another one. -/
theorem view_pointed (r r' : Registry ι) (same : ∀ j, some j ∈ r'.staged_paths → r'.staged j = r.staged j) :
    view r' = withSlots r'.system (r'.staged_paths.map (·.bind r.staged)) := by
  unfold view
  congr 1
  apply List.map_congr_left
  intro slot member
  cases slot with
  | none => rfl
  | some j => exact same j member

/-- A step of a transaction that has a slot leaves its staged path. -/
theorem slotted_staged (fits : Fits o) {o' : TransactionObject} {s s' : System} (proceeds : Proceeds env o s o' s')
    {k : Nat} (slotted : o.transaction.slot_ = some k) : o'.transaction.temporary_ = o.transaction.temporary_ := by
  cases old : o.transaction.temporary_ with
  | none =>
    rw [fits.slotted old] at slotted
    cases slotted
  | some p =>
    cases new : o'.transaction.temporary_ with
    | none =>
      rw [← proceeds.slot, proceeds.fits.slotted new] at slotted
      cases slotted
    | some p' =>
      rcases proceeds.staged p' new with kept | ⟨nothing, _⟩
      · exact kept.symm.trans old
      · cases nothing.symm.trans old

theorem view_resume {q : TransactionObject × System} (owned : Owned r) (here : r.objects i = some o)
    (proceeds : Proceeds env o r.system q.1 q.2) : view (r.resume i q) = withSlots q.2 (view r).staged_paths := by
  refine view_pointed r (r.resume i q) ?_
  intro j member
  obtain ⟨k, held⟩ := Owned.pointed owned member
  show ((r.put i (some q.1)).objects j).bind _ = _
  rw [put_bind]
  by_cases same : j = i
  · subst same
    rw [if_pos rfl, Registry.staged, here]
    rw [Registry.slot, here] at held
    exact slotted_staged (owned.fits j o here) proceeds held
  · rw [if_neg same]
    rfl

/-- The step goes through `proceed`. -/
def Plain : Phase → Prop
  | .tracking _ => False
  | .replacing _ => False
  | .releasing => False
  | .forgetting => False
  | _ => True

theorem advance_plain (plain : Plain phase) (here : r.objects i = some ⟨t, phase⟩) :
    r.advance env i = r.resume i (TransactionObject.proceed env t r.system phase) := by
  unfold Registry.advance
  rw [here]
  cases phase with
  | tracking => exact plain.elim
  | replacing => exact plain.elim
  | releasing => exact plain.elim
  | forgetting => exact plain.elim
  | _ => rfl

/-- A part of a method, and then the steps that do the rest of it. -/
theorem part_completes {m : OutputM α} {f : α → Phase} {g : α → OutputM Unit} (owned : Owned r)
    (here : r.objects i = some o)
    (proceeds : Proceeds env o r.system (TransactionObject.part m f o.transaction r.system).1
      (TransactionObject.part m f o.transaction r.system).2)
    (blind : Blind m) (rest : ∀ a, Completes env i (f a) (g a)) :
    ∃ r' t' result, Alone env i (r.resume i (TransactionObject.part m f o.transaction r.system)) r' ∧ Owned r' ∧
      r'.objects i = some ⟨t', .idle result⟩ ∧ (m >>= g) (o.transaction, view r) = returned result (t', view r') := by
  have seen := view_resume owned here proceeds
  have change : Change env r (.construct i) (r.resume i (TransactionObject.part m f o.transaction r.system)) :=
    .resumed here trivial proceeds
  have owned' := change_owned change owned
  have acts := blind o.transaction r.system (view r).staged_paths
  have here' : (r.resume i (TransactionObject.part m f o.transaction r.system)).objects i =
      some (TransactionObject.part m f o.transaction r.system).1 := Function.update_self ..
  generalize stepped : r.resume i (TransactionObject.part m f o.transaction r.system) = r₁ at seen owned' here' ⊢
  unfold TransactionObject.part at here' seen
  cases run : m (o.transaction, r.system) with
  | ok a q =>
    obtain ⟨t₁, s₁⟩ := q
    rw [run] at acts
    simp only [run] at here' seen
    obtain ⟨r', t', result, alone, owned'', idle, same⟩ := rest a r₁ t₁ owned' here'
    refine ⟨r', t', result, alone, owned'', idle, ?_⟩
    rw [bind_ok (show m (o.transaction, view r) = _ from acts), ← same, seen]
  | error e q =>
    obtain ⟨t₁, s₁⟩ := q
    rw [run] at acts
    simp only [run] at here' seen
    refine ⟨r₁, t₁, .error e, .done r₁, owned', here', ?_⟩
    rw [bind_error (show m (o.transaction, view r) = _ from acts), seen]
    rfl

theorem completes_part {m : OutputM α} {f : α → Phase} {g : α → OutputM Unit} (plain : Plain phase)
    (part : ∀ t s, TransactionObject.proceed env t s phase = TransactionObject.part m f t s) (blind : Blind m)
    (rest : ∀ a, Completes env i (f a) (g a)) : Completes env i phase (m >>= g) := by
  intro r t owned here
  have proceeds : Proceeds env ⟨t, phase⟩ r.system _ _ := proceed_proceeds (owned.fits i _ here)
  have stepped : r.advance env i = _ := advance_plain plain here
  rw [part] at proceeds stepped
  obtain ⟨r', t', result, alone, rest⟩ := part_completes owned here proceeds blind rest
  exact ⟨r', t', result, .step (stepped ▸ alone), rest⟩

/-- A step that only goes on to another phase. -/
theorem completes_silent {m : OutputM Unit} (plain : Plain phase)
    (part : ∀ t s, TransactionObject.proceed env t s phase = (⟨t, phase'⟩, s)) (rest : Completes env i phase' m) :
    Completes env i phase m := by
  have whole : Completes env i phase ((pure () : OutputM Unit) >>= fun _ => m) :=
    completes_part (f := fun _ => phase') plain part (fun _ _ _ => rfl) (fun _ => rest)
  rwa [pure_bind] at whole

/-! ### `open` -/

theorem completes_copying (env : Environment) (i : ι) : Completes env i .copying (OutputTransaction.copyPermissions env) := by
  have whole : Completes env i .copying (OutputTransaction.copyPermissions env >>= fun _ => pure ()) :=
    completes_part trivial (fun _ _ => rfl) (copyPermissions_blind env) (fun _ => completes_idle env i (.ok ()))
  rwa [bind_pure_unit] at whole

theorem put_put (r : Registry ι) (i : ι) (first last : Option TransactionObject) :
    (r.put i first).put i last = r.put i last := by
  simp [Registry.put]

/-- Left alone, a transaction claims the first free slot. -/
theorem claims_alone (env : Environment) : ∀ (left k : Nat) (r : Registry ι), r.staged_paths.length = k + left →
    r.objects i = some ⟨t, .tracking k⟩ → (∀ l < k, r.staged_paths[l]? ≠ some none) →
    Alone env i r (match r.staged_paths.findIdx? (·.isNone) with
      | some l => { (r.put i (some ⟨{ t with slot_ := some l }, .copying⟩)) with
          staged_paths := r.staged_paths.set l (some i) }
      | none => r.put i (some ⟨t, .copying⟩)) := by
  intro left
  induction left with
  | zero =>
    intro k r length here taken
    have full : r.staged_paths.findIdx? (·.isNone) = none := by
      rw [List.findIdx?_eq_none_iff]
      intro slot member
      obtain ⟨l, inside, rfl⟩ := List.getElem_of_mem member
      have used := taken l (by omega)
      rw [List.getElem?_eq_getElem inside] at used
      simpa [Option.isSome_iff_ne_none] using used
    have past : r.staged_paths[k]? = none := List.getElem?_eq_none (by omega)
    have step : r.advance env i = r.put i (some ⟨t, .copying⟩) := by simp [Registry.advance, here, Registry.claim, past]
    rw [full]
    simp only [← step]
    exact Alone.one env i r
  | succ left ih =>
    intro k r length here taken
    cases slot : r.staged_paths[k]? with
    | none =>
      have outside := List.getElem?_eq_none_iff.mp slot
      omega
    | some owner =>
      cases owner with
      | none =>
        obtain ⟨inside, free⟩ := List.getElem?_eq_some_iff.mp slot
        have found : r.staged_paths.findIdx? (·.isNone) = some k := by
          rw [List.findIdx?_eq_some_iff_getElem]
          refine ⟨inside, by simp [free], ?_⟩
          intro l before
          have used := taken l before
          rw [List.getElem?_eq_getElem (by omega)] at used
          simpa using used
        have step : r.advance env i = { (r.put i (some ⟨{ t with slot_ := some k }, .copying⟩)) with
            staged_paths := r.staged_paths.set k (some i) } := by
          simp [Registry.advance, here, Registry.claim, slot]
        rw [found]
        simp only [← step]
        exact Alone.one env i r
      | some other =>
        have step : r.advance env i = r.put i (some ⟨t, .tracking (k + 1)⟩) := by
          simp [Registry.advance, here, Registry.claim, slot]
        have taken' : ∀ l < k + 1, r.staged_paths[l]? ≠ some none := by
          intro l before
          by_cases last : l = k
          · subst last
            rw [slot]
            nofun
          · exact taken l (by omega)
        have length' : r.staged_paths.length = k + 1 + left := by omega
        have rest := ih (k + 1) (r.put i (some ⟨t, .tracking (k + 1)⟩)) length' (by simp [Registry.put]) taken'
        refine .step ?_
        rw [step]
        simp only [put_put] at rest
        exact rest

omit [DecidableEq ι] in
/-- The slots of a view are free where the slots are. -/
theorem view_free (owned : Owned r) : (view r).staged_paths.findIdx? (·.isNone) = r.staged_paths.findIdx? (·.isNone) := by
  have marks : ∀ p : Option ι → Bool, r.staged_paths.findIdx? p = (r.staged_paths.map p).findIdx? id :=
    fun p => by rw [List.findIdx?_map, Function.id_comp]
  show (r.staged_paths.map (·.bind r.staged)).findIdx? (·.isNone) = _
  rw [List.findIdx?_map, marks, marks (·.isNone)]
  congr 1
  apply List.map_congr_left
  intro slot member
  cases slot with
  | none => rfl
  | some j =>
    obtain ⟨k, held⟩ := Owned.pointed owned member
    obtain ⟨o, here, slotted⟩ := Option.bind_eq_some_iff.mp held
    cases staged : o.transaction.temporary_ with
    | none =>
      rw [(owned.fits j o here).slotted staged] at slotted
      cases slotted
    | some p => simp [Registry.staged, here, staged]

theorem put_staged (here : r.objects i = some o) (left : TransactionObject)
    (same : left.transaction.temporary_ = o.transaction.temporary_) : (r.put i (some left)).staged = r.staged := by
  funext j
  rw [Registry.staged, put_bind]
  by_cases mine : j = i
  · rw [if_pos mine, Registry.staged, mine, here]
    exact same
  · rw [if_neg mine, Registry.staged]

omit [DecidableEq ι] in
theorem view_staged (r r' : Registry ι) (same : r'.staged = r.staged) :
    view r' = withSlots r'.system (r'.staged_paths.map (·.bind r.staged)) :=
  view_pointed r r' (fun j _ => congrFun same j)

theorem resume_view (here : r.objects i = some o) (left : TransactionObject)
    (same : left.transaction.temporary_ = o.transaction.temporary_) (s : System) :
    view (r.resume i (left, s)) = withSlots s (view r).staged_paths := by
  have staged : (r.resume i (left, s)).staged = r.staged := put_staged here left same
  exact view_staged r _ staged

theorem alone_owned (alone : Alone env i r r') (owned : Owned r) : Owned r' := by
  induction alone with
  | done r => exact owned
  | @step r _ rest ih =>
    have change : Change env r (.advance i) (r.advance env i) := advance_changes (owned.fits i)
    exact ih (change_owned change owned)

/-- Left alone, the claims of a transaction do what `track` does. -/
theorem completes_tracking {m : OutputM Unit} (rest : Completes env i .copying m) :
    Completes env i (.tracking 0) (OutputTransaction.track >>= fun _ => m) := by
  intro r t owned here
  have claims := claims_alone env r.staged_paths.length 0 r (Nat.zero_add _).symm here (fun l before => by omega)
  have owned' := alone_owned claims owned
  have free := view_free owned
  have track : ∃ t₁ r₁, Alone env i r r₁ ∧ r₁.objects i = some ⟨t₁, .copying⟩ ∧
      OutputTransaction.track (t, view r) = .ok () (t₁, view r₁) := by
    unfold OutputTransaction.track
    dsimp only
    rw [free]
    cases found : r.staged_paths.findIdx? (·.isNone) with
    | none =>
      simp only [found] at claims
      refine ⟨t, _, claims, by simp [Registry.put], ?_⟩
      rw [view_staged r _ (put_staged here ⟨t, .copying⟩ rfl)]
      rfl
    | some l =>
      simp only [found] at claims
      refine ⟨{ t with slot_ := some l }, _, claims, by simp [Registry.put], ?_⟩
      have mine : r.staged i = t.temporary_ := by simp [Registry.staged, here]
      have seen : view { (r.put i (some ⟨{ t with slot_ := some l }, .copying⟩)) with
          staged_paths := r.staged_paths.set l (some i) } =
            withSlots r.system ((r.staged_paths.set l (some i)).map (·.bind r.staged)) :=
        view_staged r _ (put_staged here ⟨{ t with slot_ := some l }, .copying⟩ rfl)
      rw [seen, List.map_set, Option.bind_some, mine]
      rfl
  obtain ⟨t₁, r₁, alone, here₁, run⟩ := track
  obtain ⟨r', t', result, alone', owned'', idle, same⟩ := rest r₁ t₁ (alone_owned alone owned) here₁
  refine ⟨r', t', result, alone.trans alone', owned'', idle, ?_⟩
  rw [bind_ok run]
  exact same

theorem completes_last {m : OutputM Unit} (plain : Plain phase)
    (part : ∀ t s, TransactionObject.proceed env t s phase = TransactionObject.part m (fun _ => .idle (.ok ())) t s)
    (blind : Blind m) : Completes env i phase m := by
  have whole : Completes env i phase (m >>= fun _ => pure ()) :=
    completes_part plain part blind (fun _ => completes_idle env i (.ok ()))
  rwa [bind_pure_unit] at whole

theorem completes_naming (env : Environment) (i : ι) : ∀ attempts,
    Completes env i (.naming attempts) (OutputTransaction.stage env attempts) := by
  have none : Completes env i (.naming 0) (OutputTransaction.stage env 0) :=
    completes_last trivial (fun _ _ => rfl) (stage_none_blind env)
  intro attempts
  induction attempts with
  | zero => exact none
  | succ attempts ih =>
    have looking : ∀ path, Completes env i (.looking attempts path) (do
        if ← OutputTransaction.is_taken env path then OutputTransaction.stage env attempts
        else OutputTransaction.stage env 0) := by
      intro path
      refine completes_part (f := fun taken => .naming (if taken then attempts else 0)) trivial (fun _ _ => rfl)
        (is_taken_blind env path) ?_
      intro taken
      cases taken with
      | true => exact ih
      | false => exact none
    have creating : ∀ path, Completes env i (.creating attempts path) (do
        if ← OutputTransaction.open_candidate env path then
          OutputTransaction.track
          OutputTransaction.copyPermissions env
        else if ← OutputTransaction.is_taken env path then OutputTransaction.stage env attempts
        else OutputTransaction.stage env 0) := by
      intro path
      refine completes_part trivial (fun _ _ => rfl) (open_candidate_blind env path) ?_
      intro opened
      cases opened with
      | true => exact completes_tracking (completes_copying env i)
      | false => exact looking path
    rw [OutputTransaction.stage]
    exact completes_part (f := .creating attempts) trivial (fun _ _ => rfl) (next_candidate_blind env) creating

theorem completes_comparing {goal : Goal} {m : OutputM Unit} (rest : Completes env i (.comparing goal []) m) :
    ∀ inputs, Completes env i (.comparing goal inputs) (OutputTransaction.compareInputs env inputs >>= fun _ => m) := by
  intro inputs
  induction inputs with
  | nil => exact rest
  | cons input inputs ih =>
    rw [compareInputs_parts, bind_assoc]
    refine completes_part (f := fun _ => .comparing goal inputs) trivial ?_ (compareInputs_blind env input) (fun _ => ih)
    intro t s
    cases goal with
    | staging => rfl
    | replacing temporary => rfl

theorem completes_inspecting {goal : Goal} {m : OutputM Unit} (rest : Completes env i (.comparing goal []) m) :
    Completes env i (.inspecting goal) (OutputTransaction.validateDestination env >>= fun _ => m) := by
  rw [validateDestination_parts, bind_assoc]
  exact completes_part trivial (fun _ _ => rfl) (inspect_blind env) (completes_comparing rest)

theorem accept_blind (destination : Path) (inputs : List Path) : Blind (OutputTransaction.accept destination inputs) := by
  apply blind_bind
  · intro t s slots
    unfold OutputTransaction.aim
    dsimp only
    split <;> rfl
  · intro _ t s slots
    split <;> rfl

/-- `open` of a transaction that is left alone. -/
theorem open_alone (env : Environment) (destination : Path) (inputs : List Path) {last : Except DeltaError Unit}
    (owned : Owned r) (here : r.objects i = some ⟨t, .idle last⟩) :
    ∃ r' t' result, Alone env i (r.step env (.open_ i destination inputs)) r' ∧ Owned r' ∧
      r'.objects i = some ⟨t', .idle result⟩ ∧
      OutputTransaction.open_ env destination inputs (t, view r) = returned result (t', view r') := by
  have naming : Completes env i (.comparing .staging []) (OutputTransaction.stage env OutputTransaction.ATTEMPTS) :=
    completes_silent trivial (fun _ _ => rfl) (completes_naming env i _)
  have called : r.step env (.open_ i destination inputs) = r.resume i
      (TransactionObject.part (OutputTransaction.accept destination inputs) (fun _ => .inspecting .staging) t r.system) := by
    simp [Registry.step, Registry.call, here]
  rw [called, open_parts]
  exact part_completes owned here (accept_proceeds (owned.fits i _ here)) (accept_blind destination inputs)
    (fun _ => completes_inspecting naming)

/-! ### `commit` -/

theorem completes_clearing (env : Environment) (i : ι) : Completes env i .clearing (OutputTransaction.release env) :=
  completes_last trivial (fun _ _ => rfl) (release_blind env)

omit [DecidableEq ι] in
/-- The released slot holds no path. -/
theorem view_untracked (t : OutputTransaction) : (r.untracked t).map (·.bind r.staged) = match t.slot_ with
    | some k => (view r).staged_paths.set k none
    | none => (view r).staged_paths := by
  unfold Registry.untracked
  cases t.slot_ with
  | none => rfl
  | some k =>
    dsimp only
    rw [List.map_set]
    rfl

theorem completes_releasing {m : OutputM Unit} (rest : Completes env i .clearing m) :
    Completes env i .releasing (OutputTransaction.untrack >>= fun _ => m) := by
  intro r t owned here
  have stepped : r.advance env i = { (r.put i (some ⟨{ t with slot_ := none }, .clearing⟩)) with
      staged_paths := r.untracked t } := by simp [Registry.advance, here]
  have seen : view (r.advance env i) = withSlots r.system ((r.untracked t).map (·.bind r.staged)) := by
    rw [stepped]
    exact view_staged r _ (put_staged here ⟨{ t with slot_ := none }, .clearing⟩ rfl)
  have here' : (r.advance env i).objects i = some ⟨{ t with slot_ := none }, .clearing⟩ := by
    rw [stepped]
    simp [Registry.put]
  have run : OutputTransaction.untrack (t, view r) = .ok () ({ t with slot_ := none }, view (r.advance env i)) := by
    rw [seen, view_untracked]
    unfold OutputTransaction.untrack
    cases slot : t.slot_ with
    | none =>
      simp only [slot]
      rw [← slot]
      rfl
    | some k =>
      simp only [slot]
      rfl
  obtain ⟨r', t', result, alone, rest⟩ := rest (r.advance env i) _ (alone_owned (Alone.one env i r) owned) here'
  refine ⟨r', t', result, .step alone, ?_⟩
  rw [bind_ok run]
  exact rest

theorem completes_replacing {m : OutputM Unit} {temporary : Path} (rest : Completes env i .releasing m) :
    Completes env i (.replacing temporary) (OutputTransaction.replace env temporary >>= fun _ => m) := by
  intro r t owned here
  have stepped : r.advance env i = r.replace env i t temporary := by simp [Registry.advance, here]
  have owned' := alone_owned (Alone.one env i r) owned
  have acts := replace_blind env temporary t r.system (view r).staged_paths
  have same : ∀ s, OutputTransaction.replace env temporary (t, r.system) = s → (after s).1 = t := by
    rintro _ rfl
    unfold OutputTransaction.replace
    dsimp only
    split <;> rfl
  have seen : ∀ phase s committed,
      view { (r.put i (some ⟨t, phase⟩)) with system := s, committed := committed } = withSlots s (view r).staged_paths :=
    fun phase _ _ => view_staged r _ (put_staged here ⟨t, phase⟩ rfl)
  rw [stepped] at owned'
  unfold Registry.replace at stepped owned'
  cases run : OutputTransaction.replace env temporary (t, r.system) with
  | ok _ q =>
    obtain ⟨t₁, s₁⟩ := q
    obtain rfl : t₁ = t := same _ run
    rw [run] at acts
    simp only [run] at stepped owned'
    obtain ⟨r', t', result, alone, rest⟩ := rest _ t₁ owned' (by simp [Registry.put])
    refine ⟨r', t', result, .step (stepped ▸ alone), ?_⟩
    rw [seen] at rest
    rw [bind_ok (show OutputTransaction.replace env temporary (t₁, view r) = _ from acts)]
    exact rest
  | error e q =>
    obtain ⟨t₁, s₁⟩ := q
    obtain rfl : t₁ = t := same _ run
    rw [run] at acts
    simp only [run] at stepped owned'
    refine ⟨_, t₁, .error e, .step (stepped ▸ .done _), owned', by simp [Registry.put], ?_⟩
    rw [bind_error (show OutputTransaction.replace env temporary (t₁, view r) = _ from acts)]
    have left := seen (.idle (.error e)) s₁ r.committed
    exact congrArg (fun s => EStateM.Result.error e (t₁, s)) left.symm

theorem completes_closing (env : Environment) (i : ι) (temporary : Path) : Completes env i (.closing temporary) (do
    OutputTransaction.close_staged
    if ← OutputTransaction.sync_staged env temporary then
      OutputTransaction.validateDestination env
      OutputTransaction.replace env temporary
      OutputTransaction.untrack
      OutputTransaction.release env
    else throw ⟨.io_error, "Failed to flush output file"⟩) := by
  have replacing : Completes env i (.comparing (.replacing temporary) []) (do
      OutputTransaction.replace env temporary
      OutputTransaction.untrack
      OutputTransaction.release env) := by
    refine completes_silent trivial (fun _ _ => rfl) ?_
    exact completes_replacing (completes_releasing (completes_clearing env i))
  have syncing : Completes env i (.syncing temporary) (do
      if ← OutputTransaction.sync_staged env temporary then
        OutputTransaction.validateDestination env
        OutputTransaction.replace env temporary
        OutputTransaction.untrack
        OutputTransaction.release env
      else throw ⟨.io_error, "Failed to flush output file"⟩) := by
    refine completes_part (f := fun synced => if synced then .inspecting (.replacing temporary)
      else .idle (.error ⟨.io_error, "Failed to flush output file"⟩)) trivial (fun _ _ => rfl)
      (sync_staged_blind env temporary) ?_
    intro synced
    cases synced with
    | true => exact completes_inspecting replacing
    | false => exact completes_idle env i (.error _)
  exact completes_part trivial (fun _ _ => rfl) close_staged_blind (fun _ => syncing)

/-- While the staged file is there, it is flushed as it is by `flush`. -/
theorem flush_staged {s : System} {p : Path} {node : Node} (there : s.fs.lookup (env.locate p) = .at node) :
    OutputTransaction.flush env (t, s) = (do
      OutputTransaction.close_staged
      if ← OutputTransaction.sync_staged env p then pure ()
      else throw ⟨.io_error, "Failed to flush output file"⟩ : OutputM Unit) (t, s) := by
  rw [flush_parts]
  have same := close_staged_standing (t, s)
  cases run : OutputTransaction.close_staged (t, s) with
  | ok a q =>
    obtain ⟨t₁, s₁⟩ := q
    rw [run] at same
    have names : s₁.fs.names = s.fs.names := congrArg (fun l => l.2.2.2.1) same
    have there₁ : s₁.fs.lookup (env.locate p) = .at node := (Committing.lookup_names names _).trans there
    have synced : OutputTransaction.sync_staged env p (t₁, s₁) = OutputTransaction.sync_file env (t₁, s₁) := by
      unfold OutputTransaction.sync_staged
      simp only [there₁]
    rw [bind_ok run, bind_ok run]
    show EStateM.bind _ _ _ = EStateM.bind _ _ _
    unfold EStateM.bind
    rw [synced]
  | error e q => rw [bind_error run, bind_error run]

/-- `commit` in parts, while the staged file is there. -/
theorem commit_parts {s : System} {p : Path} {node : Node} (staged : t.temporary_ = some p)
    (there : s.fs.lookup (env.locate p) = .at node) : OutputTransaction.commit env (t, s) = (do
      OutputTransaction.close_staged
      if ← OutputTransaction.sync_staged env p then
        OutputTransaction.validateDestination env
        OutputTransaction.replace env p
        OutputTransaction.untrack
        OutputTransaction.release env
      else throw ⟨.io_error, "Failed to flush output file"⟩ : OutputM Unit) (t, s) := by
  have got : (get : OutputM _) (t, s) = .ok (t, s) (t, s) := rfl
  have flushed := flush_staged (t := t) there
  unfold OutputTransaction.commit
  rw [bind_ok got]
  simp only [staged]
  generalize (do
    OutputTransaction.validateDestination env
    OutputTransaction.replace env p
    OutputTransaction.untrack
    OutputTransaction.release env : OutputM Unit) = rest
  have together : ((do
      OutputTransaction.close_staged
      if ← OutputTransaction.sync_staged env p then pure ()
      else throw ⟨.io_error, "Failed to flush output file"⟩ : OutputM Unit) >>= fun _ => rest) = (do
        OutputTransaction.close_staged
        if ← OutputTransaction.sync_staged env p then rest
        else throw ⟨.io_error, "Failed to flush output file"⟩) := by
    rw [bind_assoc]
    congr 1
    funext _
    rw [bind_assoc]
    congr 1
    funext synced
    cases synced with
    | true => rfl
    | false => rfl
  rw [← together]
  show EStateM.bind _ _ _ = EStateM.bind _ _ _
  unfold EStateM.bind
  rw [flushed]

/-- A method that begins with this phase. -/
theorem silent_completes {m : OutputM Unit} {last : Except DeltaError Unit} (owned : Owned r)
    (here : r.objects i = some ⟨t, .idle last⟩) (due : Due t phase) (unchosen : chosen phase = none)
    (rest : Completes env i phase m) :
    ∃ r' t' result, Alone env i (r.resume i (⟨t, phase⟩, r.system)) r' ∧ Owned r' ∧
      r'.objects i = some ⟨t', .idle result⟩ ∧ m (t, view r) = returned result (t', view r') := by
  have proceeds : Proceeds env ⟨t, .idle last⟩ r.system ⟨t, phase⟩ r.system :=
    proceeds_standing (owned.fits i _ here) rfl due unchosen
  have whole := part_completes (m := (pure () : OutputM Unit)) (f := fun _ => phase) owned here proceeds
    (fun _ _ _ => rfl) (fun _ => rest)
  rwa [pure_bind] at whole

/-- `commit` of a transaction that is left alone and whose staged file is there. -/
theorem commit_alone (env : Environment) {last : Except DeltaError Unit} (owned : Owned r)
    (here : r.objects i = some ⟨t, .idle last⟩)
    (there : ∀ p, t.temporary_ = some p → ∃ node, r.system.fs.lookup (env.locate p) = .at node) :
    ∃ r' t' result, Alone env i (r.step env (.commit i)) r' ∧ Owned r' ∧ r'.objects i = some ⟨t', .idle result⟩ ∧
      OutputTransaction.commit env (t, view r) = returned result (t', view r') := by
  cases staged : t.temporary_ with
  | none =>
    have called : r.step env (.commit i) =
        r.resume i (⟨t, .idle (.error ⟨.invalid_argument, "No staged output"⟩)⟩, r.system) := by
      simp [Registry.step, Registry.call, here, staged]
    have refused : OutputTransaction.commit env (t, view r) =
        (throw ⟨.invalid_argument, "No staged output"⟩ : OutputM Unit) (t, view r) := by
      have got : (get : OutputM _) (t, view r) = .ok (t, view r) (t, view r) := rfl
      unfold OutputTransaction.commit
      rw [bind_ok got]
      simp only [staged]
    rw [called, refused]
    exact silent_completes owned here trivial rfl (completes_idle env i (.error ⟨.invalid_argument, "No staged output"⟩))
  | some p =>
    obtain ⟨node, present⟩ := there p staged
    have called : r.step env (.commit i) = r.resume i (⟨t, .closing p⟩, r.system) := by
      simp [Registry.step, Registry.call, here, staged]
    rw [called, commit_parts staged (show (view r).fs.lookup (env.locate p) = .at node from present)]
    exact silent_completes owned here staged rfl (completes_closing env i p)

/-! ### The destructor -/

theorem removes_alone (env : Environment) (here : r.objects i = some ⟨t, .removing⟩) :
    (r.advance env i).objects i = some ⟨t, .forgetting⟩ ∧ view (r.advance env i) = match t.temporary_ with
      | some temporary => (view r).remove env temporary
      | none => view r := by
  have plain : Plain .removing := trivial
  have called : r.advance env i = r.resume i (⟨t, .forgetting⟩, match t.temporary_ with
      | some temporary => r.system.remove env temporary
      | none => r.system) := by
    rw [advance_plain plain here]
    simp only [TransactionObject.proceed]
    cases t.temporary_ with
    | none => rfl
    | some p => rfl
  rw [called]
  refine ⟨Function.update_self .., (resume_view here ⟨t, .forgetting⟩ rfl _).trans ?_⟩
  cases t.temporary_ with
  | none => rfl
  | some p => exact (remove_slots env p).symm

theorem forgets_alone (env : Environment) (owned : Owned r) (here : r.objects i = some ⟨t, .forgetting⟩) :
    (r.advance env i).objects i = none ∧ view (r.advance env i) = withSlots (view r) (match t.slot_ with
      | some k => (view r).staged_paths.set k none
      | none => (view r).staged_paths) := by
  have called : r.advance env i = { (r.put i none) with staged_paths := r.untracked t } := by
    simp [Registry.advance, here]
  have owned' := alone_owned (Alone.one env i r) owned
  have gone : (r.advance env i).objects i = none := by
    rw [called]
    exact Function.update_self ..
  have seen : view (r.advance env i) =
      withSlots (r.advance env i).system ((r.advance env i).staged_paths.map (·.bind r.staged)) := by
    apply view_pointed
    intro j member
    obtain ⟨k, held⟩ := Owned.pointed owned' member
    have other : j ≠ i := by
      rintro rfl
      rw [Registry.slot, gone] at held
      cases held
    have same : (r.advance env i).objects j = r.objects j := by
      rw [called]
      exact Function.update_of_ne other ..
    rw [Registry.staged, same]
    rfl
  refine ⟨gone, ?_⟩
  rw [seen, called, ← view_untracked]
  rfl

/-- The destructor of a transaction that is left alone. -/
theorem destroy_alone (env : Environment) {last : Except DeltaError Unit} (owned : Owned r)
    (here : r.objects i = some ⟨t, .idle last⟩) :
    ∃ r', Alone env i (r.step env (.destroy i)) r' ∧ Owned r' ∧ r'.objects i = none ∧
      view r' = t.destroy env (view r) := by
  obtain ⟨closed, s₁, run, _⟩ := Discarding.close_file_runs t r.system
  have acts := close_file_blind t r.system (view r).staged_paths
  rw [run] at acts
  have called : r.step env (.destroy i) = r.resume i (⟨{ t with file_ := t.file_.close.2 }, .removing⟩, s₁) := by
    simp [Registry.step, Registry.call, here, TransactionObject.part, run]
  have change : Change env r (.destroy i) (r.step env (.destroy i)) := step_changes owned.fits
  have owned₁ := change_owned change owned
  have here₁ : (r.step env (.destroy i)).objects i = some ⟨{ t with file_ := t.file_.close.2 }, .removing⟩ := by
    rw [called]
    exact Function.update_self ..
  have seen₁ : view (r.step env (.destroy i)) = withSlots s₁ (view r).staged_paths := by
    rw [called]
    exact resume_view here ⟨{ t with file_ := t.file_.close.2 }, .removing⟩ rfl s₁
  generalize r.step env (.destroy i) = r₁ at owned₁ here₁ seen₁ ⊢
  obtain ⟨here₂, seen₂⟩ := removes_alone env here₁
  have owned₂ := alone_owned (Alone.one env i r₁) owned₁
  obtain ⟨gone, seen₃⟩ := forgets_alone env owned₂ here₂
  have alone : Alone env i r₁ ((r₁.advance env i).advance env i) := .step (Alone.one env i _)
  refine ⟨_, alone, alone_owned alone owned₁, gone, ?_⟩
  rw [seen₃, seen₂, seen₁]
  unfold OutputTransaction.destroy
  simp only [EStateM.run, show OutputTransaction.close_file (t, view r) = _ from acts]
  cases t.temporary_ with
  | none => cases t.slot_ <;> rfl
  | some p => cases t.slot_ <;> rfl

end

end Roll.Uninterrupted
