import Roll.Atomic

/-!
The limit of an application: it bounds the staged output throughout the run,
and within it the run is that without a limit.
-/
namespace Roll.Limiting
open Roll.Parsing Roll.Outcome Roll.Cursor Roll.Calm Roll.Committing Roll.Staging Roll.Framing Roll.Atomic

variable {U : StrongHash} {limit max_output_bytes : Nat}

/-! ### The bytes written -/

def spent (s : ApplyState U) : Nat := s.stats.bytes_written

theorem frames_spent {α : Type} {m : ApplyM U α} (frames : Frames delivered m) : Frames spent m :=
  frames.map fun q => q.2.2.2.bytes_written

def Refused (e : DeltaError) : Prop := e.code = .limit_exceeded

theorem deliver_counts {produced : List UInt8} {s s' : ApplyState U} {a : Unit}
    (run : Apply.deliver max_output_bytes produced s = .ok a s') : spent s' = spent s + produced.length := by
  unfold Apply.deliver at run
  by_cases large : produced.length > size_sub max_output_bytes s.stats.bytes_written
  · rw [if_pos large] at run
    cases run
  · rw [if_neg large] at run
    generalize s.transaction.file_.write_chunk produced = r at run
    obtain ⟨done, file⟩ := r
    cases done with
    | false => cases run
    | true =>
      obtain ⟨_, rfl⟩ := EStateM.Result.ok.inj run
      rfl

theorem deliver_grows (produced : List UInt8) : Grows spent (Apply.deliver (U := U) max_output_bytes produced) := by
  intro s a s' run
  rw [deliver_counts run]
  exact Nat.le_add_right _ _

/-- An output is delivered within the limit as without one. -/
theorem deliver_curbs (le : limit ≤ max_output_bytes) (produced : List UInt8) :
    Curbs spent limit Refused (Apply.deliver (U := U) limit produced) (Apply.deliver max_output_bytes produced) := by
  intro s below
  have below' : s.stats.bytes_written ≤ limit := below
  by_cases large : produced.length > limit - s.stats.bytes_written
  · right
    refine ⟨⟨_, s, if_pos (by rw [size_sub_eq below']; exact large), rfl⟩, ?_⟩
    intro a s' run
    rw [deliver_counts run]
    simp only [spent]
    omega
  · left
    constructor
    · simp only [Apply.deliver]
      rw [size_sub_eq below', size_sub_eq (Nat.le_trans below' le), if_neg large, if_neg (by omega)]
    · intro a s' run
      rw [deliver_counts run]
      simp only [spent]
      omega

/-! ### The two runs -/

section
variable (fuel : Nat) (chunks : List SignedChunk)

/-- What is left of an entry once its output is there. -/
theorem rest_grows {m : ApplyM U Bool} (grows : Grows spent m) (header : DeltaEntryHeader) :
    Grows spent (Apply.produce fuel chunks header >>= fun produced =>
      Apply.deliver max_output_bytes produced >>= fun _ => m) :=
  grows_bind (frames_spent (frames_produce fuel chunks header)).grows fun produced =>
    grows_bind (deliver_grows produced) fun _ => grows

theorem items_grow : ∀ left, Grows spent (Apply.apply_items (U := U) fuel chunks max_output_bytes left) := by
  intro left
  induction left with
  | zero => exact (frames_throw _).grows
  | succ left ih =>
    unfold Apply.apply_items
    refine grows_bind (frames_spent (frames_reading _ _)).grows (fun item => ?_)
    cases item with
    | End => exact (frames_pure _).grows
    | Trailer =>
      exact grows_bind (frames_spent (frames_reading _ _)).grows fun trailer =>
        grows_bind (frames_spent (frames_check_trailer trailer)).grows fun _ => (frames_pure _).grows
    | Entry => exact grows_bind (frames_spent (frames_reading _ _)).grows fun header => rest_grows fuel chunks ih header

theorem items_curbs (le : limit ≤ max_output_bytes) : ∀ left,
    Curbs spent limit Refused (Apply.apply_items (U := U) fuel chunks limit left)
      (Apply.apply_items fuel chunks max_output_bytes left) := by
  intro left
  induction left with
  | zero => exact (frames_throw _).curbs
  | succ left ih =>
    have grows : Grows spent (Apply.apply_items (U := U) fuel chunks max_output_bytes left) := items_grow fuel chunks left
    have trailer : Frames spent (Apply.reading (U := U) Apply.category DeltaReader.read_trailer >>= fun trailer =>
        Apply.check_trailer trailer >>= fun _ => pure true) :=
      frames_bind (frames_spent (frames_reading _ _)) fun trailer =>
        frames_bind (frames_spent (frames_check_trailer trailer)) fun _ => frames_pure _
    unfold Apply.apply_items
    refine curbs_bind (frames_spent (frames_reading _ _)).curbs (fun item => ?_) (fun item => ?_)
    · cases item with
      | End => exact (frames_pure _).grows
      | Trailer => exact trailer.grows
      | Entry =>
        exact grows_bind (frames_spent (frames_reading _ _)).grows fun header => rest_grows fuel chunks grows header
    · cases item with
      | End => exact (frames_pure _).curbs
      | Trailer => exact trailer.curbs
      | Entry =>
        refine curbs_bind (frames_spent (frames_reading _ _)).curbs
          (fun header => rest_grows fuel chunks grows header) (fun header => ?_)
        refine curbs_bind (frames_spent (frames_produce fuel chunks header)).curbs
          (fun produced => grows_bind (deliver_grows produced) fun _ => grows) (fun produced => ?_)
        exact curbs_bind (deliver_curbs le produced) (fun _ => grows) fun _ => ih

end

theorem reconstruct_curbs (le : limit ≤ max_output_bytes) (T : RollingHash) (fuel : Nat) (p : Path) :
    Curbs spent limit Refused (Apply.reconstruct (U := U) T fuel p limit) (Apply.reconstruct T fuel p max_output_bytes) := by
  have close : ∀ saw, Frames spent (Apply.reading Apply.category (DeltaReader.finish saw) >>= fun _ =>
      (Apply.close_inputs : ApplyM U Unit)) := fun saw =>
    frames_bind (frames_spent (frames_reading _ _)) fun _ => frames_spent frames_close_inputs
  unfold Apply.reconstruct
  refine curbs_bind (frames_spent (frames_reading _ _)).curbs (fun _ => ?_) (fun _ => ?_)
  · exact grows_bind (frames_spent (frames_sign_old T p)).grows fun chunks =>
      grows_bind (items_grow fuel chunks fuel) fun saw => (close saw).grows
  · refine curbs_bind (frames_spent (frames_sign_old T p)).curbs (fun chunks => ?_) (fun chunks => ?_)
    · exact grows_bind (items_grow fuel chunks fuel) fun saw => (close saw).grows
    · exact curbs_bind (items_curbs fuel chunks le fuel) (fun saw => (close saw).grows) fun saw => (close saw).curbs

variable {env : Environment}

theorem staging_kept {α : Type} {m : OutputM α} {s s' : ApplyState U} {a : α}
    (run : Apply.staging m s = .ok a s') : s'.stats = s.stats ∧ s'.reader = s.reader := by
  unfold Apply.staging at run
  cases ran : m (s.transaction, s.system) with
  | ok b q =>
    rw [ran] at run
    obtain ⟨_, rfl⟩ := EStateM.Result.ok.inj run
    exact ⟨rfl, rfl⟩
  | error e q =>
    rw [ran] at run
    cases run

/-- The two applications are the same, or the limited one refuses an output
    and the other one writes more, if it succeeds. -/
def Compare (limit : Nat) (limited free : ApplyRun) : Prop :=
  limited = free ∧ (∀ stats, free.result = .ok stats → stats.bytes_written ≤ limit) ∨
    (∃ e, limited.result = .error e ∧ Refused e) ∧ ∀ stats, free.result = .ok stats → limit < stats.bytes_written

/-- The statistics of a success are those of its reconstruction. -/
theorem opened_success {T : RollingHash} {fuel : Nat} {old delta output : Path} {s s₁ : ApplyState U}
    (opened : Apply.staging (OutputTransaction.open_ env output [old, delta]) s = .ok () s₁) {stats : ApplyStats}
    (ok : (Apply.apply_opened env T fuel old delta output max_output_bytes s).result = .ok stats) :
    ∃ s₂, Apply.reconstruct T fuel old max_output_bytes s₁ = .ok () s₂ ∧ s₂.stats = stats := by
  unfold Apply.apply_opened at ok
  rw [opened] at ok
  dsimp only at ok
  cases second : Apply.reconstruct T fuel old max_output_bytes s₁ with
  | error e s₂ =>
    rw [second] at ok
    cases ok
  | ok _ s₂ =>
    rw [second] at ok
    dsimp only at ok
    cases third : Apply.staging (OutputTransaction.commit env) s₂ with
    | error e s₃ =>
      rw [third] at ok
      cases ok
    | ok _ s₃ =>
      rw [third] at ok
      obtain rfl : s₃.stats = stats := Except.ok.inj ok
      exact ⟨s₂, rfl, (staging_kept third).1.symm⟩

theorem opened_compare (le : limit ≤ max_output_bytes) (T : RollingHash) (fuel : Nat) (old delta output : Path)
    {s : ApplyState U} (fresh : s.stats.bytes_written ≤ limit) :
    Compare limit (Apply.apply_opened env T fuel old delta output limit s)
      (Apply.apply_opened env T fuel old delta output max_output_bytes s) := by
  cases first : Apply.staging (OutputTransaction.open_ env output [old, delta]) s with
  | error e s₁ =>
    left
    unfold Apply.apply_opened
    rw [first]
    exact ⟨rfl, fun stats impossible => by cases impossible⟩
  | ok _ s₁ =>
    have below : spent s₁ ≤ limit := by
      rw [spent, (staging_kept first).1]
      exact fresh
    rcases reconstruct_curbs le T fuel old s₁ below with ⟨same, within⟩ | ⟨⟨e, s₂, refused, reason⟩, exceeds⟩
    · refine .inl ⟨?_, fun stats ok => ?_⟩
      · unfold Apply.apply_opened
        rw [first]
        dsimp only
        rw [same]
      · obtain ⟨s₂, second, rfl⟩ := opened_success first ok
        exact within () s₂ second
    · refine .inr ⟨⟨e, ?_, reason⟩, fun stats ok => ?_⟩
      · unfold Apply.apply_opened
        rw [first]
        dsimp only
        rw [refused]
        rfl
      · obtain ⟨s₂, second, rfl⟩ := opened_success first ok
        exact exceeds () s₂ second

theorem apply_delta_compare (le : limit ≤ max_output_bytes) (env : Environment) (T : RollingHash) (U : StrongHash)
    (old delta output : Path) (s : System) :
    Compare limit (Apply.apply_delta env T U old delta output limit s)
      (Apply.apply_delta env T U old delta output max_output_bytes s) := by
  unfold Apply.apply_delta
  rcases FileIo.open_in env old s with ⟨_ | _, old_file, s₁⟩
  · exact .inl ⟨rfl, fun stats impossible => by cases impossible⟩
  · dsimp only
    rcases FileIo.open_in env delta s₁ with ⟨_ | _, delta_file, s₂⟩
    · exact .inl ⟨rfl, fun stats impossible => by cases impossible⟩
    · exact opened_compare le T _ old delta output (Nat.zero_le limit)

/-! ### The staged output -/

/-- The staged file holds what was delivered at most, and that is within the limit. -/
def Bounded (limit : Nat) (q : OutputTransaction × System × U.State × ApplyStats) : Prop :=
  ∃ content, Stores content q.1.file_ ∧ content.length ≤ limit ∧ q.2.2.2.bytes_written ≤ content.length ∧
    (q.1.file_.io_error_ = false → q.2.2.2.bytes_written = content.length)

theorem keeps_bounded (produced : List UInt8) :
    Keeps (fun s => Bounded limit (delivered s)) (Apply.deliver (U := U) limit produced) := by
  rintro s ⟨content, stores, room, counted, exact_⟩
  have below : s.stats.bytes_written ≤ limit := Nat.le_trans counted room
  unfold Leaves
  by_cases large : produced.length > size_sub limit s.stats.bytes_written
  · simp only [Apply.deliver, if_pos large]
    exact ⟨content, stores, room, counted, exact_⟩
  · simp only [Apply.deliver, if_neg large]
    rw [size_sub_eq below] at large
    cases failed : s.transaction.file_.io_error_ with
    | true =>
      have refused : s.transaction.file_.write_chunk produced = (false, s.transaction.file_) := if_pos failed
      rw [refused]
      exact ⟨content, stores, room, counted, exact_⟩
    | false =>
      have bytes : s.stats.bytes_written = content.length := exact_ failed
      have more : (content ++ produced).length ≤ limit := by
        rw [List.length_append]
        omega
      obtain ⟨stores', flawless⟩ := write_chunk_stores stores produced
      simp only [delivered] at stores' flawless
      generalize s.transaction.file_.write_chunk produced = r at stores' flawless ⊢
      obtain ⟨done, file⟩ := r
      cases done with
      | true =>
        have total : s.stats.bytes_written + produced.length = (content ++ produced).length := by
          rw [bytes, List.length_append]
        exact ⟨content ++ produced, stores', more, Nat.le_of_eq total, fun _ => total⟩
      | false =>
        refine ⟨content ++ produced, stores', more, ?_, fun errorless => ?_⟩
        · show s.stats.bytes_written ≤ _
          rw [bytes, List.length_append]
          exact Nat.le_add_right _ _
        · have broken : false = !file.io_error_ := flawless
          rw [show file.io_error_ = false from errorless] at broken
          cases broken

/-- The inputs are open and the output is staged. -/
inductive Staged (env : Environment) (U : StrongHash) (old delta output : Path) (s : System) : Nat → ApplyState U → Prop
  | staged {old_file delta_file : FileIo} {s₁ s₂ : System} {a : ApplyState U} :
      FileIo.open_in env old s = (true, old_file, s₁) → FileIo.open_in env delta s₁ = (true, delta_file, s₂) →
      Apply.staging (OutputTransaction.open_ env output [old, delta])
        ({ old_file, reader := Apply.reader U delta_file, transaction := {}, system := s₂, whole_file_hash := U.init } :
          ApplyState U) = .ok () a →
      Staged env U old delta output s (delta_file.f_.reach + 1) a

/-- The states that an application goes through from there on: in the loop, which
    is stopped after any number of items, at its end, and in the commit. -/
inductive Passed (env : Environment) (T : RollingHash) (U : StrongHash) (old delta output : Path) (limit : Nat)
    (s : System) : ApplyState U → Prop
  | opened {fuel : Nat} {a : ApplyState U} : Staged env U old delta output s fuel a →
      Passed env T U old delta output limit s a
  | items {fuel : Nat} {a a₁ a₂ : ApplyState U} {chunks : List SignedChunk} (left : Nat) :
      Staged env U old delta output s fuel a →
      Apply.reading Apply.category DeltaReader.read_header a = .ok () a₁ → Apply.sign_old T old a₁ = .ok chunks a₂ →
      Passed env T U old delta output limit s (after (Apply.apply_items fuel chunks limit left a₂))
  | reconstructed {fuel : Nat} {a : ApplyState U} : Staged env U old delta output s fuel a →
      Passed env T U old delta output limit s (after (Apply.reconstruct T fuel old limit a))
  | committed {fuel : Nat} {a a₁ : ApplyState U} : Staged env U old delta output s fuel a →
      Apply.reconstruct T fuel old limit a = .ok () a₁ →
      Passed env T U old delta output limit s (after (Apply.staging (OutputTransaction.commit env) a₁))

section
variable {T : RollingHash} {old delta output : Path} {s : System} {fuel : Nat} {a t : ApplyState U}

theorem staged_bounded (ours : ∀ k < OutputTransaction.ATTEMPTS, Ours env (attempt env s output k))
    (staged : Staged env U old delta output s fuel a) : Bounded limit (delivered a) := by
  obtain @⟨_, _, s₁, _, _, openedOld, openedDelta, opened⟩ := staged
  have first := open_in_untouched env old s
  rw [openedOld] at first
  have second := open_in_untouched env delta s₁
  rw [openedDelta] at second
  obtain ⟨clock, rfl⟩ := Untouched.trans first second
  set a₀ : ApplyState U := { old_file := _, reader := _, transaction := {}, system := later s clock, whole_file_hash := U.init }
  have spec := leaves_staging (s := a₀) (open_spec (s := later s clock) (fun k inside _ => ours k inside) [old, delta])
  obtain ⟨⟨live, p, _, created⟩, _, counted, _⟩ := spec.of_ok opened
  have stores := (open_created live created).stores
  have zero : a.stats.bytes_written = 0 := by rw [counted]
  exact ⟨[], stores, Nat.zero_le limit, Nat.le_of_eq zero, fun _ => zero⟩

/-- The file is that of `content`, and nobody else writes to it. -/
def Still (content : List UInt8) (q : OutputTransaction × System) : Prop :=
  Alone q.1.file_.f_ ∧ q.1.file_.f_.data = content

variable {content : List UInt8}

theorem idle_keeps {α : Type} {m : OutputM α} (idle : Idle m) : Keeps (Still content) m := by
  rintro ⟨t, s⟩ still
  refine (idle t s).mono ?_ ?_
  · rintro _ ⟨t', s'⟩ ⟨rfl, _⟩
    exact still
  · rintro ⟨t', s'⟩ ⟨rfl, _⟩
    exact still

theorem close_file_keeps : Keeps (Still content) OutputTransaction.close_file := by
  rintro ⟨t, s⟩ ⟨alone, data⟩
  obtain ⟨_, alone', data', _⟩ := close_alone alone
  have still : Alone t.file_.close.2.f_ ∧ t.file_.close.2.f_.data = content := ⟨alone', data'.trans data⟩
  unfold OutputTransaction.close_file Leaves
  dsimp only
  by_cases stored : (t.file_.close.1 && t.file_.is_open) = true
  · rw [if_pos stored]
    exact still
  · rw [if_neg stored]
    exact still

theorem commit_keeps (env : Environment) : Keeps (Still content) (OutputTransaction.commit env) := by
  have got : Keeps (Still content) (get : OutputM _) := fun _ still => still
  have flush : Keeps (Still content) (OutputTransaction.flush env) := by
    unfold OutputTransaction.flush
    refine keeps_bind close_file_keeps (fun closed => keeps_bind got fun q => ?_)
    dsimp only
    split
    · exact keeps_throw _
    · refine keeps_bind (idle_keeps (sync_file_idle env)) (fun synced => ?_)
      split
      · exact keeps_pure _
      · exact keeps_throw _
  have replace : ∀ p, Keeps (Still content) (OutputTransaction.replace env p) := by
    rintro p ⟨t, s⟩ still
    unfold OutputTransaction.replace Leaves
    dsimp only
    rcases s.rename env p t.destination_ with ⟨_ | message, s'⟩ <;> exact still
  have untrack : Keeps (Still content) OutputTransaction.untrack := by
    rintro ⟨t, s⟩ still
    unfold OutputTransaction.untrack Leaves
    dsimp only
    cases t.slot_ <;> exact still
  have release : Keeps (Still content) (OutputTransaction.release env) := fun _ still => still
  unfold OutputTransaction.commit
  refine keeps_bind got (fun q => ?_)
  dsimp only
  cases q.1.temporary_ with
  | none => exact keeps_throw _
  | some p =>
    exact keeps_bind flush fun _ => keeps_bind (idle_keeps (validateDestination_idle env)) fun _ =>
      keeps_bind (replace p) fun _ => keeps_bind untrack fun _ => release

/-- Throughout an application the staged output is within the limit. -/
theorem passed_bounded (ours : ∀ k < OutputTransaction.ATTEMPTS, Ours env (attempt env s output k))
    (passed : Passed env T U old delta output limit s t) :
    t.transaction.file_.f_.data.length ≤ limit ∧ t.stats.bytes_written ≤ limit := by
  have done : ∀ {t : ApplyState U}, Bounded limit (delivered t) →
      t.transaction.file_.f_.data.length ≤ limit ∧ t.stats.bytes_written ≤ limit := by
    rintro t ⟨content, stores, room, counted, _⟩
    exact ⟨Nat.le_trans stores.within room, Nat.le_trans counted room⟩
  have ends : ∀ {α : Type} {m : ApplyM U α} {a : ApplyState U}, Keeps (fun s => Bounded limit (delivered s)) m →
      Bounded limit (delivered a) → Bounded limit (delivered (after (m a))) := by
    intro α m a keeps bounded
    have left := keeps a bounded
    unfold Leaves at left
    cases run : m a with
    | ok b a' =>
      rw [run] at left
      exact left
    | error e a' =>
      rw [run] at left
      exact left
  cases passed with
  | opened staged => exact done (staged_bounded ours staged)
  | @items fuel a a₁ a₂ chunks left staged header signed =>
    have begun : Bounded limit (delivered a) := staged_bounded ours staged
    have read := ((frames_reading _ _).keeps (Bounded limit) _ begun).of_ok header
    have ready := ((frames_sign_old T old).keeps (Bounded limit) _ read).of_ok signed
    exact done (ends (keeps_items keeps_bounded _ _ left) ready)
  | reconstructed staged =>
    exact done (ends (keeps_reconstruct keeps_bounded T _ old) (staged_bounded ours staged))
  | @committed fuel a a₁ staged rebuilt =>
    have begun : Bounded limit (delivered a) := staged_bounded ours staged
    obtain ⟨content, stores, room, counted, _⟩ := (keeps_reconstruct keeps_bounded T fuel old a begun).of_ok rebuilt
    have still : Still a₁.transaction.file_.f_.data (a₁.transaction, a₁.system) := ⟨stores.alone, rfl⟩
    have kept := leaves_staging (commit_keeps env _ still)
    have size : a₁.transaction.file_.f_.data.length ≤ limit := Nat.le_trans stores.within room
    unfold Leaves at kept
    unfold Apply.staging at kept ⊢
    cases run : OutputTransaction.commit env (a₁.transaction, a₁.system) with
    | ok b q =>
      simp only [run] at kept
      exact ⟨Nat.le_trans (Nat.le_of_eq (congrArg List.length kept.1.2)) size, Nat.le_trans counted room⟩
    | error e q =>
      simp only [run] at kept
      exact ⟨Nat.le_trans (Nat.le_of_eq (congrArg List.length kept.2)) size, Nat.le_trans counted room⟩

end

/-- The limit bounds the staged output at every time, and the room that is left
    never wraps; an application without a limit that succeeds is also that with
    a limit it meets, and no other one succeeds. -/
theorem output_limit (env : Environment) (s : System) (output : Path)
    (ours : ∀ k < OutputTransaction.ATTEMPTS, Ours env (attempt env s output k)) (T : RollingHash) (U : StrongHash)
    (old delta : Path) (max_output_bytes : UInt64) :
    let limit := max_output_bytes.toNat
    let run := Apply.apply_delta env T U old delta output limit s
    let free := Apply.apply_delta env T U old delta output UINT64_MAX s
    (∀ t, Passed env T U old delta output limit s t → t.transaction.file_.f_.data.length ≤ limit ∧
      size_sub limit t.stats.bytes_written + t.stats.bytes_written = limit) ∧
    (∀ stats, free.result = .ok stats → (stats.bytes_written ≤ limit → run = free) ∧
      (limit < stats.bytes_written → ∃ e, run.result = .error e ∧ e.code = .limit_exceeded)) ∧
    ∀ e, free.result = .error e → ∃ e', run.result = .error e' := by
  intro limit run free
  have le : limit ≤ UINT64_MAX := Nat.le_sub_one_of_lt max_output_bytes.toNat_lt
  refine ⟨?_, ?_⟩
  · intro t passed
    obtain ⟨room, counted⟩ := passed_bounded ours passed
    refine ⟨room, ?_⟩
    rw [size_sub_eq counted]
    exact Nat.sub_add_cancel counted
  · rcases (apply_delta_compare le env T U old delta output s : Compare limit run free) with
      ⟨same, within⟩ | ⟨⟨e, refused, reason⟩, exceeds⟩
    · refine ⟨fun stats ok => ⟨fun _ => same, fun more => ?_⟩, fun e failed => ⟨e, (congrArg ApplyRun.result same).trans failed⟩⟩
      exact absurd (within stats ok) (Nat.not_le_of_lt more)
    · refine ⟨fun stats ok => ⟨fun fits => ?_, fun _ => ⟨e, refused, reason⟩⟩, fun _ _ => ⟨e, refused⟩⟩
      exact absurd fits (Nat.not_le_of_lt (exceeds stats ok))

/-- An empty file, and a delta that adds one byte. -/
def oneByteAdded : System :=
  { fs := .holding [((0, "old"), []), ((0, "delta"), DELTA_MAGIC ++ [0, 0, 0, 5, 1, 1, 7] ++ List.replicate 15 0 ++
      [7, DELTA_TRAILER_TAG, 7] ++ List.replicate 63 0)] }

/-- `output_limit` where no byte is admitted. -/
theorem output_limit_zero : ∃ e, (Apply.apply_delta {} RKFinger.rolling .padded ⟨"", "old"⟩ ⟨"", "delta"⟩
    ⟨"", "output"⟩ 0 oneByteAdded).result = .error e ∧ e.code = .limit_exceeded := by
  have succeeds : (Apply.apply_delta {} RKFinger.rolling .padded ⟨"", "old"⟩ ⟨"", "delta"⟩ ⟨"", "output"⟩ UINT64_MAX
      oneByteAdded).result.toOption = some { entries_processed := 1, bytes_written := 1 } := by
    decide +kernel
  have limited := output_limit {} oneByteAdded ⟨"", "output"⟩ (fun k _ e member => by cases member) RKFinger.rolling
    .padded ⟨"", "old"⟩ ⟨"", "delta"⟩ 0
  refine (limited.2.1 { entries_processed := 1, bytes_written := 1 } ?_).2 (by decide)
  generalize (Apply.apply_delta {} RKFinger.rolling .padded ⟨"", "old"⟩ ⟨"", "delta"⟩ ⟨"", "output"⟩ UINT64_MAX
    oneByteAdded).result = result at succeeds ⊢
  cases result with
  | ok stats => rw [Option.some.inj succeeds]
  | error e => cases succeeds

end Roll.Limiting
