import Roll.Failing
import Roll.Viewing
import Roll.Applying
import Roll.Roundtrip

/-!
The whole application of a delta that breaks off: when it ends with an I/O
error.

Nothing but the delta is read differently. So the inputs are opened and the
output is staged as before, and what follows is the run of the twins.
-/
namespace Roll.Breaking
open Roll.Parsing Roll.Outcome Roll.Reading Roll.Cursor Roll.Calm Roll.Applying Roll.Failing

section
variable {env : Environment} {T : RollingHash} {U : StrongHash} {delta : List UInt8} {delta_path p : Path} {k : Nat}
  {handsOver : Bool} {sys : System}

/-! ### The environment -/

/-- The file of this path delivers its first `k` bytes, and then it cannot be read. -/
def breaking (env : Environment) (p : Path) (k : Nat) (handsOver : Bool) : Environment :=
  { env with media := fun q => if q = p then { badFrom := some k, handsOver } else env.media q }

theorem open_in_other (apart : p ≠ delta_path) (sys : System) :
    FileIo.open_in (breaking env delta_path k handsOver) p sys = FileIo.open_in env p sys := by
  have same : (breaking env delta_path k handsOver).media p = env.media p := if_neg apart
  simp only [FileIo.open_in, same]
  rfl

theorem open_in_broken {f : FileIo} {sys' : System} (holds : sys.Holds env p delta) (calm : env.media p = {})
    (opened : FileIo.open_in env p sys = (true, f, sys')) :
    FileIo.open_in (breaking env p k handsOver) p sys = (true, FileIo.opened delta (some k) handsOver, sys') := by
  have medium : (breaking env p k handsOver).media p = { badFrom := some k, handsOver } := if_pos rfl
  obtain ⟨inode, leads, data⟩ := holds
  have leads' : sys.fs.lookup ((breaking env p k handsOver).locate p) = .at (.file inode) := leads
  simp only [FileIo.open_in, System.status, System.call] at opened ⊢
  cases first : env.faults sys.clock with
  | some message => simp [first] at opened
  | none =>
    have first' : (breaking env p k handsOver).faults sys.clock = none := first
    cases second : env.faults (sys.clock + 1) with
    | some message => simp [first, leads, second] at opened
    | none =>
      have second' : (breaking env p k handsOver).faults (sys.clock + 1) = none := second
      simp only [first, leads, second, data, calm, FStream.tick] at opened
      simp only [first', leads', second', data, medium, FStream.tick]
      simp only [Option.isSome_none, Bool.false_eq_true, if_false, Prod.mk.injEq, true_and] at opened ⊢
      exact ⟨rfl, opened.2⟩

/-- A file that is created is written as before. -/
theorem created_breaking (still : (env.media p).events = []) (q : Path) :
    FileIo.created (breaking env p k handsOver) q = FileIo.created env q := by
  by_cases same : q = p
  · subst same
    simp only [FileIo.created, breaking, if_pos, still]
  · simp only [FileIo.created, breaking, if_neg same]

theorem open_exclusive_breaking (still : (env.media p).events = []) (q : Path) (sys : System) :
    FileIo.open_exclusive (breaking env p k handsOver) q sys = FileIo.open_exclusive env q sys := by
  simp only [FileIo.open_exclusive, created_breaking still]
  rfl

theorem stage_breaking (still : (env.media p).events = []) : ∀ attempts,
    OutputTransaction.stage (breaking env p k handsOver) attempts = OutputTransaction.stage env attempts := by
  have candidate : ∀ path, OutputTransaction.open_candidate (breaking env p k handsOver) path =
      OutputTransaction.open_candidate env path := by
    intro path
    funext ⟨t, s⟩
    simp only [OutputTransaction.open_candidate, open_exclusive_breaking still]
  intro attempts
  induction attempts with
  | zero =>
    unfold OutputTransaction.stage
    rfl
  | succ attempts ih =>
    simp only [OutputTransaction.stage, candidate, ih]
    rfl

theorem compareInputs_breaking : ∀ inputs : List Path,
    OutputTransaction.compareInputs (breaking env p k handsOver) inputs = OutputTransaction.compareInputs env inputs := by
  intro inputs
  induction inputs with
  | nil => rfl
  | cons input inputs ih =>
    simp only [OutputTransaction.compareInputs, ih]
    rfl

/-- The output is staged as before. -/
theorem open_breaking (still : (env.media p).events = []) (destination : Path) (inputs : List Path) :
    OutputTransaction.open_ (breaking env p k handsOver) destination inputs =
      OutputTransaction.open_ env destination inputs := by
  have validated : OutputTransaction.validateDestination (breaking env p k handsOver) =
      OutputTransaction.validateDestination env := by
    funext ⟨t, s⟩
    simp only [OutputTransaction.validateDestination, compareInputs_breaking]
    rfl
  simp only [OutputTransaction.open_, validated, stage_breaking still]

/-! ### The run -/

/-- The state once the inputs are open. -/
def opening (U : StrongHash) (old_file delta_file : FileIo) (sys : System) : ApplyState U :=
  { old_file, reader := Apply.reader U delta_file, transaction := {}, system := sys, whole_file_hash := U.init }

/-- A run gets to a test for an opcode. -/
inductive RunTests (env : Environment) (T : RollingHash) (old_path delta_path output_path : Path) (max_output_bytes : Nat)
    (sys : System) (test : Test U) : Prop
  | intro {old_file delta_file : FileIo} {sys₁ sys₂ : System} {chunks : List SignedChunk} {s₁ s₂ s₃ : ApplyState U}
      (opened : FileIo.open_in env old_path sys = (true, old_file, sys₁))
      (opened' : FileIo.open_in env delta_path sys₁ = (true, delta_file, sys₂))
      (staged : Apply.staging (OutputTransaction.open_ env output_path [old_path, delta_path])
        (opening U old_file delta_file sys₂) = .ok () s₁)
      (begun : Apply.reading Apply.category DeltaReader.read_header s₁ = .ok () s₂)
      (signed : Apply.sign_old T old_path s₂ = .ok chunks s₃)
      (tests : Tests (delta_file.f_.reach + 1) chunks max_output_bytes (delta_file.f_.reach + 1) s₃ test)

variable {s s' t : ApplyState U} {fuel max_output_bytes : Nat}

theorem finish_dead {t : ApplyState U} (dead : Dead t.reader.in_) :
    ∃ e t', Apply.reading Apply.category (DeltaReader.finish false) t = .error e t' ∧ IsIo e := by
  have failed : DeltaReader.fail_if_error "Failed to read delta" t.reader = .error "Failed to read delta" t.reader :=
    if_pos dead.1
  have stopped : DeltaReader.finish false t.reader = .error "Failed to read delta" t.reader := bind_error failed
  refine ⟨⟨Apply.category t.reader, "Failed to read delta"⟩, t, ?_, category_failed dead.1⟩
  simp only [Apply.reading, stopped]

/-- All that follows the opening of the output, in both runs. -/
theorem reconstruct_twins (twins : Twins delta s s')
    (run : Apply.reconstruct T fuel p max_output_bytes s = .ok () t)
    (accepted : ∀ s₁ chunks s₂ test, Apply.reading Apply.category DeltaReader.read_header s' = .ok () s₁ →
      Apply.sign_old T p s₁ = .ok chunks s₂ → Tests fuel chunks max_output_bytes fuel s₂ test →
      test.Cut delta → test.Accepted) :
    ∃ e t', Apply.reconstruct T fuel p max_output_bytes s' = .error e t' ∧ IsIo e := by
  unfold Apply.reconstruct at run ⊢
  obtain ⟨_, s₁, begun, run⟩ := bind_success run
  obtain ⟨chunks, s₂, signed, run⟩ := bind_success run
  obtain ⟨saw, s₃, looped, _⟩ := bind_success run
  have mirrored := mirrors_reading read_header_sim careful_header s s' () s₁ twins begun
  cases begun' : Apply.reading Apply.category DeltaReader.read_header s' with
  | error e s₁' => exact ⟨e, s₁', bind_error begun', mirrored.of_error begun'⟩
  | ok _ s₁' =>
    obtain ⟨_, twins₁⟩ := mirrored.of_ok begun'
    obtain ⟨s₂', signed', twins₂⟩ := (sign_old_blind T p).twins twins₁ signed
    rw [bind_ok begun', bind_ok signed']
    have ends := apply_items_twins fuel s₂ s₂' s₃ saw (.inl twins₂) looped fun test tests =>
      accepted s₁' chunks s₂' test begun' signed' tests
    cases looped' : Apply.apply_items fuel chunks max_output_bytes fuel s₂' with
    | error e s₃' =>
      rw [looped'] at ends
      exact ⟨e, s₃', bind_error looped', ends⟩
    | ok saw' s₃' =>
      rw [looped'] at ends
      obtain ⟨rfl, dead⟩ := ends
      obtain ⟨e, t', stopped, io⟩ := finish_dead dead
      rw [bind_ok looped']
      exact ⟨e, t', bind_error stopped, io⟩

/-- A test that is cut off and not accepted ends it with its own report. -/
theorem reconstruct_refused {chunks : List SignedChunk} {s₁ s₂ : ApplyState U} {test : Test U}
    (begun : Apply.reading Apply.category DeltaReader.read_header s = .ok () s₁)
    (signed : Apply.sign_old T p s₁ = .ok chunks s₂) (tests : Tests fuel chunks max_output_bytes fuel s₂ test)
    (cut : test.Cut delta) (refused : ¬ test.Accepted) :
    ∃ t', Apply.reconstruct T fuel p max_output_bytes s = .error test.report t' := by
  obtain ⟨t', stopped⟩ := tests_refused tests cut.1 refused
  unfold Apply.reconstruct
  rw [bind_ok begun, bind_ok signed]
  exact ⟨t', bind_error stopped⟩

/-- What a run that succeeds went through. -/
theorem apply_delta_success {old_path output_path : Path} {stats : ApplyStats}
    (applied : (Apply.apply_delta env T U old_path delta_path output_path max_output_bytes sys).result = .ok stats) :
    ∃ old_file sys₁ delta_file sys₂ s₁ s₂, FileIo.open_in env old_path sys = (true, old_file, sys₁) ∧
      FileIo.open_in env delta_path sys₁ = (true, delta_file, sys₂) ∧
      Apply.staging (OutputTransaction.open_ env output_path [old_path, delta_path])
        (opening U old_file delta_file sys₂) = .ok () s₁ ∧
      Apply.reconstruct T (delta_file.f_.reach + 1) old_path max_output_bytes s₁ = .ok () s₂ := by
  unfold Apply.apply_delta at applied
  rcases opened : FileIo.open_in env old_path sys with ⟨_ | _, old_file, sys₁⟩
  · rw [opened] at applied
    cases applied
  rw [opened] at applied
  dsimp only at applied
  rcases opened' : FileIo.open_in env delta_path sys₁ with ⟨_ | _, delta_file, sys₂⟩
  · rw [opened'] at applied
    cases applied
  rw [opened'] at applied
  dsimp only [Apply.apply_opened] at applied
  cases staged : Apply.staging (OutputTransaction.open_ env output_path [old_path, delta_path])
      (opening U old_file delta_file sys₂) with
  | error e s₁ =>
    rw [opening] at staged
    rw [staged] at applied
    cases applied
  | ok _ s₁ =>
    rw [opening] at staged
    rw [staged] at applied
    dsimp only at applied
    cases run : Apply.reconstruct T (delta_file.f_.reach + 1) old_path max_output_bytes s₁ with
    | error e s₂ =>
      rw [run] at applied
      cases applied
    | ok _ s₂ => exact ⟨old_file, sys₁, delta_file, sys₂, s₁, s₂, rfl, opened', staged, run⟩

/-- An error before the commit is that of the run. -/
theorem apply_delta_stops {old_path output_path : Path} {old_file delta_file : FileIo} {sys₁ sys₂ : System} {e : DeltaError}
    (opened : FileIo.open_in env old_path sys = (true, old_file, sys₁))
    (opened' : FileIo.open_in env delta_path sys₁ = (true, delta_file, sys₂))
    (staged : Apply.staging (OutputTransaction.open_ env output_path [old_path, delta_path])
      (opening U old_file delta_file sys₂) = .ok () s)
    (stopped : Apply.reconstruct T (delta_file.f_.reach + 1) old_path max_output_bytes s = .error e t) :
    (Apply.apply_delta env T U old_path delta_path output_path max_output_bytes sys).result = .error e := by
  rw [opening] at staged
  unfold Apply.apply_delta
  rw [opened]
  dsimp only
  rw [opened']
  dsimp only [Apply.apply_opened]
  rw [staged]
  dsimp only
  rw [stopped]
  rfl

/-- The run on a delta that breaks off, up to where its output is staged, and the run on
    the whole delta from there on. -/
theorem twin_runs (k : Nat) (handsOver : Bool) {old_path output_path : Path} (holds : sys.Holds env delta_path delta) (calm : env.media delta_path = {})
    (apart : old_path ≠ delta_path) (inside : k ≤ delta.length) {stats : ApplyStats}
    (applied : (Apply.apply_delta env T U old_path delta_path output_path max_output_bytes sys).result = .ok stats) :
    ∃ old_file sys₁ sys₂ s s' t,
      FileIo.open_in (breaking env delta_path k handsOver) old_path sys = (true, old_file, sys₁) ∧
      FileIo.open_in (breaking env delta_path k handsOver) delta_path sys₁ =
        (true, FileIo.opened delta (some k) handsOver, sys₂) ∧
      Apply.staging (OutputTransaction.open_ (breaking env delta_path k handsOver) output_path [old_path, delta_path])
        (opening U old_file (FileIo.opened delta (some k) handsOver) sys₂) = .ok () s' ∧
      s'.reader = Apply.reader U (FileIo.opened delta (some k) handsOver) ∧ Twins delta s s' ∧
      Apply.reconstruct T ((FileIo.opened delta (some k) handsOver).f_.reach + 1) old_path max_output_bytes s = .ok () t := by
  have still : (env.media delta_path).events = [] := by rw [calm]
  obtain ⟨old_file, sys₁, delta_file, sys₂, s, t, opened, opened', staged, run⟩ := apply_delta_success applied
  have holds₁ : sys₁.Holds env delta_path delta := by
    have untouched := (open_in_untouched env old_path sys).fs
    rw [opened] at untouched
    obtain ⟨inode, leads, data⟩ := holds
    exact ⟨inode, untouched ▸ leads, untouched ▸ data⟩
  obtain rfl := open_in_holds holds₁ calm opened'
  have broken : FileIo.open_in (breaking env delta_path k handsOver) delta_path sys₁ =
      (true, FileIo.opened delta (some k) handsOver, sys₂) := open_in_broken holds₁ calm opened'
  have other : FileIo.open_in (breaking env delta_path k handsOver) old_path sys = (true, old_file, sys₁) := by
    rw [open_in_other apart, opened]
  have reach : (FileIo.opened delta none true).f_.reach = (FileIo.opened delta (some k) handsOver).f_.reach := rfl
  rw [reach] at run
  -- The output is staged, with the other delta.
  unfold Apply.staging opening at staged ⊢
  rw [open_breaking still]
  dsimp only at staged ⊢
  generalize staging : OutputTransaction.open_ env output_path [old_path, delta_path] ({}, sys₂) = r at staged
  cases r with
  | error e q => cases staged
  | ok _ q =>
    obtain ⟨_, rfl⟩ := EStateM.Result.ok.inj staged
    refine ⟨old_file, sys₁, sys₂, _, _, t, other, broken, by rw [staging], rfl, ?_, run⟩
    exact ⟨⟨delta, ⟨opened_feeds true, rfl⟩, ⟨opened_faulty handsOver inside, rfl⟩⟩, rfl⟩

/-- The I/O error of a delta that breaks off is reported, whatever the delta and wherever
    it breaks, if and only if every test for an opcode at which the read-ahead
    runs dry, with an opcode next in the delta, comes after opcodes that
    already rebuild the chunk of the entry. -/
theorem broken_delta_is_reported (env : Environment) (T : RollingHash) (U : StrongHash) (sys : System)
    (old_path delta_path output_path : Path) (max_output_bytes k : Nat) (handsOver : Bool) (delta : List UInt8)
    (holds : sys.Holds env delta_path delta) (calm : env.media delta_path = {}) (apart : old_path ≠ delta_path)
    (inside : k ≤ delta.length)
    (applied : ∃ stats, (Apply.apply_delta env T U old_path delta_path output_path max_output_bytes sys).result = .ok stats) :
    (∃ e, (Apply.apply_delta (breaking env delta_path k handsOver) T U old_path delta_path output_path
        max_output_bytes sys).result = .error e ∧ e.code = .io_error) ↔
      ∀ test : Test U, RunTests (breaking env delta_path k handsOver) T old_path delta_path output_path max_output_bytes
        sys test → test.Cut delta → test.Accepted := by
  obtain ⟨stats, applied⟩ := applied
  obtain ⟨old_file, sys₁, sys₂, s, s', t, opened, opened', staged, _, twins, run⟩ :=
    twin_runs k handsOver holds calm apart inside applied
  constructor
  · rintro ⟨e, reported, io⟩ test ⟨again, again', restaged, begun, signed, tests⟩ cut
    obtain ⟨rfl, rfl⟩ : old_file = _ ∧ sys₁ = _ := by simpa using opened.symm.trans again
    obtain ⟨rfl, rfl⟩ : _ = _ ∧ sys₂ = _ := by simpa using opened'.symm.trans again'
    obtain ⟨_, rfl⟩ := EStateM.Result.ok.inj (staged.symm.trans restaged)
    by_contra refused
    obtain ⟨t', stopped⟩ := reconstruct_refused begun signed tests cut refused
    obtain rfl : test.report = e := by simpa using (apply_delta_stops opened opened' staged stopped).symm.trans reported
    exact report_other test io
  · intro accepted
    obtain ⟨e, t', stopped, io⟩ := reconstruct_twins twins run fun _ _ _ test begun signed tests =>
      accepted test ⟨opened, opened', staged, begun, signed, tests⟩
    exact ⟨e, apply_delta_stops opened opened' staged stopped, io⟩

/-- `broken_delta_is_reported` for a delta with a record of each kind, which breaks off
    within the head of the last one. -/
theorem broken_delta_is_reported_mixed :
    (∃ e, (Apply.apply_delta (breaking {} ⟨"", "delta"⟩ 50 true) RKFinger.rolling StrongHash.padded ⟨"", "old"⟩ ⟨"", "delta"⟩
        ⟨"", "output"⟩ UINT64_MAX byteAndDelta).result = .error e ∧ e.code = .io_error) ↔
      ∀ test : Test StrongHash.padded, RunTests (breaking {} ⟨"", "delta"⟩ 50 true) RKFinger.rolling ⟨"", "old"⟩ ⟨"", "delta"⟩
        ⟨"", "output"⟩ UINT64_MAX byteAndDelta test → test.Cut Viewing.mixedDelta → test.Accepted :=
  broken_delta_is_reported {} RKFinger.rolling StrongHash.padded byteAndDelta ⟨"", "old"⟩ ⟨"", "delta"⟩ ⟨"", "output"⟩
    UINT64_MAX 50 true Viewing.mixedDelta ready_byteAndDelta.delta_file rfl (by decide) (by decide +kernel)
    (means_applied undisturbed_default StrongHash.padded_streams (by decide) ready_byteAndDelta mixedDelta_means (by decide))

/-! ### A test that is cut off

The read-ahead is drained at a test when the entry before it ends where the
read-ahead does.
-/

variable {f : FStream} {rest rest' w : List UInt8} {α : Type}

/-- The stream stands at `f`, without an error, and `rest` is left. -/
structure Standing (delta : List UInt8) (f : FStream) (rest : List UInt8) (s : ApplyState U) : Prop where
  feeds : (source delta U.get_hash_size).feeds s.reader rest true
  stream : s.reader.in_.f_ = f
  quiet : s.reader.in_.io_error_ = false

theorem Standing.ahead (standing : Standing delta f rest s) (inside : delta.length ≤ f.pos + rest'.length) :
    Ahead delta s.reader rest' := ⟨standing.quiet, by rw [standing.stream]; exact inside⟩

theorem standing_reading {m : ReadM α} {q : Parser UInt8 α} (careful : Careful delta U.get_hash_size m q) {a : α}
    (standing : Standing delta f rest s) (parsed : q rest = some (a, rest')) (inside : delta.length ≤ f.pos + rest'.length) :
    ∃ s', Apply.reading Apply.category m s = .ok a s' ∧ Standing delta f rest' s' := by
  obtain ⟨r, run, feeds, same, ahead⟩ := reading_ahead careful standing.feeds parsed (standing.ahead inside)
  exact ⟨_, run, feeds, same.trans standing.stream, ahead.1⟩

/-- What does not look at the reader. -/
theorem standing_blind {m : ApplyM U α} {a : α} (blind : Blind m) (standing : Standing delta f rest s) (run : m s = .ok a t) :
    Standing delta f rest t := by
  have kept := (blind.runs run s.reader).2
  exact ⟨by rw [kept]; exact standing.feeds, by rw [kept]; exact standing.stream, by rw [kept]; exact standing.quiet⟩

/-- An item is ahead, and the look at it changes nothing. -/
theorem standing_next {b : UInt8} (standing : Standing delta f (b :: rest) s) (inside : delta.length ≤ f.pos + rest.length)
    (other : b ≠ DELTA_TRAILER_TAG) : Apply.reading Apply.category DeltaReader.next_item s = .ok .Entry s := by
  have held := ahead_buffered standing.feeds (standing.ahead inside)
  rw [List.length_cons] at held
  have window := standing.feeds.1.window.1
  obtain ⟨c, tail, same, here, _⟩ := front_byte standing.feeds.1 (by omega : s.reader.in_.rpos_ < s.reader.in_.rlen_)
  obtain ⟨rfl, rfl⟩ := List.cons.inj same
  have peeked : s.reader.in_.peek_byte = (some b, s.reader.in_) := by
    unfold FileIo.peek_byte FileIo.ahead
    rw [if_neg (by omega)]
    simp only [here]
  rw [next_item_run, peeked]
  simp only [itemOf, if_neg other]

variable {chunks : List SignedChunk} {left : Nat} {saw : Bool} {h : DeltaEntryHeader}

theorem entry_first (word : Grammar.IsEntry h w) : ∃ b tail, w = b :: tail ∧ b ≠ DELTA_TRAILER_TAG := by
  cases word with
  | original => exact ⟨_, _, rfl, by decide⟩
  | added => exact ⟨_, _, rfl, by decide⟩
  | modified => exact ⟨_, _, rfl, by decide⟩

/-- An entry whose header is ahead. -/
theorem standing_tag (standing : Standing delta f (w ++ rest) s) (word : Grammar.IsEntry h w)
    (inside : delta.length ≤ f.pos + rest.length) : Apply.reading Apply.category DeltaReader.next_item s = .ok .Entry s := by
  obtain ⟨b, tail, rfl, other⟩ := entry_first word
  rw [List.cons_append] at standing
  refine standing_next standing ?_ other
  rw [List.length_append]
  omega

/-- The header of an entry that is ahead. -/
theorem standing_entry (twins : Twins delta s s') {u : ApplyState U}
    (run : Apply.apply_items fuel chunks max_output_bytes (left + 1) s = .ok saw t)
    (item : Apply.reading Apply.category DeltaReader.next_item s' = .ok .Entry u)
    (standing : Standing delta f (w ++ rest) u) (word : Grammar.IsEntry h w)
    (inside : delta.length ≤ f.pos + rest.length) :
    ∃ s₁ s₁', (Apply.produce fuel chunks h >>= fun out => Apply.deliver max_output_bytes out >>= fun _ =>
        Apply.apply_items fuel chunks max_output_bytes left) s₁ = .ok saw t ∧
      Apply.reading Apply.category DeltaReader.read_entry_header u = .ok h s₁' ∧
      Twins delta s₁ s₁' ∧ Standing delta f rest s₁' := by
  unfold Apply.apply_items at run
  obtain ⟨next, s₁, ran, run⟩ := bind_success run
  obtain ⟨u', item', twins₁, _⟩ : ∃ u', Apply.reading Apply.category DeltaReader.next_item s' = .ok next u' ∧
      Twins delta s₁ u' ∧ next ≠ .End := by
    rcases next_item_twins twins ran with ⟨none, _⟩ | found
    · have ended := next_item_run s'
      rw [none, item] at ended
      cases (EStateM.Result.ok.inj ended).1
    · exact found
  obtain ⟨rfl, rfl⟩ := EStateM.Result.ok.inj (item.symm.trans item')
  dsimp only at run
  obtain ⟨h', s₂, read, run⟩ := bind_success run
  have parsed : Grammar.entryHeader (w ++ rest) = some (h, rest) :=
    (Grammar.recognises_entryHeader (N := (w ++ rest).length + 1) _ (Nat.lt_succ_self _) _ _).mpr ⟨w, rfl, word, trivial⟩
  obtain ⟨s₂', read', standing'⟩ := standing_reading careful_entry_header standing parsed inside
  obtain ⟨rfl, twins₂⟩ := (mirrors_reading read_entry_header_sim careful_entry_header s₁ u h' s₂ twins₁ read).of_ok read'
  exact ⟨s₂, s₂', run, read', twins₂, standing'⟩

/-- An ADDED record that is ahead is applied as before. -/
theorem standing_added {payload : List UInt8} (twins : Twins delta s s') {u : ApplyState U}
    (run : Apply.apply_items fuel chunks max_output_bytes (left + 1) s = .ok saw t)
    (item : Apply.reading Apply.category DeltaReader.next_item s' = .ok .Entry u)
    (standing : Standing delta f (w ++ (payload ++ rest)) u) (word : Grammar.IsEntry h w) (added : h.type = .ADDED_CHUNK)
    (size : payload.length = h.out_size.toNat) (inside : delta.length ≤ f.pos + rest.length) :
    ∃ s₁ s₁', Apply.apply_items fuel chunks max_output_bytes left s₁ = .ok saw t ∧ Twins delta s₁ s₁' ∧
      Standing delta f rest s₁' ∧ ∀ test, Tests fuel chunks max_output_bytes left s₁' test →
        Tests fuel chunks max_output_bytes (left + 1) s' test := by
  have room : delta.length ≤ f.pos + (payload ++ rest).length := by
    rw [List.length_append]
    omega
  obtain ⟨s₁, s₁', run, read, twins₁, standing₁⟩ := standing_entry twins run item standing word room
  obtain ⟨out, s₃, produced, run⟩ := bind_success run
  obtain ⟨_, s₄, delivered, run⟩ := bind_success run
  unfold Apply.produce at produced
  rw [added] at produced
  obtain ⟨bytes, s₂, took, checked⟩ := bind_success produced
  have parsed : exactly h.out_size.toNat (payload ++ rest) = some (payload, rest) := by
    rw [exactly_run, ← size, if_pos (by simp), List.take_left, List.drop_left]
  obtain ⟨s₂', took', standing₂⟩ := standing_reading (careful_payload _) standing₁ parsed inside
  obtain ⟨rfl, twins₂⟩ := (mirrors_reading (read_payload_sim _) (careful_payload _) s₁ s₁' bytes s₂ twins₁ took).of_ok took'
  have blind := blind_bind (fail_if_blind (U := U) (!Apply.verifyDigest U payload h.digest) .integrity_mismatch
    "ADDED entry hash mismatch") fun _ => blind_pure payload
  obtain ⟨s₃', checked', twins₃⟩ := blind.twins twins₂ checked
  obtain ⟨s₄', delivered', twins₄⟩ := (deliver_blind max_output_bytes out).twins twins₃ delivered
  have produced' : Apply.produce fuel chunks h s₁' = .ok out s₃' := by
    unfold Apply.produce
    rw [added]
    exact (bind_ok took').trans checked'
  refine ⟨s₄, s₄', run, twins₄, ?_, fun test tests => .again item read produced' delivered' tests⟩
  exact standing_blind (deliver_blind max_output_bytes out) (standing_blind blind standing₂ checked') delivered'

/-- The test before the first opcode of a MODIFIED record whose header is ahead. -/
theorem standing_modified (twins : Twins delta s s') {u : ApplyState U}
    (run : Apply.apply_items (fuel + 1) chunks max_output_bytes (left + 1) s = .ok saw t)
    (item : Apply.reading Apply.category DeltaReader.next_item s' = .ok .Entry u)
    (standing : Standing delta f (w ++ rest) u) (word : Grammar.IsEntry h w) (modified : h.type = .MODIFIED_CHUNK)
    (inside : delta.length ≤ f.pos + rest.length) :
    ∃ test, Tests (fuel + 1) chunks max_output_bytes (left + 1) s' test ∧ test.seen = 0 ∧ Standing delta f rest test.state := by
  obtain ⟨s₁, s₁', run, read, twins₁, standing₁⟩ := standing_entry twins run item standing word inside
  obtain ⟨out, _, produced, _⟩ := bind_success run
  unfold Apply.produce at produced
  rw [modified] at produced
  obtain ⟨chunk, s₂, found, produced⟩ := bind_success produced
  obtain ⟨old_data, s₃, data, _⟩ := bind_success produced
  obtain ⟨s₂', found', twins₂⟩ := (find_source_blind chunks h).twins twins₁ found
  obtain ⟨s₃', data', _⟩ := (read_source_blind chunk _).twins twins₂ data
  refine ⟨⟨h, old_data, 0, {}, s₃'⟩, .here item read modified found' data' .here, rfl, ?_⟩
  exact standing_blind (read_source_blind chunk _) (standing_blind (find_source_blind chunks h) standing₁ found') data'

/-- ADDED records that are ahead. -/
theorem standing_all {records : List Grammar.Record} {v : List UInt8} (many : Many Grammar.IsRecord records v) :
    ∀ (left : Nat) (s s' : ApplyState U), (∀ r ∈ records, r.header.type = .ADDED_CHUNK) → Twins delta s s' →
      Apply.apply_items fuel chunks max_output_bytes (records.length + left) s = .ok saw t →
      Standing delta f (v ++ rest) s' → delta.length ≤ f.pos + rest.length →
      ∃ s₁ s₁', Apply.apply_items fuel chunks max_output_bytes left s₁ = .ok saw t ∧ Twins delta s₁ s₁' ∧
        Standing delta f rest s₁' ∧ ∀ test, Tests fuel chunks max_output_bytes left s₁' test →
          Tests fuel chunks max_output_bytes (records.length + left) s' test := by
  induction many with
  | nil =>
    intro left s s' _ twins run standing _
    rw [List.length_nil, Nat.zero_add] at run ⊢
    exact ⟨s, s', run, twins, standing, fun _ tests => tests⟩
  | @cons r records v₁ v₂ word _ ih =>
    intro left s s' added twins run standing inside
    have type := added r (List.mem_cons_self ..)
    cases word with
    | original original => rw [original] at type; cases type
    | modified modified => rw [modified] at type; cases type
    | @added h w payload _ entry size =>
      rw [List.append_assoc, List.append_assoc] at standing
      rw [List.length_cons, Nat.add_right_comm] at run ⊢
      have room : delta.length ≤ f.pos + (v₂ ++ rest).length := by
        rw [List.length_append]
        omega
      have item := standing_tag standing entry (by rw [List.length_append]; omega)
      obtain ⟨s₁, s₁', run₁, twins₁, standing₁, tests₁⟩ := standing_added twins run item standing entry type size room
      obtain ⟨s₂, s₂', run₂, twins₂, standing₂, tests₂⟩ :=
        ih left s₁ s₁' (fun r member => added r (List.mem_cons_of_mem _ member)) twins₁ run₁ standing₁ inside
      exact ⟨s₂, s₂', run₂, twins₂, standing₂, fun test tests => tests₁ test (tests₂ test tests)⟩

/-! ### The read-ahead of a delta -/

/-- A read that ends before the file breaks. -/
theorem read_before {f : FStream} {n : Nat} (clean : Clean delta true f) (flags : Flags delta true f)
    (bad : f.badFrom = some k) (inside : k ≤ delta.length) (before : f.pos + n ≤ k) :
    f.read n = ((delta.drop f.pos).take n, { f with pos := f.pos + n, eofbit := false, failbit := false }) := by
  obtain ⟨_, data, events, _⟩ := clean
  obtain ⟨badbit, failbit, eofbit⟩ := flags
  have running : f.eofbit = false := by
    cases ended : f.eofbit with
    | false => rfl
    | true => exact absurd (eofbit ended).2 nofun
  have good : f.good = true := by
    cases failed : f.failbit with
    | false => simp [FStream.good, running, badbit, failed]
    | true => exact absurd ((failbit failed).symm.trans running) nofun
  have whole : ((delta.drop f.pos).take n).length = n := by
    rw [List.length_take, List.length_drop]
    omega
  have far : ¬ k < f.pos + n := by omega
  simp [FStream.read, good, FStream.tick, events, FStream.stopsAt, bad, data, far, -List.length_take, whole]

/-- A read where the file breaks. -/
theorem read_broken {f : FStream} {n : Nat} (clean : Clean delta true f) (bad : f.badFrom = some f.pos)
    (inside : f.pos ≤ delta.length) (some : 0 < n) : (f.read n).1 = [] := by
  obtain ⟨_, data, events, _⟩ := clean
  unfold FStream.read
  split
  · rfl
  · simp [FStream.tick, events, FStream.stopsAt, bad, data, inside, some]

theorem refill_before {g : FileIo} (feeds : Feeds delta g rest true) (quiet : g.io_error_ = false)
    (bad : g.f_.badFrom = some k) (inside : k ≤ delta.length) (before : g.f_.pos + FileIo.READ_BUFFER_SIZE ≤ k) :
    ∃ g', g.refill = (true, g') ∧ g'.f_.pos = g.f_.pos + FileIo.READ_BUFFER_SIZE ∧ g'.f_.badFrom = some k ∧
      g'.io_error_ = false := by
  have flags := feeds.flags quiet
  have read := read_before feeds.stream flags bad inside before
  have length : ((delta.drop g.f_.pos).take FileIo.READ_BUFFER_SIZE).length = FileIo.READ_BUFFER_SIZE := by
    rw [List.length_take, List.length_drop]
    omega
  have some : ¬ ((delta.drop g.f_.pos).take FileIo.READ_BUFFER_SIZE).length = 0 := by
    rw [length]
    decide
  unfold FileIo.refill FileIo.pull
  simp only [FileIo.discard_read_buffer, feeds.stream.opened, feeds.readable, quiet, Bool.not_true, Bool.or_self,
    Bool.false_eq_true, if_false, read, if_neg some]
  exact ⟨_, rfl, rfl, bad, by simp [FStream.fail, flags.badbit]⟩

/-- Where the read-ahead is drained and the file breaks, nothing is ahead. -/
theorem peek_broken {g : FileIo} (feeds : Feeds delta g rest true) (bad : g.f_.badFrom = some g.f_.pos)
    (drained : delta.length = g.f_.pos + rest.length) : g.peek_byte.1 = none ∧ g.position = g.f_.pos := by
  have length := feeds_length feeds
  have window := feeds.window.1
  have empty : g.rpos_ = g.rlen_ := by omega
  have failed : g.refill.1 = false := by
    have read := read_broken feeds.stream bad (by omega) (by decide : 0 < FileIo.READ_BUFFER_SIZE)
    unfold FileIo.refill FileIo.pull
    simp only [FileIo.discard_read_buffer, read, List.length_nil, if_true]
    split <;> rfl
  constructor
  · unfold FileIo.peek_byte FileIo.ahead
    rw [if_pos empty]
    generalize g.refill = r at failed
    obtain ⟨_, _⟩ := r
    cases failed
    rfl
  · simp [FileIo.position, empty]

/-- The first read of a handle, and the handle after it. -/
theorem read_chunk_opened (handsOver : Bool) {n : Nat} (some : 0 < n) (small : n ≤ FileIo.READ_BUFFER_SIZE) (before : n ≤ k)
    (inside : k ≤ delta.length) :
    let g := FileIo.opened delta (Option.some k) handsOver
    g.read_chunk n = (delta.take n, { g with f_ := { g.f_ with pos := n }, seen := [delta.take n] }) := by
  intro g
  have feeds : Feeds delta g delta true := opened_faulty handsOver inside
  have read := read_before feeds.stream (feeds.flags rfl) rfl inside (show g.f_.pos + n ≤ k by simpa [g, FileIo.opened])
  have length : (delta.take n).length = n := by
    rw [List.length_take]
    omega
  have stepped : g.read_step n = (delta.take n, { g with f_ := { g.f_ with pos := n } }) := by
    have pulled : g.pull n = (delta.take n, { g with f_ := { g.f_ with pos := n } }) := by
      unfold FileIo.pull
      rw [read]
      simp [g, FileIo.opened, FStream.fail]
    unfold FileIo.read_step
    simp only [show min n (g.rlen_ - g.rpos_) = 0 from Nat.min_eq_right (Nat.zero_le n), some, if_true, Nat.sub_zero]
    rw [show ({ g with rpos_ := g.rpos_ + 0 } : FileIo) = g from rfl, pulled]
    rfl
  obtain ⟨m, rfl⟩ : ∃ m, n = m + 1 := ⟨n - 1, by omega⟩
  have looped : FileIo.read_steps (m + 1) (m + 1) [] g =
      (delta.take (m + 1), { g with f_ := { g.f_ with pos := m + 1 } }) := by
    unfold FileIo.read_steps
    simp only [List.length_nil, Nat.sub_zero, if_pos (Nat.succ_pos m), Nat.min_eq_left small, stepped, length, List.nil_append]
    rw [if_neg (by simp [g, FileIo.opened])]
    cases m with
    | zero => rfl
    | succ m =>
      unfold FileIo.read_steps
      rw [if_neg (by rw [length]; exact Nat.lt_irrefl _)]
  unfold FileIo.read_chunk
  rw [if_neg (Nat.succ_ne_zero m), looped]
  rfl

variable {body : List UInt8}

/-- The header of a delta that breaks off later. -/
theorem read_header_opened (split : delta = DELTA_MAGIC ++ push_u32_be [] DELTA_FORMAT_VERSION ++ body)
    (reader : s.reader = Apply.reader U (FileIo.opened delta (some k) handsOver)) (before : DELTA_HEADER_SIZE ≤ k)
    (inside : k ≤ delta.length) :
    ∃ f s', Apply.reading Apply.category DeltaReader.read_header s = .ok () s' ∧ Standing delta f body s' ∧
      f.pos = DELTA_HEADER_SIZE ∧ f.badFrom = some k := by
  have chunk := read_chunk_opened handsOver (by decide) (by decide) before inside
  dsimp only at chunk
  have ran : ∃ r, DeltaReader.read_header s.reader = .ok () r ∧ r.in_.f_.pos = DELTA_HEADER_SIZE ∧
      r.in_.f_.badFrom = some k ∧ r.in_.io_error_ = false := by
    have first : DeltaReader.read_chunk DELTA_HEADER_SIZE s.reader =
        .ok (s.reader.in_.read_chunk DELTA_HEADER_SIZE).1
          { s.reader with in_ := (s.reader.in_.read_chunk DELTA_HEADER_SIZE).2 } := rfl
    have front : delta.take DELTA_HEADER_SIZE = DELTA_MAGIC ++ push_u32_be [] DELTA_FORMAT_VERSION := by
      rw [split]
      rfl
    rw [show s.reader.in_ = FileIo.opened delta (some k) handsOver by rw [reader]; rfl, chunk, front] at first
    unfold DeltaReader.read_header
    rw [bind_ok first]
    exact ⟨_, rfl, rfl, rfl, rfl⟩
  obtain ⟨r, ran, pos, bad, quiet⟩ := ran
  have feeds : (source delta U.get_hash_size).feeds s.reader delta true := by
    rw [reader]
    exact ⟨opened_faulty handsOver inside, rfl⟩
  have outcome := (careful_header : Careful delta U.get_hash_size _ _).step s.reader delta feeds
  simp only [ran, (Grammar.header_run delta body).mpr split] at outcome
  obtain ⟨rest', same, feeds', _⟩ := outcome
  obtain rfl : body = rest' := by simpa using same
  exact ⟨r.in_.f_, { s with reader := r }, by simp only [Apply.reading, ran], ⟨feeds', rfl, quiet⟩, pos, bad⟩

/-- The look at the first item fills the read-ahead. -/
theorem next_item_filled {b : UInt8} {tail : List UInt8} (standing : Standing delta f (b :: tail) s)
    (drained : delta.length = f.pos + (b :: tail).length) (bad : f.badFrom = some k) (inside : k ≤ delta.length)
    (before : f.pos + FileIo.READ_BUFFER_SIZE ≤ k) (other : b ≠ DELTA_TRAILER_TAG) :
    ∃ f' s', Apply.reading Apply.category DeltaReader.next_item s = .ok .Entry s' ∧ Standing delta f' (b :: tail) s' ∧
      f'.pos = f.pos + FileIo.READ_BUFFER_SIZE ∧ f'.badFrom = some k := by
  obtain ⟨feeds, rfl, quiet⟩ := standing
  have length := feeds_length feeds.1
  have window := feeds.1.window.1
  have empty : s.reader.in_.rpos_ = s.reader.in_.rlen_ := by omega
  obtain ⟨g, filled, pos, bad', quiet'⟩ := refill_before feeds.1 quiet bad inside before
  have ahead : s.reader.in_.ahead = (true, g) := by
    unfold FileIo.ahead
    rw [if_pos empty, filled]
  have after : s.reader.in_.peek_byte.2 = g := by
    unfold FileIo.peek_byte
    rw [ahead]
  rcases peek_byte_broken feeds with ⟨r, peeked, dead⟩ | ⟨b', tail', r, restIs, peeked, feeds'⟩
  · obtain ⟨_, rfl⟩ := EStateM.Result.ok.inj peeked
    rw [after] at dead
    exact absurd (dead.1.symm.trans quiet') nofun
  · obtain ⟨first, rfl⟩ := EStateM.Result.ok.inj peeked
    obtain ⟨rfl, rfl⟩ := List.cons.inj restIs
    rw [after] at feeds'
    refine ⟨g.f_, { s with reader := { s.reader with in_ := g } }, ?_, ⟨feeds', rfl, quiet'⟩, pos, bad'⟩
    rw [next_item_run, first, after]
    simp only [itemOf, if_neg other]

/-- A delta whose first MODIFIED record has its header end where the read-ahead does, and
    that breaks off there. -/
structure EndsAhead (delta : List UInt8) (k : Nat) (records : List Grammar.Record) (h : DeltaEntryHeader)
    (rest : List UInt8) : Prop where
  split : ∃ u w, delta = DELTA_MAGIC ++ push_u32_be [] DELTA_FORMAT_VERSION ++ (u ++ (w ++ rest)) ∧
    Many Grammar.IsRecord records u ∧ Grammar.IsEntry h w
  added : ∀ r ∈ records, r.header.type = .ADDED_CHUNK
  some : records ≠ []
  modified : h.type = .MODIFIED_CHUNK
  fills : delta.length = k + rest.length
  breaks : k = DELTA_HEADER_SIZE + FileIo.READ_BUFFER_SIZE

/-- The first test for an opcode of such a delta is cut off. -/
theorem first_test_cut {records : List Grammar.Record} (ends : EndsAhead delta k records h rest)
    (opcode : is_diff_opcode rest.head? = true) (twins : Twins delta s s')
    (reader : s'.reader = Apply.reader U (FileIo.opened delta (some k) handsOver)) (enough : records.length < fuel)
    (run : Apply.reconstruct T fuel p max_output_bytes s = .ok () t) :
    ∃ s₁ chunks s₂ test, Apply.reading Apply.category DeltaReader.read_header s' = .ok () s₁ ∧
      Apply.sign_old T p s₁ = .ok chunks s₂ ∧ Tests fuel chunks max_output_bytes fuel s₂ test ∧ test.Cut delta ∧
      test.seen = 0 := by
  obtain ⟨⟨u, w, split, many, word⟩, added, some, modified, fills, breaks⟩ := ends
  have inside : k ≤ delta.length := by omega
  unfold Apply.reconstruct at run
  obtain ⟨_, a₁, begun, run⟩ := bind_success run
  obtain ⟨chunks, a₂, signed, run⟩ := bind_success run
  obtain ⟨saw, a₃, looped, _⟩ := bind_success run
  obtain ⟨f₁, s₁, begun', standing₁, pos₁, bad₁⟩ := read_header_opened split reader (by omega) inside
  have twins₁ := ((mirrors_reading read_header_sim careful_header s s' () a₁ twins begun).of_ok begun').2
  obtain ⟨s₂, signed', twins₂⟩ := (sign_old_blind T p).twins twins₁ signed
  have standing₂ := standing_blind (sign_old_blind T p) standing₁ signed'
  refine ⟨s₁, chunks, s₂, ?_⟩
  -- The first record fills the read-ahead, and the others are in it.
  cases many with
  | nil => exact absurd rfl some
  | @cons r records v₁ v₂ first others =>
    have type := added r (List.mem_cons_self ..)
    obtain ⟨left, rfl⟩ : ∃ left, fuel = records.length + (left + 1) + 1 := ⟨fuel - records.length - 2, by
      rw [List.length_cons] at enough
      omega⟩
    cases first with
    | original original => rw [original] at type; cases type
    | modified modified => rw [modified] at type; cases type
    | @added h₁ w₁ payload _ entry size =>
      obtain ⟨b, tail, begins, other⟩ := entry_first entry
      have long := congrArg List.length split
      simp only [List.length_append] at long
      have eight : (DELTA_MAGIC ++ push_u32_be [] DELTA_FORMAT_VERSION).length = DELTA_HEADER_SIZE := rfl
      rw [List.length_append] at eight
      have shape : w₁ ++ payload ++ v₂ ++ (w ++ rest) = b :: (tail ++ (payload ++ (v₂ ++ (w ++ rest)))) := by
        simp only [begins, List.append_assoc, List.cons_append]
      rw [shape] at standing₂
      have drained : delta.length = f₁.pos + (b :: (tail ++ (payload ++ (v₂ ++ (w ++ rest))))).length := by
        rw [← shape]
        simp only [List.length_append]
        omega
      obtain ⟨f₂, s₃, item, standing₃, pos₂, bad₂⟩ := next_item_filled standing₂ drained bad₁ inside (by omega) other
      have reached : f₂.pos = k := by omega
      rw [← List.cons_append, ← begins] at standing₃
      obtain ⟨a₄, s₄, run₄, twins₄, standing₄, tests₄⟩ := standing_added twins₂ looped item standing₃ entry type size
        (by simp only [List.length_append]; omega)
      obtain ⟨a₅, s₅, run₅, twins₅, standing₅, tests₅⟩ := standing_all others (left + 1) a₄ s₄
        (fun r member => added r (List.mem_cons_of_mem _ member)) twins₄ run₄ standing₄ (by rw [List.length_append]; omega)
      have item₅ := standing_tag standing₅ word (by omega)
      obtain ⟨test, tests, seen, standing⟩ := standing_modified twins₅ run₅ item₅ standing₅ word modified (by omega)
      have bad : test.state.reader.in_.f_.badFrom = Option.some test.state.reader.in_.f_.pos := by
        rw [standing.stream, bad₂, reached]
      obtain ⟨nothing, position⟩ := peek_broken standing.feeds.1 bad (by rw [standing.stream, reached, fills])
      refine ⟨test, begun', signed', tests₄ test (tests₅ test tests), ⟨nothing, ?_⟩, seen⟩
      rw [position, standing.stream, reached]
      have next : delta.drop k = rest := by
        rw [split, ← List.append_assoc, ← List.append_assoc]
        exact List.drop_left' (by simp only [List.length_append]; omega)
      rw [← List.head?_drop, next]
      exact opcode

/-- Such a delta is taken for corrupt. -/
theorem cut_delta_is_corrupt {old_path output_path : Path} (holds : sys.Holds env delta_path delta)
    (calm : env.media delta_path = {}) (apart : old_path ≠ delta_path) {stats : ApplyStats}
    (applied : (Apply.apply_delta env T U old_path delta_path output_path max_output_bytes sys).result = .ok stats)
    {records : List Grammar.Record} (ends : EndsAhead delta k records h rest) (opcode : is_diff_opcode rest.head? = true) :
    (Apply.apply_delta (breaking env delta_path k handsOver) T U old_path delta_path output_path max_output_bytes sys).result =
      .error ⟨.corrupt_delta, "MODIFIED entry has no diff opcodes"⟩ := by
  have inside : k ≤ delta.length := by
    rw [ends.fills]
    exact Nat.le_add_right _ _
  have enough : records.length < (FileIo.opened delta (some k) handsOver).f_.reach + 1 := by
    obtain ⟨u, w, split, many, _⟩ := ends.split
    have short := Roundtrip.records_length many
    have long := congrArg List.length split
    simp only [List.length_append] at long
    simp only [FStream.reach, FileIo.opened]
    omega
  obtain ⟨old_file, sys₁, sys₂, s, s', t, opened, opened', staged, reader, twins, run⟩ :=
    twin_runs k handsOver holds calm apart inside applied
  obtain ⟨s₁, chunks, s₂, test, begun, signed, tests, cut, none⟩ := first_test_cut ends opcode twins reader enough run
  have refused : ¬ test.Accepted := fun accepted => accepted.1 none
  obtain ⟨t', stopped⟩ := reconstruct_refused begun signed tests cut refused
  rw [apply_delta_stops opened opened' staged stopped, Test.report, if_pos none]

end

/-- The digest of zeros. -/
def zeros : List UInt8 := List.replicate DELTA_DIGEST_BYTES 0

/-- An ADDED record of zeros. -/
def filler : Grammar.Record :=
  { header := { type := .ADDED_CHUNK, out_size := 16360, digest := zeros }, payload := List.replicate 16360 0 }

def fillerBytes : List UInt8 := 1 :: ([0xE8, 0x7F] ++ zeros) ++ List.replicate 16360 0

/-- A MODIFIED record that makes 128 zeros out of the first old chunk. -/
def grown : Grammar.Record :=
  { header := { type := .MODIFIED_CHUNK, old_index := 0, out_size := 128, digest := zeros }
    opcodes := [{ op := OP_INSERT, pos := 0, bytes := List.replicate 128 0 }] }

def grownHeader : List UInt8 := 2 :: ([0] ++ [0x80, 0x01] ++ zeros)

def grownRun : List UInt8 := OP_INSERT :: push_u32_be [] 0 ++ 128 :: List.replicate 128 0

/-- A delta whose MODIFIED record has its first opcode at offset 65544. -/
def grownDelta : List UInt8 :=
  DELTA_MAGIC ++ push_u32_be [] DELTA_FORMAT_VERSION ++
    ((fillerBytes ++ (fillerBytes ++ (fillerBytes ++ (fillerBytes ++ [])))) ++
      (grownHeader ++ (grownRun ++ DELTA_TRAILER_TAG :: List.replicate 64 0)))

theorem filler_word : Grammar.IsRecord filler fillerBytes := by
  have continues : ∀ b ∈ [(0xE8 : UInt8)], 128 ≤ b.toNat := List.forall_mem_singleton.mpr (by decide)
  exact .added rfl (.added ⟨[0xE8], 0x7F, rfl, by decide, continues, by decide, rfl⟩ (by decide) rfl)
    (List.length_replicate ..)

theorem fillers_word : Many Grammar.IsRecord [filler, filler, filler, filler]
    (fillerBytes ++ (fillerBytes ++ (fillerBytes ++ (fillerBytes ++ [])))) :=
  .cons filler_word (.cons filler_word (.cons filler_word (.cons filler_word .nil)))

theorem grownHeader_word : Grammar.IsEntry grown.header grownHeader := by
  have continues : ∀ b ∈ [(0x80 : UInt8)], 128 ≤ b.toNat := List.forall_mem_singleton.mpr (by decide)
  exact .modified ⟨[], 0, rfl, by decide, nofun, by decide, rfl⟩
    ⟨[0x80], 0x01, rfl, by decide, continues, by decide, rfl⟩ (by decide) rfl

theorem grown_word : Grammar.IsRecord grown (grownHeader ++ grownRun) := by
  have length : (List.replicate 128 (0 : UInt8)).length = 128 := List.length_replicate ..
  have opcode : Grammar.IsOpcode ⟨OP_INSERT, 0, 0, List.replicate 128 0⟩ (OP_INSERT :: push_u32_be [] 0 ++
      UInt8.ofNat (List.replicate 128 (0 : UInt8)).length :: List.replicate 128 0) := .inline (.inr rfl) (by omega)
  rw [length] at opcode
  have run := Many.cons opcode .nil
  rw [List.append_nil] at run
  exact .modified rfl grownHeader_word (by simp) run

theorem grownDelta_shape : Grammar.IsDelta 64 ([filler, filler, filler, filler] ++ [grown]) (List.replicate 64 0) grownDelta := by
  have last := Many.cons grown_word .nil
  rw [List.append_nil] at last
  refine ⟨_, rfl, _, ?_, many_append fillers_word last, List.length_replicate ..⟩
  simp only [List.append_assoc]

/-- A file of one byte, and this delta. -/
def byteAndGrown : System := { fs := .holding [((0, "old"), [7]), ((0, "delta"), grownDelta)] }

theorem padded_zeros {n : Nat} (some : 64 ≤ n) : StrongHash.padded.hash (List.replicate n 0) = List.replicate 64 0 := by
  show (List.replicate n (0 : UInt8) ++ List.replicate 64 0).take 64 = List.replicate 64 0
  rw [List.take_append_of_le_length (by simpa using some), List.take_replicate, Nat.min_eq_left some]

theorem padded_digest {n : Nat} (some : 64 ≤ n) : StrongHash.padded.digest (List.replicate n 0) = zeros := by
  rw [StrongHash.digest, padded_zeros some]
  rfl

theorem ready_byteAndGrown : Ready {} byteAndGrown [7] grownDelta ⟨"", "old"⟩ ⟨"", "delta"⟩ ⟨"", "output"⟩ :=
  ⟨⟨0, rfl, rfl⟩, ⟨1, rfl, rfl⟩, ⟨by decide, .inl rfl, 0, by decide, rfl, by simp⟩⟩

theorem filler_evaluates (old : List UInt8) (chunks : List SignedChunk) :
    Evaluation.evaluate StrongHash.padded old chunks filler = some (List.replicate 16360 0) := by
  have digest : StrongHash.padded.digest filler.payload = filler.header.digest :=
    padded_digest (by decide : 64 ≤ 16360)
  have type : filler.header.type = .ADDED_CHUNK := rfl
  rw [Evaluation.evaluate, type]
  dsimp only
  rw [if_pos digest]
  rfl

/-- The chunk of a file of one byte. -/
def byteChunk : SignedChunk :=
  { signature := Chunker.fingerprint [7], hash := StrongHash.padded.digest [7], start_offset := 0, chunk_size := 1 }

theorem grown_evaluates : Evaluation.evaluate StrongHash.padded [7] (Chunker.chunkList StrongHash.padded [7]) grown =
    some (List.replicate 128 0) := by
  have chunk : (Chunker.chunkList StrongHash.padded [7])[0]? = some byteChunk := by decide +kernel
  have rebuilt : Evaluation.rebuild (Evaluation.chunkBytes [7] byteChunk) 128 grown.opcodes =
      some (List.replicate 128 0) := by decide +kernel
  have digest : StrongHash.padded.digest (List.replicate 128 0) = grown.header.digest := padded_digest (by decide)
  have index : grown.header.old_index.toNat = 0 := rfl
  have size : grown.header.out_size.toNat = 128 := rfl
  have type : grown.header.type = .MODIFIED_CHUNK := rfl
  simp only [Evaluation.evaluate, type, index, size, chunk, Option.bind_some, rebuilt, digest, if_true]

/-- What its records evaluate to. -/
def grownOuts : List (List UInt8) :=
  [List.replicate 16360 0, List.replicate 16360 0, List.replicate 16360 0, List.replicate 16360 0, List.replicate 128 0]

theorem grownOuts_flatten : grownOuts.flatten = List.replicate 65568 0 := by
  simp only [grownOuts, List.flatten_cons, List.flatten_nil, List.append_nil, List.replicate_append_replicate]

theorem grownDelta_means : Evaluation.Means StrongHash.padded [7] (Chunker.chunkList StrongHash.padded [7]) grownDelta
    ([filler, filler, filler, filler] ++ [grown]) grownOuts (StrongHash.padded.hash grownOuts.flatten) := by
  constructor
  · rw [grownOuts_flatten, padded_zeros (by decide)]
    exact grownDelta_shape
  · simp only [List.cons_append, List.nil_append, List.mapM_cons, List.mapM_nil, filler_evaluates, grown_evaluates]
    rfl

/-- The delta is applied, when it is read to its end. -/
theorem grownDelta_applied : ∃ stats, (Apply.apply_delta {} RKFinger.rolling StrongHash.padded ⟨"", "old"⟩
    ⟨"", "delta"⟩ ⟨"", "output"⟩ UINT64_MAX byteAndGrown).result = .ok stats := by
  refine means_applied undisturbed_default StrongHash.padded_streams (by decide) ready_byteAndGrown grownDelta_means ?_
  rw [grownOuts_flatten, List.length_replicate]
  decide

/-- What follows the header of the MODIFIED record. -/
def grownRest : List UInt8 := grownRun ++ DELTA_TRAILER_TAG :: List.replicate 64 0

theorem grownRest_length : grownRest.length = 199 := by
  rw [grownRest, grownRun, List.length_append, List.length_append, List.length_cons, List.length_cons, List.length_cons,
    List.length_replicate, List.length_replicate]
  rfl

theorem grownDelta_length : grownDelta.length = 65743 := by
  have filled : fillerBytes.length = 16379 := by
    rw [fillerBytes, List.length_append, List.length_replicate]
    rfl
  have split : grownDelta = DELTA_MAGIC ++ push_u32_be [] DELTA_FORMAT_VERSION ++
      ((fillerBytes ++ (fillerBytes ++ (fillerBytes ++ (fillerBytes ++ [])))) ++ (grownHeader ++ grownRest)) := rfl
  rw [split]
  simp only [List.length_append, filled, grownRest_length, List.length_nil]
  rfl

/-- The I/O error of a delta that breaks off before its first opcode is not reported. -/
theorem grownDelta_is_corrupt :
    (∃ stats, (Apply.apply_delta {} RKFinger.rolling StrongHash.padded ⟨"", "old"⟩ ⟨"", "delta"⟩ ⟨"", "output"⟩ UINT64_MAX
      byteAndGrown).result = .ok stats) ∧ 65544 ≤ grownDelta.length ∧
    (Apply.apply_delta (breaking {} ⟨"", "delta"⟩ 65544 true) RKFinger.rolling StrongHash.padded ⟨"", "old"⟩ ⟨"", "delta"⟩
      ⟨"", "output"⟩ UINT64_MAX byteAndGrown).result = .error ⟨.corrupt_delta, "MODIFIED entry has no diff opcodes"⟩ := by
  refine ⟨grownDelta_applied, by rw [grownDelta_length]; decide, ?_⟩
  obtain ⟨stats, applied⟩ := grownDelta_applied
  have ends : EndsAhead grownDelta 65544 [filler, filler, filler, filler] grown.header
      grownRest := by
    refine ⟨⟨_, _, rfl, fillers_word, grownHeader_word⟩, ?_, by simp, rfl, ?_, rfl⟩
    · intro r member
      obtain rfl : r = filler := by simpa using member
      rfl
    · rw [grownDelta_length, grownRest_length]
  exact cut_delta_is_corrupt ready_byteAndGrown.delta_file rfl (by decide) applied ends rfl

end Roll.Breaking
