import Roll.Evaluation
import Roll.Framing
import Roll.RkFinger
import Roll.Staging

/-!
Output is atomic: at every moment of a run the destination holds what it held
before or the whole of the checked output, and no other file changes.
-/
namespace Roll.Atomic
open Roll.Parsing Roll.Outcome Roll.Cursor Roll.Calm Roll.Committing Roll.Staging Roll.Framing Roll.Evaluation

variable {env : Environment} {α : Type}

/-- A path leads to a file of these bytes. -/
def Shows (fs : FileSystem) (n : Name) (content : List UInt8) : Prop := (fs.held n).2 = some (.bytes content)

/-- The destination holds what it held before or the checked output, and of
    what was there, every other name and every file is as it was. -/
structure Moment (fs₀ : FileSystem) (n : Name) (checked : Option (List UInt8)) (fs : FileSystem) : Prop where
  destination : fs.held n = fs₀.held n ∨ ∃ content, checked = some content ∧ Shows fs n content
  names : ∀ m ≠ n, fs₀.names m ≠ none → fs.names m = fs₀.names m
  data : ∀ i < fs₀.next, fs.data i = fs₀.data i

/-- A run from `s` to `s'` with this result and this checked output is atomic at
    the destination. -/
structure AllOrNothing (env : Environment) (s : System) (destination : Path) (result : Except DeltaError α)
    (checked : Option (List UInt8)) (s' : System) : Prop where
  moments : ∃ new, s'.moments = s.moments ++ new ∧ ∀ fs ∈ new, Moment s.fs (env.locate destination) checked fs
  last : Moment s.fs (env.locate destination) checked s'.fs
  failure : ∀ e, result = .error e → s'.fs.held (env.locate destination) = s.fs.held (env.locate destination)
  success : ∀ a, result = .ok a → ∃ content, checked = some content ∧ Shows s'.fs (env.locate destination) content

section
variable {C : Name → Prop} {fs₀ fs : FileSystem} {n : Name} {checked : Option (List UInt8)}

theorem moment_beside (beside : Beside C fs₀ fs) (avoids : Avoids C fs₀ n) : Moment fs₀ n checked fs :=
  ⟨.inl (held_beside beside avoids), fun m _ => beside.names m, beside.data⟩

variable {s : System} {destination : Path} {t : OutputTransaction} {s' : System}

theorem atomic_untouched (untouched : Untouched s s') {result : Except DeltaError α} (failed : ∀ a, result ≠ .ok a) :
    AllOrNothing env s destination result checked s' := by
  obtain ⟨clock, rfl⟩ := untouched
  refine ⟨⟨[], (List.append_nil _).symm, by simp⟩, ⟨.inl rfl, fun _ _ _ => rfl, fun _ _ => rfl⟩, fun _ _ => rfl, ?_⟩
  intro a ok
  exact absurd ok (failed a)

end

/-! ### The ways a run ends -/

/-- A transaction ends in its destructor: without a commit, whatever was checked,
    or else after the commit of what was. -/
inductive Ends (env : Environment) (C : Name → Prop) (fs₀ : FileSystem) (m₀ : List FileSystem) (destination : Path) :
    Except DeltaError α → Option (List UInt8) → System → Prop
  | aborted {t : OutputTransaction} {s : System} (kept : Kept env C fs₀ m₀ destination (t, s)) (e : DeltaError)
      (checked : Option (List UInt8)) : Ends env C fs₀ m₀ destination (.error e) checked (t.destroy env s)
  | committed {t : OutputTransaction} {s : System} {content : List UInt8}
      (committed : Committed env C fs₀ m₀ destination content (t, s)) (a : α) :
      Ends env C fs₀ m₀ destination (.ok a) (some content) (t.destroy env s)

section
variable {C : Name → Prop} {s : System} {destination : Path} {t : OutputTransaction} {s' : System}
  {checked : Option (List UInt8)}

/-- Without a commit nothing that was there changes. -/
theorem atomic_aborted (avoids : Avoids C s.fs (env.locate destination))
    (kept : Kept env C s.fs s.moments destination (t, s')) (e : DeltaError) :
    AllOrNothing env s destination (.error e : Except DeltaError α) checked (t.destroy env s') := by
  obtain ⟨beside, new, split, all⟩ := destroy_spec kept
  refine ⟨⟨new, split, fun fs member => moment_beside (all fs member) avoids⟩, moment_beside beside avoids,
    fun _ _ => held_beside beside avoids, ?_⟩
  intro a ok
  cases ok

/-- It changes nothing after a commit. -/
theorem atomic_committed {content : List UInt8} (avoids : Avoids C s.fs (env.locate destination))
    (committed : Committed env C s.fs s.moments destination content (t, s')) (a : α) :
    AllOrNothing env s destination (.ok a) (some content) (t.destroy env s') := by
  obtain ⟨⟨i, named, stored⟩, names, data, ⟨new, split, all⟩, released, shut⟩ := committed
  obtain ⟨sameFiles, sameMoments⟩ := destroy_committed env (s := s') released shut
  have shows : Shows s'.fs (env.locate destination) content := by
    have leads : s'.fs.lookup (env.locate destination) = .at (.file i) := lookup_file named
    have stored' : s'.fs.data i = .bytes content := stored
    simp only [Shows, FileSystem.held, leads, stored']
  have here : Moment s.fs (env.locate destination) (some content) s'.fs := ⟨.inr ⟨content, rfl, shows⟩, names, data⟩
  refine ⟨⟨new ++ [s'.fs], ?_, ?_⟩, ?_, ?_, ?_⟩
  · rw [sameMoments, ← List.append_assoc]
    exact split
  · intro fs member
    rcases List.mem_append.mp member with before | last
    · exact moment_beside (all fs before) avoids
    · obtain rfl : fs = s'.fs := by simpa using last
      exact here
  · rw [sameFiles]
    exact here
  · intro e failed
    cases failed
  · intro _ _
    rw [sameFiles]
    exact ⟨content, rfl, shows⟩

theorem ends_atomic (avoids : Avoids C s.fs (env.locate destination)) {result : Except DeltaError α}
    (ends : Ends env C s.fs s.moments destination result checked s') :
    AllOrNothing env s destination result checked s' := by
  cases ends with
  | aborted kept e checked => exact atomic_aborted avoids kept e
  | committed committed a => exact atomic_committed avoids committed a

/-- The moments of a run come after those before it. -/
theorem ends_grows {fs₀ : FileSystem} {m₀ : List FileSystem} {result : Except DeltaError α}
    (ends : Ends env C fs₀ m₀ destination result checked s') : ∃ new, s'.moments = m₀ ++ new := by
  cases ends with
  | aborted kept e checked =>
    obtain ⟨_, new, split, _⟩ := destroy_spec kept
    exact ⟨new, split⟩
  | @committed t s content committed a =>
    obtain ⟨_, _, _, ⟨new, split, _⟩, released, shut⟩ := committed
    obtain ⟨_, same⟩ := destroy_committed env (s := s) released shut
    exact ⟨new ++ [s.fs], by rw [same, ← List.append_assoc]; exact split⟩

end

/-! ### What an attempt shows at the destination -/

section
variable {s : System} {destination : Path} {inputs : List Path} {result : Except DeltaError α}
  {checked : Option (List UInt8)} {s' : System}

/-- A file that is created where the destination leads shows there while nothing
    is in it. -/
theorem creates_shows {C : Name → Prop} {n : Name} (opens : Opens env C s.fs s.moments destination inputs s)
    (creates : Creates env destination inputs s n)
    (breaks : breaksAt s.fs FileSystem.LINK_MAX (env.locate destination) = some n)
    (grows : ∃ more, s'.moments = (after (OutputTransaction.open_ env destination inputs ({}, s))).2.moments ++ more) :
    ¬ AllOrNothing env s destination result checked s' := by
  obtain ⟨new, split, all⟩ := opens_beside opens
  obtain ⟨new', split', fs, member, i, named, writing⟩ := open_exposes creates
  obtain rfl : new = new' := List.append_cancel_left (split.symm.trans split')
  obtain ⟨more, grown⟩ := grows
  have absent : s.fs.held (env.locate destination) = (.missing, none) := by
    have missing : s.fs.lookup (env.locate destination) = .missing := follow_missing s.fs _ _ breaks
    simp only [FileSystem.held, missing]
  have shown : fs.held (env.locate destination) = (.at (.file i), some .writing) := by
    have leads : fs.lookup (env.locate destination) = .at (.file i) :=
      follow_broken (all fs member) named _ _ breaks
    simp only [FileSystem.held, leads, writing]
  rintro ⟨⟨total, splitTotal, moments⟩, _, _, _⟩
  obtain rfl : total = new ++ more :=
    List.append_cancel_left (splitTotal.symm.trans (by rw [grown, split, List.append_assoc]))
  rcases (moments fs (List.mem_append_left _ member)).destination with same | ⟨content, _, shows⟩
  · rw [absent, shown] at same
    cases same
  · rw [Shows, shown] at shows
    cases shows

/-- So a run is atomic where its attempts create nothing there, and only there. -/
theorem opened_atomic_iff (ours : ∀ k < OutputTransaction.ATTEMPTS, Ours env (attempt env s destination k))
    (ends : ∀ C fs₀ m₀, Opens env C fs₀ m₀ destination inputs s → Ends env C fs₀ m₀ destination result checked s') :
    AllOrNothing env s destination result checked s' ↔
      Avoids (Creates env destination inputs s) s.fs (env.locate destination) := by
  have opens : Opens env (Creates env destination inputs s) s.fs s.moments destination inputs s :=
    open_spec (fun k inside _ => ours k inside) inputs
  constructor
  · intro atomic n breaks creates
    exact creates_shows opens creates breaks (ends_grows (ends _ _ _ (opens_after opens))) atomic
  · intro avoids
    exact ends_atomic avoids (ends _ _ _ opens)

end

/-! ### The application -/

section
variable {C : Name → Prop} {fs₀ : FileSystem} {m₀ : List FileSystem} {destination : Path} {content : List UInt8}

/-- The staged file is open, and `content` was stored in it. -/
structure Open (env : Environment) (C : Name → Prop) (fs₀ : FileSystem) (m₀ : List FileSystem) (destination : Path)
    (content : List UInt8) (q : OutputTransaction × System) : Prop where
  live : Live env C fs₀ m₀ destination q
  stores : Stores content q.1.file_

theorem open_write {t : OutputTransaction} {s : System} (here : Open env C fs₀ m₀ destination content (t, s))
    (chunk : List UInt8) :
    Open env C fs₀ m₀ destination (content ++ chunk) ({ t with file_ := (t.file_.write_chunk chunk).2 }, s) := by
  obtain ⟨live, stores⟩ := here
  obtain ⟨stores', _⟩ := write_chunk_stores stores chunk
  exact ⟨live_file live stores'.alone stores'.opened, stores'⟩

theorem open_created {t : OutputTransaction} {s : System} {p : Path} (live : Live env C fs₀ m₀ destination (t, s))
    (created : t.file_ = FileIo.created env p) : Open env C fs₀ m₀ destination [] (t, s) := by
  have alone : Alone t.file_.f_ := live.kept.alone
  rw [created] at alone
  refine ⟨live, ?_⟩
  show Stores [] t.file_
  rw [created]
  exact ⟨rfl, alone, rfl, rfl, Nat.le_refl 0, fun _ => ⟨rfl, rfl, rfl⟩⟩

variable {U : StrongHash}

/-- As long as no write failed, the outputs were stored, hashed and counted. -/
def Delivered (env : Environment) (C : Name → Prop) (fs₀ : FileSystem) (m₀ : List FileSystem) (destination : Path)
    (U : StrongHash) (q : OutputTransaction × System × U.State × ApplyStats) : Prop :=
  ∃ outs : List (List UInt8), Open env C fs₀ m₀ destination outs.flatten (q.1, q.2.1) ∧ (q.1.file_.io_error_ = false →
    q.2.2.1 = outs.foldl U.update U.init ∧
      q.2.2.2 = { entries_processed := outs.length, bytes_written := outs.flatten.length })

/-- A write that succeeds comes after writes that did. -/
theorem wrote_flawless {f : FileIo} {chunk : List UInt8} (done : (f.write_chunk chunk).1 = true) : f.io_error_ = false := by
  cases failed : f.io_error_ with
  | false => rfl
  | true =>
    rw [FileIo.write_chunk, if_pos failed] at done
    cases done

theorem keeps_deliver (max_output_bytes : Nat) (produced : List UInt8) :
    Keeps (fun s => Delivered env C fs₀ m₀ destination U (delivered s)) (Apply.deliver max_output_bytes produced) := by
  rintro s ⟨outs, here, counted⟩
  have wrote := open_write here produced
  have total : (outs ++ [produced]).flatten = outs.flatten ++ produced := by simp
  unfold Leaves
  by_cases large : produced.length > size_sub max_output_bytes s.stats.bytes_written
  · simp only [Apply.deliver, if_pos large]
    exact ⟨outs, here, counted⟩
  · have earlier := @wrote_flawless s.transaction.file_ produced
    have flawless := (write_chunk_stores here.stores produced).2
    simp only [delivered] at wrote flawless
    simp only [Apply.deliver, if_neg large]
    generalize s.transaction.file_.write_chunk produced = r at wrote earlier flawless ⊢
    obtain ⟨done, file⟩ := r
    cases done with
    | true =>
      obtain ⟨hashed, statsIs⟩ := counted (earlier rfl)
      refine ⟨outs ++ [produced], by rw [total]; exact wrote, fun _ => ⟨?_, ?_⟩⟩
      · rw [List.foldl_append]
        exact congrArg (U.update · produced) hashed
      · have entries : s.stats.entries_processed = outs.length := congrArg ApplyStats.entries_processed statsIs
        have bytes : s.stats.bytes_written = outs.flatten.length := congrArg ApplyStats.bytes_written statsIs
        show ({ entries_processed := s.stats.entries_processed + 1,
                bytes_written := s.stats.bytes_written + produced.length } : ApplyStats) = _
        rw [entries, bytes, total, List.length_append, List.length_append]
        rfl
    | false =>
      refine ⟨outs ++ [produced], by rw [total]; exact wrote, fun errorless => ?_⟩
      have failed : false = !file.io_error_ := flawless
      rw [show file.io_error_ = false from errorless] at failed
      cases failed

theorem leaves_reading {m : ReadM α} {code : DeltaReader → DeltaErrc} {s : ApplyState U}
    {good : α → DeltaReader → Prop} (leaves : Leaves m s.reader good (fun _ => True)) :
    Leaves (Apply.reading code m) s (fun a s' => good a s'.reader ∧ s'.whole_file_hash = s.whole_file_hash)
      (fun _ => True) := by
  unfold Leaves at leaves
  unfold Apply.reading Leaves
  dsimp only
  cases run : m s.reader with
  | ok a r =>
    rw [run] at leaves
    exact ⟨leaves, rfl⟩
  | error e r => exact trivial

/-- A trailer that is read is recorded. -/
theorem trailer_recorded (r : DeltaReader) : Leaves DeltaReader.read_trailer r
    (fun digest r' => ∃ n, (n, Decoded.trailer digest) ∈ r'.decoded) (fun _ => True) := by
  unfold DeltaReader.read_trailer
  refine leaves_bind leaves_any (fun _ _ => trivial) (fun tag r _ => ?_)
  refine leaves_bind leaves_any (fun _ _ => trivial) (fun _ r _ => ?_)
  refine leaves_bind leaves_any (fun _ _ => trivial) (fun size r _ => ?_)
  refine leaves_bind leaves_any (fun _ _ => trivial) (fun digest r _ => ?_)
  refine leaves_bind leaves_any (fun _ _ => trivial) (fun next r _ => ?_)
  refine leaves_bind leaves_any (fun _ _ => trivial) (fun _ r _ => ?_)
  refine leaves_bind leaves_any (fun _ _ => trivial) (fun _ r _ => ?_)
  exact ⟨_, List.mem_append_right _ (List.mem_singleton_self _)⟩

/-- The trailer was read, and it is the digest of all that was hashed. -/
def Confirmed (s : ApplyState U) : Prop := ∃ n, (n, Decoded.trailer (U.finalize s.whole_file_hash)) ∈ s.reader.decoded

theorem items_confirmed (fuel : Nat) (chunks : List SignedChunk) (max_output_bytes : Nat) :
    ∀ (left : Nat) (s : ApplyState U), Leaves (Apply.apply_items fuel chunks max_output_bytes left) s
      (fun saw s' => saw = true → Confirmed s') (fun _ => True) := by
  intro left
  induction left with
  | zero =>
    intro s
    exact trivial
  | succ left ih =>
    intro s
    unfold Apply.apply_items
    refine leaves_bind leaves_any (fun _ _ => trivial) (fun item s _ => ?_)
    cases item with
    | End => exact fun impossible => by cases impossible
    | Trailer =>
      refine leaves_bind (leaves_reading (trailer_recorded s.reader)) (fun _ _ => trivial) ?_
      rintro trailer s₁ ⟨⟨n, recorded⟩, _⟩
      have checked : Leaves (Apply.check_trailer trailer) s₁ (fun _ s' => Confirmed s') (fun _ => True) := by
        unfold Apply.check_trailer Leaves
        by_cases same : U.finalize s₁.whole_file_hash = trailer
        · simp only [if_pos same]
          exact ⟨n, by rw [same]; exact recorded⟩
        · simp only [if_neg same]
      exact leaves_bind checked (fun _ _ => trivial) fun _ s' confirmed _ => confirmed
    | Entry =>
      refine leaves_bind leaves_any (fun _ _ => trivial) (fun header s _ => ?_)
      refine leaves_bind leaves_any (fun _ _ => trivial) (fun produced s _ => ?_)
      exact leaves_bind leaves_any (fun _ _ => trivial) fun _ s _ => ih s

theorem reconstruct_confirmed (T : RollingHash) (fuel : Nat) (p : Path) (max_output_bytes : Nat) (s : ApplyState U) :
    Leaves (Apply.reconstruct T fuel p max_output_bytes) s (fun _ s' => Confirmed s') (fun _ => True) := by
  unfold Apply.reconstruct
  refine leaves_bind leaves_any (fun _ _ => trivial) (fun _ s _ => ?_)
  refine leaves_bind leaves_any (fun _ _ => trivial) (fun chunks s _ => ?_)
  refine leaves_bind (items_confirmed fuel chunks max_output_bytes fuel s) (fun _ _ => trivial) (fun saw s confirmed => ?_)
  have finished : Leaves (DeltaReader.finish saw) s.reader (fun _ r => saw = true ∧ r = s.reader) (fun _ => True) := by
    cases errored : s.reader.io_error with
    | true =>
      have first : DeltaReader.fail_if_error "Failed to read delta" s.reader = .error "Failed to read delta" s.reader := by
        simp only [DeltaReader.fail_if_error, errored, if_true]
      rw [Leaves, DeltaReader.finish, bind_error first]
      trivial
    | false =>
      have first : DeltaReader.fail_if_error "Failed to read delta" s.reader = .ok () s.reader := by
        simp only [DeltaReader.fail_if_error, errored, Bool.false_eq_true, if_false]
      rw [Leaves, DeltaReader.finish, bind_ok first]
      cases saw with
      | true => exact ⟨rfl, rfl⟩
      | false => trivial
  refine leaves_bind (leaves_reading finished) (fun _ _ => trivial) ?_
  rintro _ s₁ ⟨⟨saw', same⟩, hashed⟩
  obtain ⟨n, recorded⟩ := confirmed saw'
  have here : Confirmed s₁ := ⟨n, by rw [hashed, same]; exact recorded⟩
  unfold Apply.close_inputs Leaves
  dsimp only
  rcases s₁.old_file.close with ⟨_ | _, file⟩
  · trivial
  · rcases s₁.reader.in_.close with ⟨_ | _, delta⟩
    · trivial
    · exact here

theorem leaves_staging {m : OutputM α} {s : ApplyState U} {good : α → OutputTransaction × System → Prop}
    {left : OutputTransaction × System → Prop} (leaves : Leaves m (s.transaction, s.system) good left) :
    Leaves (Apply.staging m) s (fun a s' => good a (s'.transaction, s'.system) ∧
        s'.whole_file_hash = s.whole_file_hash ∧ s'.stats = s.stats ∧ s'.reader = s.reader)
      (fun s' => left (s'.transaction, s'.system)) := by
  unfold Leaves at leaves
  unfold Apply.staging Leaves
  dsimp only
  cases run : m (s.transaction, s.system) with
  | ok a q =>
    rw [run] at leaves
    exact ⟨leaves, rfl, rfl, rfl⟩
  | error e q =>
    rw [run] at leaves
    exact leaves

/-- The outputs that a successful application wrote, hashed and counted. -/
def Applied (U : StrongHash) (run : ApplyRun) (outs : List (List UInt8)) : Prop :=
  run.checked = some outs.flatten ∧
    run.result = .ok { entries_processed := outs.length, bytes_written := outs.flatten.length } ∧
    ∃ n, (n, Decoded.trailer (streamed U outs)) ∈ run.reader.decoded

theorem apply_opened_ends {s : System} {output old delta : Path} (opens : Opens env C fs₀ m₀ output [old, delta] s)
    (T : RollingHash) (fuel max_output_bytes : Nat) (old_file : FileIo) (reader : DeltaReader) :
    let run := Apply.apply_opened env T fuel old delta output max_output_bytes
      ({ old_file, reader, transaction := {}, system := s, whole_file_hash := U.init } : ApplyState U)
    Ends env C fs₀ m₀ output run.result run.checked run.system ∧
      ∀ stats, run.result = .ok stats → ∃ outs, Applied U run outs := by
  intro run
  set a : ApplyState U := { old_file, reader, transaction := {}, system := s, whole_file_hash := U.init } with aIs
  have opened := leaves_staging (s := a) opens
  have runIs : run = Apply.apply_opened env T fuel old delta output max_output_bytes a := rfl
  unfold Apply.apply_opened at runIs
  cases first : Apply.staging (OutputTransaction.open_ env output [old, delta]) a with
  | error e a₁ =>
    rw [first] at runIs
    rw [runIs]
    refine ⟨.aborted (opened.of_error first) e none, ?_⟩
    intro _ impossible
    cases impossible
  | ok _ a₁ =>
    rw [first] at runIs
    obtain ⟨⟨live, p, _, created⟩, hashed, counted, _⟩ := opened.of_ok first
    have begun : Delivered env C fs₀ m₀ output U (delivered a₁) :=
      ⟨[], open_created live created, fun _ => ⟨hashed, counted⟩⟩
    have body := keeps_reconstruct (fun produced => keeps_deliver max_output_bytes produced) T fuel old a₁ begun
    have confirms := reconstruct_confirmed T fuel old max_output_bytes a₁
    dsimp only at runIs
    cases second : Apply.reconstruct T fuel old max_output_bytes a₁ with
    | error e a₂ =>
      rw [second] at runIs
      obtain ⟨outs, ⟨live₂, _⟩, _⟩ := body.of_error second
      rw [runIs]
      refine ⟨.aborted live₂.kept e none, ?_⟩
      intro _ impossible
      cases impossible
    | ok _ a₂ =>
      rw [second] at runIs
      obtain ⟨outs, ⟨live₂, stores⟩, sound⟩ := body.of_ok second
      obtain ⟨n, recorded⟩ := confirms.of_ok second
      dsimp only at runIs
      have commits := leaves_staging (s := a₂) (commit_spec live₂)
      cases third : Apply.staging (OutputTransaction.commit env) a₂ with
      | error e a₃ =>
        rw [third] at runIs
        rw [runIs]
        refine ⟨.aborted (commits.of_error third) e _, ?_⟩
        intro _ impossible
        cases impossible
      | ok _ a₃ =>
        rw [third] at runIs
        obtain ⟨⟨committed, flawless⟩, _, statsKept, readerKept⟩ := commits.of_ok third
        refine ⟨?_, ?_⟩
        · rw [runIs]
          exact .committed committed _
        · intro stats _
          obtain ⟨hashIs, statsIs⟩ := sound flawless
          have content : a₂.transaction.file_.f_.data = outs.flatten := (stores.stored flawless).1
          have hashIs' : a₂.whole_file_hash = outs.foldl U.update U.init := hashIs
          refine ⟨outs, ?_, ?_, n, ?_⟩
          · rw [runIs]
            exact congrArg some content
          · rw [runIs]
            exact congrArg Except.ok (statsKept.trans statsIs)
          · rw [runIs]
            show _ ∈ a₃.reader.decoded
            rw [readerKept, streamed, ← hashIs']
            exact recorded

end

/-! ### The generation -/

section
variable {C : Name → Prop} {fs₀ : FileSystem} {m₀ : List FileSystem} {destination : Path}

/-- As long as no write failed, all that was written was counted. -/
def Counted (env : Environment) (C : Name → Prop) (fs₀ : FileSystem) (m₀ : List FileSystem) (destination : Path)
    (q : OutputTransaction × System × Nat) : Prop :=
  ∃ content, Open env C fs₀ m₀ destination content (q.1, q.2.1) ∧
    (q.1.file_.io_error_ = false → q.2.2 = content.length)

theorem keeps_emit (bytes : List UInt8) (what : String) :
    Keeps (fun s => Counted env C fs₀ m₀ destination (written s)) (Delta.writing (DeltaWriter.emit bytes what)) := by
  rintro s ⟨content, here, counted⟩
  have wrote := open_write here bytes
  have earlier := @wrote_flawless s.transaction.file_ bytes
  have flawless := (write_chunk_stores here.stores bytes).2
  simp only [written] at wrote flawless
  unfold Leaves
  simp only [Delta.writing, DeltaWriter.emit]
  generalize s.transaction.file_.write_chunk bytes = r at wrote earlier flawless ⊢
  obtain ⟨done, file⟩ := r
  cases done with
  | true =>
    refine ⟨content ++ bytes, wrote, fun _ => ?_⟩
    have before : s.bytes_written = content.length := counted (earlier rfl)
    show s.bytes_written + bytes.length = _
    rw [before, List.length_append]
  | false =>
    refine ⟨content ++ bytes, wrote, fun errorless => ?_⟩
    have failed : false = !file.io_error_ := flawless
    rw [show file.io_error_ = false from errorless] at failed
    cases failed

theorem leaves_output {m : OutputM α} {s : GenerateState} {good : α → OutputTransaction × System → Prop}
    {left : OutputTransaction × System → Prop} (leaves : Leaves m (s.transaction, s.system) good left) :
    Leaves (Delta.staging m) s (fun a s' => good a (s'.transaction, s'.system) ∧ s'.bytes_written = s.bytes_written)
      (fun s' => left (s'.transaction, s'.system)) := by
  unfold Leaves at leaves
  unfold Delta.staging Leaves
  dsimp only
  cases run : m (s.transaction, s.system) with
  | ok a q =>
    rw [run] at leaves
    exact ⟨leaves, rfl⟩
  | error e q =>
    rw [run] at leaves
    exact leaves

theorem generate_opened_ends {s : System} {delta_file oldfile file_to_check : Path}
    (opens : Opens env C fs₀ m₀ delta_file [oldfile, file_to_check] s) (U : StrongHash) (original newfile : Signature)
    (old file : FileIo) :
    let run := Delta.generate_opened env U original newfile oldfile file_to_check delta_file
      { old, file, transaction := {}, system := s }
    Ends env C fs₀ m₀ delta_file run.result run.checked run.system ∧
      ∀ stats, run.result = .ok stats → ∃ content, run.checked = some content ∧ stats.bytes_written = content.length := by
  intro run
  set a : GenerateState := { old, file, transaction := {}, system := s } with aIs
  have opened := leaves_output (s := a) opens
  have runIs : run = Delta.generate_opened env U original newfile oldfile file_to_check delta_file a := rfl
  unfold Delta.generate_opened at runIs
  cases first : Delta.staging (OutputTransaction.open_ env delta_file [oldfile, file_to_check]) a with
  | error e a₁ =>
    rw [first] at runIs
    rw [runIs]
    refine ⟨.aborted (opened.of_error first) e none, ?_⟩
    intro _ impossible
    cases impossible
  | ok _ a₁ =>
    rw [first] at runIs
    obtain ⟨⟨live, p, _, created⟩, counted⟩ := opened.of_ok first
    have begun : Counted env C fs₀ m₀ delta_file (written a₁) :=
      ⟨[], open_created live created, fun _ => counted⟩
    have body := keeps_build keeps_emit U original newfile a₁ begun
    dsimp only at runIs
    cases second : Delta.build U original newfile a₁ with
    | error e a₂ =>
      rw [second] at runIs
      obtain ⟨content, ⟨live₂, _⟩, _⟩ := body.of_error second
      rw [runIs]
      refine ⟨.aborted live₂.kept e none, ?_⟩
      intro _ impossible
      cases impossible
    | ok _ a₂ =>
      rw [second] at runIs
      obtain ⟨content, ⟨live₂, stores⟩, sound⟩ := body.of_ok second
      dsimp only at runIs
      have commits := leaves_output (s := a₂) (commit_spec live₂)
      cases third : Delta.staging (OutputTransaction.commit env) a₂ with
      | error e a₃ =>
        rw [third] at runIs
        rw [runIs]
        refine ⟨.aborted (commits.of_error third) e _, ?_⟩
        intro _ impossible
        cases impossible
      | ok _ a₃ =>
        rw [third] at runIs
        obtain ⟨⟨committed, flawless⟩, bytesKept⟩ := commits.of_ok third
        refine ⟨?_, ?_⟩
        · rw [runIs]
          exact .committed committed _
        · intro stats ok
          have stored : a₂.transaction.file_.f_.data = content := (stores.stored flawless).1
          rw [runIs] at ok
          obtain rfl := Except.ok.inj ok
          refine ⟨content, ?_, ?_⟩
          · rw [runIs]
            exact congrArg some stored
          · exact bytesKept.trans (sound flawless)

end

/-! ### The runs -/

/-- A run with these inputs creates a staged file at `n`: it opens both inputs, and
    an attempt that it then makes finds the name absent and does not fail. -/
def RunCreates (env : Environment) (s : System) (first second output : Path) (n : Name) : Prop :=
  ∃ file s₁ file' s₂, FileIo.open_in env first s = (true, file, s₁) ∧ FileIo.open_in env second s₁ = (true, file', s₂) ∧
    Creates env output [first, second] s₂ n

section
variable {s : System} {first second output : Path}

/-- The missing name behind a destination is not such as staged files have. -/
def Unlike (env : Environment) (s : System) (destination : Path) : Prop :=
  ∀ a b c, breaksAt s.fs FileSystem.LINK_MAX (env.locate destination) ≠
    some (env.locate (OutputTransaction.candidate destination a b c))

theorem unlike_undotted (undotted : ∀ m, breaksAt s.fs FileSystem.LINK_MAX (env.locate output) = some m →
    m.2.toList.head? ≠ some '.') : Unlike env s output := by
  intro a b c breaks
  refine undotted _ breaks ?_
  simp [Environment.locate, OutputTransaction.candidate, String.toList_append]

/-- No file is created at a name that is unlike. -/
theorem avoids_unlike (unlike : Unlike env s output) :
    Avoids (RunCreates env s first second output) s.fs (env.locate output) := by
  rintro n breaks ⟨_, _, _, _, _, _, creates⟩
  obtain ⟨a, b, c, rfl⟩ := creates_named creates
  exact unlike a b c breaks

variable {result : Except DeltaError α} {checked : Option (List UInt8)} {s' : System}

/-- A run that does not open its inputs creates nothing. -/
theorem unopened_atomic_iff (untouched : Untouched s s') (failed : ∀ a, result ≠ .ok a)
    (nothing : ∀ n, ¬ RunCreates env s first second output n) :
    AllOrNothing env s output result checked s' ↔
      Avoids (RunCreates env s first second output) s.fs (env.locate output) :=
  ⟨fun _ n _ => nothing n, fun _ => atomic_untouched untouched failed⟩

/-- One that opens them creates what its transaction does. -/
theorem inputs_atomic_iff (ours : ∀ k < OutputTransaction.ATTEMPTS, Ours env (attempt env s output k))
    {file file' : FileIo} {s₁ : System} {clock : Nat} (opened : FileIo.open_in env first s = (true, file, s₁))
    (opened' : FileIo.open_in env second s₁ = (true, file', later s clock))
    (ends : ∀ C fs₀ m₀, Opens env C fs₀ m₀ output [first, second] (later s clock) →
      Ends env C fs₀ m₀ output result checked s') :
    AllOrNothing env s output result checked s' ↔
      Avoids (RunCreates env s first second output) s.fs (env.locate output) := by
  have same : ∀ n, RunCreates env s first second output n ↔ Creates env output [first, second] (later s clock) n := by
    intro n
    constructor
    · rintro ⟨_, _, _, _, ran, ran', creates⟩
      rw [opened] at ran
      cases ran
      rw [opened'] at ran'
      cases ran'
      exact creates
    · intro creates
      exact ⟨_, _, _, _, opened, opened', creates⟩
  have earlier : AllOrNothing env s output result checked s' ↔ AllOrNothing env (later s clock) output result checked s' := by
    constructor
    · rintro ⟨moments, last, failure, success⟩
      exact ⟨moments, last, failure, success⟩
    · rintro ⟨moments, last, failure, success⟩
      exact ⟨moments, last, failure, success⟩
  rw [earlier, opened_atomic_iff (s := later s clock) ours ends]
  exact forall_congr' fun n => imp_congr_right fun _ => not_congr (same n).symm

end

section
variable {s : System} {output : Path} (ours : ∀ k < OutputTransaction.ATTEMPTS, Ours env (attempt env s output k))
include ours

theorem apply_delta_atomic (T : RollingHash) (U : StrongHash) (old delta : Path) (limit : Nat) :
    let run := Apply.apply_delta env T U old delta output limit s
    (AllOrNothing env s output run.result run.checked run.system ↔
        Avoids (RunCreates env s old delta output) s.fs (env.locate output)) ∧
      ∀ stats, run.result = .ok stats → ∃ outs, Applied U run outs := by
  intro run
  have runIs : run = Apply.apply_delta env T U old delta output limit s := rfl
  have untouched := open_in_untouched env old s
  unfold Apply.apply_delta at runIs
  generalize opened : FileIo.open_in env old s = r at runIs untouched
  obtain ⟨success, old_file, s₁⟩ := r
  cases success with
  | false =>
    rw [runIs]
    refine ⟨unopened_atomic_iff untouched (by simp) ?_, by simp⟩
    rintro n ⟨_, _, _, _, ran, _⟩
    rw [opened] at ran
    cases ran
  | true =>
    have untouched' := Untouched.trans untouched (open_in_untouched env delta s₁)
    dsimp only at runIs
    generalize opened' : FileIo.open_in env delta s₁ = r at runIs untouched'
    obtain ⟨success, delta_file, s₂⟩ := r
    cases success with
    | false =>
      rw [runIs]
      refine ⟨unopened_atomic_iff untouched' (by simp) ?_, by simp⟩
      rintro n ⟨_, _, _, _, ran, ran', _⟩
      rw [opened] at ran
      cases ran
      rw [opened'] at ran'
      cases ran'
    | true =>
      obtain ⟨clock, rfl⟩ := untouched'
      have ends := fun C fs₀ m₀ (opens : Opens env C fs₀ m₀ output [old, delta] (later s clock)) =>
        apply_opened_ends (U := U) opens T (delta_file.f_.reach + 1) limit old_file (Apply.reader U delta_file)
      rw [runIs]
      exact ⟨inputs_atomic_iff ours opened opened' fun C fs₀ m₀ opens => (ends C fs₀ m₀ opens).1,
        (ends _ _ _ (open_spec (s := later s clock) (fun k inside _ => ours k inside) _)).2⟩

theorem generate_delta_atomic (U : StrongHash) (original newfile : Signature) (oldfile file_to_check : Path) :
    let run := Delta.generate_delta env U original newfile oldfile file_to_check output s
    (AllOrNothing env s output run.result run.checked run.system ↔
        Avoids (RunCreates env s oldfile file_to_check output) s.fs (env.locate output)) ∧
      ∀ stats, run.result = .ok stats → ∃ content, run.checked = some content ∧ stats.bytes_written = content.length := by
  intro run
  have runIs : run = Delta.generate_delta env U original newfile oldfile file_to_check output s := rfl
  have untouched := open_in_untouched env oldfile s
  unfold Delta.generate_delta at runIs
  generalize opened : FileIo.open_in env oldfile s = r at runIs untouched
  obtain ⟨success, old, s₁⟩ := r
  cases success with
  | false =>
    rw [runIs]
    refine ⟨unopened_atomic_iff untouched (by simp) ?_, by simp⟩
    rintro n ⟨_, _, _, _, ran, _⟩
    rw [opened] at ran
    cases ran
  | true =>
    have untouched' := Untouched.trans untouched (open_in_untouched env file_to_check s₁)
    dsimp only at runIs
    generalize opened' : FileIo.open_in env file_to_check s₁ = r at runIs untouched'
    obtain ⟨success, file, s₂⟩ := r
    cases success with
    | false =>
      rw [runIs]
      refine ⟨unopened_atomic_iff untouched' (by simp) ?_, by simp⟩
      rintro n ⟨_, _, _, _, ran, ran', _⟩
      rw [opened] at ran
      cases ran
      rw [opened'] at ran'
      cases ran'
    | true =>
      obtain ⟨clock, rfl⟩ := untouched'
      have ends := fun C fs₀ m₀ (opens : Opens env C fs₀ m₀ output [oldfile, file_to_check] (later s clock)) =>
        generate_opened_ends opens U original newfile old file
      rw [runIs]
      exact ⟨inputs_atomic_iff ours opened opened' fun C fs₀ m₀ opens => (ends C fs₀ m₀ opens).1,
        (ends _ _ _ (open_spec (s := later s clock) (fun k inside _ => ours k inside) _)).2⟩

end

/-- Where nobody else writes to the staged files, a generation or an application is
    atomic, whichever system calls fail, exactly when no attempt that it makes
    creates its file at the missing name behind its destination. A success
    delivers all that was written: by a generation as many bytes as it counted, by
    an application the outputs that its trailer confirms. -/
theorem output_is_atomic (env : Environment) (s : System) (output : Path)
    (ours : ∀ k < OutputTransaction.ATTEMPTS, Ours env (attempt env s output k)) :
    (∀ (U : StrongHash) (original newfile : Signature) (oldfile file_to_check : Path),
      let run := Delta.generate_delta env U original newfile oldfile file_to_check output s
      (AllOrNothing env s output run.result run.checked run.system ↔
          Avoids (RunCreates env s oldfile file_to_check output) s.fs (env.locate output)) ∧
        ∀ stats, run.result = .ok stats →
          ∃ content, run.checked = some content ∧ stats.bytes_written = content.length) ∧
    ∀ (T : RollingHash) (U : StrongHash) (old delta : Path) (max_output_bytes : Nat),
      let run := Apply.apply_delta env T U old delta output max_output_bytes s
      (AllOrNothing env s output run.result run.checked run.system ↔
          Avoids (RunCreates env s old delta output) s.fs (env.locate output)) ∧
        ∀ stats, run.result = .ok stats → ∃ outs, Applied U run outs :=
  ⟨generate_delta_atomic ours, apply_delta_atomic ours⟩

/-- Two files of one byte. -/
def oldAndNew : System := { fs := .holding [((0, "old"), [7]), ((0, "new"), [8])] }

/-- The signature of a file of one byte. -/
def byteSignature (b : UInt8) : Signature :=
  { chunks := [{ signature := b.toUInt64, hash := StrongHash.padded.digest [b], start_offset := 0, chunk_size := 1 }] }

/-- `output_is_atomic` for a delta that is generated in the directory of the files. -/
theorem output_is_atomic_fresh :
    let run := Delta.generate_delta {} .padded (byteSignature 7) (byteSignature 8) ⟨"", "old"⟩ ⟨"", "new"⟩ ⟨"", "out"⟩ oldAndNew
    run.result = .ok { chunks_processed := 1, bytes_written := 92 } ∧
      AllOrNothing {} oldAndNew ⟨"", "out"⟩ run.result run.checked run.system := by
  have elsewhere : Avoids (RunCreates {} oldAndNew ⟨"", "old"⟩ ⟨"", "new"⟩ ⟨"", "out"⟩) oldAndNew.fs (0, "out") := by
    refine avoids_unlike (unlike_undotted fun m breaks => ?_)
    have free : breaksAt oldAndNew.fs FileSystem.LINK_MAX (0, "out") = some (0, "out") := by decide
    obtain rfl : (0, "out") = m := Option.some.inj (free.symm.trans breaks)
    decide
  have atomic := ((output_is_atomic {} oldAndNew ⟨"", "out"⟩ (fun k _ e member => by cases member)).1 .padded
    (byteSignature 7) (byteSignature 8) ⟨"", "old"⟩ ⟨"", "new"⟩).1.mpr elsewhere
  exact ⟨by decide +kernel, atomic⟩

/-- An old file and an empty delta. -/
def oldAndEmpty : System := { fs := .holding [((0, "old"), []), ((0, "delta"), [])] }

/-- A device that always yields the same value. -/
def constantDevice : Environment := { random := fun _ => 7 }

/-- An output with the name that is tried first shows while it is written: nothing
    passed the checks, but at some moment there is a file. -/
theorem staged_at_destination : ¬ AllOrNothing constantDevice oldAndEmpty ⟨"", ".rolling_hash-7-7-0"⟩
    (Apply.apply_delta constantDevice RKFinger.rolling .padded ⟨"", "old"⟩ ⟨"", "delta"⟩ ⟨"", ".rolling_hash-7-7-0"⟩
      UINT64_MAX oldAndEmpty).result
    (Apply.apply_delta constantDevice RKFinger.rolling .padded ⟨"", "old"⟩ ⟨"", "delta"⟩ ⟨"", ".rolling_hash-7-7-0"⟩
      UINT64_MAX oldAndEmpty).checked
    (Apply.apply_delta constantDevice RKFinger.rolling .padded ⟨"", "old"⟩ ⟨"", "delta"⟩ ⟨"", ".rolling_hash-7-7-0"⟩
      UINT64_MAX oldAndEmpty).system := by
  set run := Apply.apply_delta constantDevice RKFinger.rolling .padded ⟨"", "old"⟩ ⟨"", "delta"⟩
    ⟨"", ".rolling_hash-7-7-0"⟩ UINT64_MAX oldAndEmpty with runIs
  have unchecked : run.checked = none := by
    rw [runIs]
    decide +kernel
  have shown : (run.system.moments.map fun fs => (fs.held (0, ".rolling_hash-7-7-0")).2) =
      [some .writing, some .writing, some (.bytes []), none] := by
    rw [runIs]
    decide +kernel
  have before : (oldAndEmpty.fs.held (0, ".rolling_hash-7-7-0")).2 = none := by decide
  rintro ⟨⟨new, split, moments⟩, _, _, _⟩
  rw [show oldAndEmpty.moments = [] from rfl, List.nil_append] at split
  rw [split] at shown
  obtain ⟨fs, member, writing⟩ : ∃ fs ∈ new, (fs.held (0, ".rolling_hash-7-7-0")).2 = some .writing := by
    have first : some FileData.writing ∈ new.map fun fs => (fs.held (0, ".rolling_hash-7-7-0")).2 := by
      rw [shown]
      exact List.mem_cons_self
    exact List.mem_map.mp first
  rcases (moments fs member).destination with same | ⟨content, checked, _⟩
  · have same' := congrArg Prod.snd same
    rw [show constantDevice.locate ⟨"", ".rolling_hash-7-7-0"⟩ = (0, ".rolling_hash-7-7-0") from rfl, writing,
      before] at same'
    cases same'
  · rw [unchecked] at checked
    cases checked

end Roll.Atomic
