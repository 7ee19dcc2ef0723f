import Roll.Failing
import Roll.Limiting
import Roll.Lockstep
import Roll.Selecting

/-!
What an application vouches for. Whatever the old file is and whatever fails,
an output that was put in place has the hash in the trailer of its delta; so a
delta that was generated for a file yields this file, or a collision.
-/
namespace Roll.Certifying
open Roll.Parsing Roll.Outcome Roll.Reading Roll.Grammar Roll.Evaluation Roll.Committing Roll.Staging Roll.Atomic
  Roll.Framing Roll.Lockstep Roll.Failing

section
variable {α : Type} {U : StrongHash} {T : RollingHash} {p : Path} {content : List UInt8} {n N limit : Nat} {faulty : Bool}
  {s s' : ApplyState U}

/-! ### The trailer -/

theorem reading_kept {code : DeltaReader → DeltaErrc} {v : ReadM α} {a : α} (run : Apply.reading code v s = .ok a s') :
    v s.reader = .ok a s'.reader ∧ s' = { s with reader := s'.reader } := by
  unfold Apply.reading at run
  cases ran : v s.reader with
  | error e r =>
    rw [ran] at run
    cases run
  | ok b r =>
    rw [ran] at run
    obtain ⟨rfl, rfl⟩ := EStateM.Result.ok.inj run
    exact ⟨rfl, rfl⟩

/-- A method that succeeded has read what its parser reads, unless the reader has
    failed; and then the reader stays so. -/
theorem sim_success {v : ReadM α} {q : Parser UInt8 α} {a : α} {r r' : DeltaReader} (sim : Simulates (source content n) v q)
    (run : v r = .ok a r') : ((source content n).failed r → (source content n).failed r') ∧
      ∀ {rest : List UInt8} {faulty : Bool}, (source content n).feeds r rest faulty → (source content n).failed r' ∨
        ∃ rest', q rest = some (a, rest') ∧ (source content n).feeds r' rest' faulty := by
  constructor
  · intro failed
    have sticky := sim.sticky r failed
    rwa [run] at sticky
  · intro rest faulty feeds
    have step := sim.step r rest faulty feeds
    rw [run] at step
    exact step.imp_left (·.2)

/-- An entry that was produced has been read as a record. -/
theorem produce_success {chunks : List SignedChunk} {header : DeltaEntryHeader} {out : List UInt8}
    (run : Apply.produce N chunks header s = .ok out s') :
    ((source content n).failed s.reader → (source content n).failed s'.reader) ∧
      ∀ {rest : List UInt8} {faulty : Bool}, (source content n).feeds s.reader rest faulty →
        (source content n).failed s'.reader ∨
          ∃ r rest', recordBody N header rest = some (r, rest') ∧ (source content n).feeds s'.reader rest' faulty := by
  have follows := follows_produce (p := ⟨"", ""⟩) N chunks header s
  rw [run] at follows
  obtain ⟨_, viewed, _⟩ := follows
  obtain ⟨sticky, read⟩ := sim_success (Viewing.view_chunk_sim N header) viewed
  refine ⟨sticky, ?_⟩
  intro rest faulty feeds
  refine (read feeds).imp_right ?_
  rintro ⟨rest', parsed, feeds'⟩
  rw [bind_run] at parsed
  obtain ⟨⟨r, m⟩, body, ends⟩ := Option.bind_eq_some_iff.mp parsed
  obtain rfl : m = rest' := by simpa [pure_run] using ends
  exact ⟨r, m, body, feeds'⟩

theorem items_sticky {chunks : List SignedChunk} {left : Nat} {saw : Bool}
    (run : Apply.apply_items N chunks limit left s = .ok saw s') (failed : (source content n).failed s.reader) :
    (source content n).failed s'.reader := by
  have follows := follows_items (p := ⟨"", ""⟩) N chunks limit left 0 s
  rw [run] at follows
  obtain ⟨_, viewed, _⟩ := follows
  have sticky := (Viewing.view_items_sim N left 0).sticky s.reader failed
  rwa [viewed] at sticky

/-- What was delivered is hashed and counted, and nothing was read. -/
theorem deliver_success {produced : List UInt8} {a : Unit} (run : Apply.deliver limit produced s = .ok a s') :
    s'.reader = s.reader ∧ s'.stats.entries_processed = s.stats.entries_processed + 1 := by
  unfold Apply.deliver at run
  split at run
  · cases run
  · split at run
    · cases run
    · obtain ⟨_, rfl⟩ := EStateM.Result.ok.inj run
      exact ⟨rfl, rfl⟩

theorem check_trailer_success {trailer : List UInt8} {a : Unit} (run : Apply.check_trailer trailer s = .ok a s') :
    s' = s ∧ U.finalize s.whole_file_hash = trailer := by
  unfold Apply.check_trailer at run
  split at run
  · next same =>
    obtain ⟨_, rfl⟩ := EStateM.Result.ok.inj run
    exact ⟨rfl, same⟩
  · cases run

/-- The loop ends at a trailer that is the hash of all that it delivered, with one
    delivery for each record before it. -/
theorem items_certified {chunks : List SignedChunk} : ∀ (left : Nat) (s : ApplyState U) (rest : List UInt8) (faulty : Bool),
    (source content n).feeds s.reader rest faulty → Apply.apply_items N chunks limit left s = .ok true s' →
    (source content n).failed s'.reader ∨ ∃ records t,
      items N n left rest = some ((records, some (U.finalize s'.whole_file_hash)), t) ∧
        s'.stats.entries_processed = s.stats.entries_processed + records.length := by
  intro left
  induction left with
  | zero =>
    intro s rest faulty _ run
    cases run
  | succ left ih =>
    intro s rest faulty feeds run
    unfold Apply.apply_items at run
    obtain ⟨item, s₁, first, run⟩ := bind_success run
    obtain ⟨item_read, kept₁⟩ := reading_kept first
    have found := (sim_success next_item_sim item_read).2 feeds
    cases item with
    | End => cases run
    | Trailer =>
      obtain ⟨trailer, s₂, second, run⟩ := bind_success run
      obtain ⟨_, s₃, third, run⟩ := bind_success run
      obtain ⟨_, rfl⟩ := EStateM.Result.ok.inj run
      obtain ⟨trailer_read, kept₂⟩ := reading_kept second
      obtain ⟨rfl, same⟩ := check_trailer_success third
      obtain ⟨sticky, read⟩ := sim_success read_trailer_sim trailer_read
      rcases found with failed | ⟨_, parsed, feeds₁⟩
      · exact .inl (sticky failed)
      obtain ⟨announced, rfl⟩ : itemOf rest.head? = .Trailer ∧ rest = _ := by simpa [peek, bind_run, pure_run] using parsed
      refine (read feeds₁).imp_right ?_
      rintro ⟨t, taken, _⟩
      have tag : rest.head? = some DELTA_TRAILER_TAG := by
        have split := (trailer_run n rest trailer t).mp taken
        rw [split.1]
        rfl
      refine ⟨[], t, (items_trailer tag).mpr ⟨trailer, taken, rfl, by rw [same]⟩, ?_⟩
      rw [kept₂, kept₁]
      rfl
    | Entry =>
      obtain ⟨header, s₂, second, run⟩ := bind_success run
      obtain ⟨produced, s₃, third, run⟩ := bind_success run
      obtain ⟨_, s₄, fourth, run⟩ := bind_success run
      obtain ⟨header_read, kept₂⟩ := reading_kept second
      obtain ⟨sticky₂, read₂⟩ := sim_success read_entry_header_sim header_read
      obtain ⟨sticky₃, read₃⟩ := produce_success third
      obtain ⟨reader₄, counted⟩ := deliver_success fourth
      have last : (source content n).failed s₃.reader → (source content n).failed s'.reader := by
        rw [← reader₄]
        exact items_sticky run
      rcases found with failed | ⟨_, parsed, feeds₁⟩
      · exact .inl (last (sticky₃ (sticky₂ failed)))
      obtain ⟨announced, rfl⟩ : itemOf rest.head? = .Entry ∧ rest = _ := by simpa [peek, bind_run, pure_run] using parsed
      rcases read₂ feeds₁ with failed | ⟨rest₂, taken, feeds₂⟩
      · exact .inl (last (sticky₃ failed))
      rcases read₃ feeds₂ with failed | ⟨r, rest₃, body, feeds₃⟩
      · exact .inl (last failed)
      rw [← reader₄] at feeds₃
      refine (ih s₄ rest₃ faulty feeds₃ run).imp_right ?_
      rintro ⟨records, t, more, count⟩
      obtain ⟨byte, tag, other⟩ : ∃ byte, rest.head? = some byte ∧ byte ≠ DELTA_TRAILER_TAG := by
        cases next : rest.head? with
        | none => simp [next, itemOf] at announced
        | some byte => exact ⟨byte, rfl, fun same => by simp [next, itemOf, same] at announced⟩
      have whole : record N rest = some (r, rest₃) := by
        rw [record, bind_run, taken]
        exact body
      refine ⟨r :: records, t, (items_record tag other).mpr ⟨r, rest₃, records, whole, more, rfl⟩, ?_⟩
      have produced : s₃.stats = s₂.stats := congrArg (fun d => d.2.2.2) ((frames_produce N chunks header).of_ok third)
      have begun : s₂.stats = s.stats := by rw [kept₂, kept₁]
      rw [count, counted, produced, begun, List.length_cons]
      omega

theorem finish_success {saw : Bool} {r r' : DeltaReader} {a : Unit} (run : DeltaReader.finish saw r = .ok a r') :
    saw = true ∧ r' = r ∧ r.io_error = false := by
  cases alive : r.io_error with
  | true =>
    have first : DeltaReader.fail_if_error "Failed to read delta" r = .error "Failed to read delta" r := by
      simp only [DeltaReader.fail_if_error, alive, if_true]
    rw [DeltaReader.finish, bind_error first] at run
    cases run
  | false =>
    have first : DeltaReader.fail_if_error "Failed to read delta" r = .ok () r := by
      simp only [DeltaReader.fail_if_error, alive, Bool.false_eq_true, if_false]
    rw [DeltaReader.finish, bind_ok first] at run
    cases saw with
    | false => cases run
    | true =>
      obtain ⟨_, rfl⟩ := EStateM.Result.ok.inj run
      exact ⟨rfl, rfl, rfl⟩

/-- What was reconstructed has the hash of a delta's trailer. -/
theorem reconstruct_certified {a : Unit} (feeds : (source content n).feeds s.reader content faulty) (short : content.length < N)
    (run : Apply.reconstruct T N p limit s = .ok a s') : ∃ records,
      IsDelta n records (U.finalize s'.whole_file_hash) content ∧
        s'.stats.entries_processed = s.stats.entries_processed + records.length := by
  unfold Apply.reconstruct at run
  obtain ⟨_, s₁, first, run⟩ := bind_success run
  obtain ⟨chunks, s₂, second, run⟩ := bind_success run
  obtain ⟨saw, s₃, third, run⟩ := bind_success run
  obtain ⟨_, s₄, fourth, fifth⟩ := bind_success run
  obtain ⟨header_read, kept₁⟩ := reading_kept first
  obtain ⟨finished, kept₄⟩ := reading_kept fourth
  obtain ⟨rfl, _, alive⟩ := finish_success finished
  have reader₂ : s₂.reader = s₁.reader := by
    have follows := follows_sign_old (T := T) (U := U) (p := p) s₁
    rw [second] at follows
    obtain ⟨_, signed, _⟩ := follows
    exact (EStateM.Result.ok.inj signed).2.symm
  have living : ¬ (source content n).failed s₃.reader := by
    intro failed
    exact absurd (alive.symm.trans failed) Bool.false_ne_true
  rcases (sim_success read_header_sim header_read).2 feeds with failed | ⟨rest, parsed, feeds₁⟩
  · exact absurd (items_sticky third (reader₂ ▸ failed)) living
  obtain ⟨records, t, listed, count⟩ := (items_certified N s₂ rest faulty (reader₂ ▸ feeds₁) third).resolve_left living
  have whole : delta N n content = some ((records, U.finalize s₃.whole_file_hash), t) := by
    rw [delta, bind_run, parsed, Option.bind_some, bind_run, listed]
    rfl
  have signed : delivered s₂ = delivered s := ((frames_sign_old T p).of_ok second).trans ((frames_reading _ _).of_ok first)
  have closed : delivered s' = delivered s₃ := (frames_close_inputs.of_ok fifth).trans ((frames_reading _ _).of_ok fourth)
  have hashed : s'.whole_file_hash = s₃.whole_file_hash := congrArg (fun d => d.2.2.1) closed
  have stats : s'.stats = s₃.stats := congrArg (fun d => d.2.2.2) closed
  have begun : s₂.stats = s.stats := congrArg (fun d => d.2.2.2) signed
  rw [hashed, stats, ← begun]
  exact ⟨records, ((delta_run short records _ t).mp whole).1, count⟩

end

/-! ### The output -/

section
variable {env : Environment} {U : StrongHash} {s : System} {output : Path} {content : List UInt8} {faulty : Bool}

/-- Blocks whose hash is the trailer of this delta, one for each of its records. -/
def Certified (U : StrongHash) (delta : List UInt8) (outs : List (List UInt8)) : Prop :=
  ∃ records, IsDelta U.get_hash_size records (streamed U outs) delta ∧ records.length = outs.length

theorem apply_opened_certified (ours : ∀ k < OutputTransaction.ATTEMPTS, Ours env (attempt env s output k)) (T : RollingHash)
    {fuel : Nat} (old delta : Path) (limit : Nat) (old_file : FileIo) {reader : DeltaReader}
    (feeds : (source content U.get_hash_size).feeds reader content faulty) (short : content.length < fuel) :
    let run := Apply.apply_opened env T fuel old delta output limit
      ({ old_file, reader, transaction := {}, system := s, whole_file_hash := U.init } : ApplyState U)
    ∀ stats, run.result = .ok stats → ∃ outs, Certified U content outs ∧ run.checked = some outs.flatten ∧
      stats = { entries_processed := outs.length, bytes_written := outs.flatten.length } := by
  intro run stats ok
  set a : ApplyState U := { old_file, reader, transaction := {}, system := s, whole_file_hash := U.init } with aIs
  have runIs : run = Apply.apply_opened env T fuel old delta output limit a := rfl
  unfold Apply.apply_opened at runIs
  cases first : Apply.staging (OutputTransaction.open_ env output [old, delta]) a with
  | error e a₁ =>
    rw [runIs, first] at ok
    cases ok
  | ok _ a₁ =>
    rw [first] at runIs
    dsimp only at runIs
    have opened := leaves_staging (s := a) (open_spec (fun k inside _ => ours k inside) [old, delta])
    obtain ⟨⟨live, p, _, created⟩, hashed, counted, readerKept⟩ := opened.of_ok first
    have begun : Delivered env (Creates env output [old, delta] s) s.fs s.moments output U (delivered a₁) :=
      ⟨[], open_created live created, fun _ => ⟨hashed, counted⟩⟩
    cases second : Apply.reconstruct T fuel old limit a₁ with
    | error e a₂ =>
      rw [runIs, second] at ok
      cases ok
    | ok _ a₂ =>
      rw [second] at runIs
      dsimp only at runIs
      have body := keeps_reconstruct (fun produced => keeps_deliver limit produced) T fuel old a₁ begun
      obtain ⟨outs, ⟨live₂, stores⟩, sound⟩ := body.of_ok second
      have feeds₁ : (source content U.get_hash_size).feeds a₁.reader content faulty := by
        rw [readerKept]
        exact feeds
      obtain ⟨records, shape, number⟩ := reconstruct_certified feeds₁ short second
      have commits := leaves_staging (s := a₂) (commit_spec live₂)
      cases third : Apply.staging (OutputTransaction.commit env) a₂ with
      | error e a₃ =>
        rw [runIs, third] at ok
        cases ok
      | ok _ a₃ =>
        rw [third] at runIs
        obtain ⟨⟨_, flawless⟩, _, statsKept, _⟩ := commits.of_ok third
        obtain ⟨hashIs, statsIs⟩ := sound flawless
        have written : a₂.transaction.file_.f_.data = outs.flatten := (stores.stored flawless).1
        have hashIs' : a₂.whole_file_hash = outs.foldl U.update U.init := hashIs
        have statsIs' : a₂.stats = { entries_processed := outs.length, bytes_written := outs.flatten.length } := statsIs
        rw [hashIs'] at shape
        rw [statsIs', counted, aIs] at number
        refine ⟨outs, ⟨records, shape, by simpa using number.symm⟩, ?_, ?_⟩
        · rw [runIs]
          exact congrArg some written
        · rw [runIs] at ok
          exact (Except.ok.inj ok).symm.trans (statsKept.trans statsIs')

/-- The file at this path has these bytes, and nobody replaces it; reading it may
    fail from some byte on. -/
structure Stays (env : Environment) (s : System) (p : Path) (content : List UInt8) : Prop where
  holds : s.Holds env p content
  alone : (env.media p).events = []
  inside : ∀ k, (env.media p).badFrom = some k → k ≤ content.length

theorem open_in_stays {s s' : System} {p : Path} {f : FileIo} (stays : Stays env s p content)
    (opened : FileIo.open_in env p s = (true, f, s')) :
    f = FileIo.opened content (env.media p).badFrom (env.media p).handsOver := by
  obtain ⟨⟨inode, leads, data⟩, alone, _⟩ := stays
  simp only [FileIo.open_in, System.status, System.call] at opened
  cases first : env.faults s.clock with
  | some message => simp [first] at opened
  | none =>
    cases second : env.faults (s.clock + 1) with
    | some message => simp [first, leads, second] at opened
    | none =>
      simp only [first, leads, second, data, alone, FStream.tick] at opened
      exact (Prod.mk.inj (Prod.mk.inj opened).2).1.symm

theorem stays_feeds {p : Path} (stays : Stays env s p content) : ∃ faulty, (source content U.get_hash_size).feeds
    (Apply.reader U (FileIo.opened content (env.media p).badFrom (env.media p).handsOver)) content faulty := by
  cases bad : (env.media p).badFrom with
  | none => exact ⟨false, Calm.opened_feeds _, rfl⟩
  | some k => exact ⟨true, Calm.opened_faulty _ (stays.inside k bad), rfl⟩

/-- An application that succeeds has opened both files. -/
theorem apply_delta_opens {delta old : Path} {limit : Nat} {T : RollingHash} {stats : ApplyStats}
    (stays : Stays env s delta content) (ok : (Apply.apply_delta env T U old delta output limit s).result = .ok stats) :
    ∃ clock old_file, Apply.apply_delta env T U old delta output limit s =
      Apply.apply_opened env T (content.length + 1) old delta output limit
        ({ old_file, reader := Apply.reader U (FileIo.opened content (env.media delta).badFrom (env.media delta).handsOver)
           transaction := {}, system := Calm.later s clock, whole_file_hash := U.init } : ApplyState U) := by
  have untouched := Calm.open_in_untouched env old s
  unfold Apply.apply_delta at ok ⊢
  generalize FileIo.open_in env old s = r at ok untouched ⊢
  obtain ⟨opened, old_file, s₁⟩ := r
  cases opened with
  | false => cases ok
  | true =>
    obtain ⟨clock, rfl⟩ := untouched
    have untouched := Calm.open_in_untouched env delta (Calm.later s clock)
    dsimp only at ok ⊢
    cases opening : FileIo.open_in env delta (Calm.later s clock) with
    | mk opened r =>
      obtain ⟨delta_file, s₂⟩ := r
      rw [opening] at ok untouched
      cases opened with
      | false => cases ok
      | true =>
        have stays' : Stays env (Calm.later s clock) delta content := ⟨stays.holds, stays.alone, stays.inside⟩
        obtain rfl := open_in_stays stays' opening
        obtain ⟨clock', rfl⟩ := untouched
        have reach : (FileIo.opened content (env.media delta).badFrom (env.media delta).handsOver).f_.reach = content.length := by
          simp [FStream.reach, FileIo.opened]
        refine ⟨clock', old_file, ?_⟩
        dsimp only
        rw [reach]
        rfl

theorem apply_delta_certified (ours : ∀ k < OutputTransaction.ATTEMPTS, Ours env (attempt env s output k)) {delta : Path}
    (stays : Stays env s delta content) (T : RollingHash) (old : Path) (limit : Nat) :
    let run := Apply.apply_delta env T U old delta output limit s
    ∀ stats, run.result = .ok stats → ∃ outs, Certified U content outs ∧ run.checked = some outs.flatten ∧
      stats = { entries_processed := outs.length, bytes_written := outs.flatten.length } := by
  intro run stats ok
  obtain ⟨clock, old_file, opened⟩ := apply_delta_opens stays ok
  obtain ⟨faulty, feeds⟩ := stays_feeds (U := U) stays
  have runIs : run = _ := opened
  rw [runIs] at ok ⊢
  exact apply_opened_certified (s := Calm.later s clock) ours T old delta limit old_file feeds (Nat.lt_succ_self _) stats ok

/-- An application that succeeds has read a delta, and counted an entry for each record. -/
theorem apply_delta_reads {delta : Path} (stays : Stays env s delta content) {T : RollingHash} {old : Path} {limit : Nat}
    {stats : ApplyStats} (ok : (Apply.apply_delta env T U old delta output limit s).result = .ok stats) :
    ∃ records trailer, IsDelta U.get_hash_size records trailer content ∧ stats.entries_processed = records.length := by
  obtain ⟨clock, old_file, opened⟩ := apply_delta_opens stays ok
  obtain ⟨faulty, feeds⟩ := stays_feeds (U := U) stays
  rw [opened] at ok
  set a : ApplyState U := { old_file, reader := Apply.reader U (FileIo.opened content _ _), transaction := {}
                            system := Calm.later s clock, whole_file_hash := U.init } with aIs
  cases first : Apply.staging (OutputTransaction.open_ env output [old, delta]) a with
  | error e a₁ =>
    unfold Apply.apply_opened at ok
    rw [first] at ok
    cases ok
  | ok _ a₁ =>
    obtain ⟨a₂, run, rfl⟩ := Limiting.opened_success first ok
    obtain ⟨kept, reader⟩ := Limiting.staging_kept first
    have feeds₁ : (source content U.get_hash_size).feeds a₁.reader content faulty := by
      rw [reader]
      exact feeds
    obtain ⟨records, shape, number⟩ := reconstruct_certified feeds₁ (Nat.lt_succ_self _) run
    refine ⟨records, _, shape, ?_⟩
    rw [number, kept, aIs]
    exact Nat.zero_add _

end

/-! ### The new file -/

section
open Roll.Swapping Roll.Creating Roll.Selecting

variable {env : Environment} {sys : System} {U : StrongHash} {old new : List UInt8} {original newfile : Signature}
  {oldfile file_to_check delta_file : Path}

/-- What a delta that was generated certifies has the hash of the new file. -/
theorem certified_hash (streams : U.Streams) (signs' : Signs U new newfile) {outs : List (List UInt8)}
    (certified : Certified U (deltaOf U original.get_chunks newfile.get_chunks old new newfile.whole_file_hash) outs) :
    U.hash outs.flatten = U.hash new := by
  obtain ⟨records, ⟨_, whole, _, rfl, _, length⟩, _⟩ := certified
  have lengths : (DELTA_TRAILER_TAG :: U.hash new).length = (DELTA_TRAILER_TAG :: streamed U outs).length :=
    congrArg Nat.succ ((U.hash_length new).trans length.symm)
  rw [deltaOf, trailerOf_signs streams signs', ← List.append_assoc] at whole
  have same := (List.cons.inj (List.append_inj_right' whole lengths)).2
  rw [same]
  exact (streams outs).symm

/-- Wherever a generated delta is then applied, whatever is there as the old file
    and whatever fails, an application that succeeds puts the new file in place,
    or one that collides with it; and one that does not leaves what was there. -/
theorem only_the_new_file_is_installed (streams : U.Streams) (ours : ∀ k < OutputTransaction.ATTEMPTS,
      sys.fs.names (env.locate (attempt env sys delta_file k)) = none → Ours env (attempt env sys delta_file k))
    (lasting : Lasting env sys oldfile old) (lasting' : Lasting env sys file_to_check new) (signs' : Signs U new newfile) :
    let run := Delta.generate_delta env U original newfile oldfile file_to_check delta_file sys
    ∀ stats, run.result = .ok stats → ∃ delta, run.system.Holds env delta_file delta ∧
      ∀ (env' : Environment) (s : System) (T : RollingHash) (old_path delta_path output : Path) (limit : Nat),
        (∀ k < OutputTransaction.ATTEMPTS, Ours env' (attempt env' s output k)) →
        Avoids (RunCreates env' s old_path delta_path output) s.fs (env'.locate output) → Stays env' s delta_path delta →
        let r := Apply.apply_delta env' T U old_path delta_path output limit s
        AllOrNothing env' s output r.result r.checked r.system ∧
          ∀ stats', r.result = .ok stats' → ∃ content, r.checked = some content ∧ U.hash content = U.hash new ∧
            stats'.bytes_written = content.length := by
  intro run stats ok
  refine ⟨_, (generate_selects ours lasting lasting' stats ok).1, ?_⟩
  intro env' s T old_path delta_path output limit ours' avoids stays r
  refine ⟨(apply_delta_atomic ours' T U old_path delta_path limit).1.mpr avoids, fun stats' ok' => ?_⟩
  obtain ⟨outs, certified, checked, counted⟩ := apply_delta_certified ours' stays T old_path limit stats' ok'
  exact ⟨outs.flatten, checked, certified_hash streams signs' certified, by rw [counted]⟩

/-- A delta beside an old file that it was not made for. -/
def foreign (delta : List UInt8) : System := { fs := .holding [((0, "old"), [9]), ((0, "delta"), delta)] }

theorem foreign_unlike (delta : List UInt8) : Unlike {} (foreign delta) ⟨"", "out"⟩ := by
  refine unlike_undotted fun m breaks => ?_
  have free : breaksAt (foreign delta).fs FileSystem.LINK_MAX (0, "out") = some (0, "out") := rfl
  obtain rfl : (0, "out") = m := Option.some.inj (free.symm.trans breaks)
  decide

/-- `only_the_new_file_is_installed` for a delta between files of one byte that meets
    a third one. -/
theorem foreign_file_is_refused :
    let run := Delta.generate_delta {} .padded (signature .padded [7] .Skip) (signature .padded [8] .Skip) ⟨"", "old"⟩
      ⟨"", "new"⟩ ⟨"", "delta"⟩ (bytePair 7 8)
    ∃ delta, run.system.Holds {} ⟨"", "delta"⟩ delta ∧
      let r := Apply.apply_delta {} RKFinger.rolling .padded ⟨"", "old"⟩ ⟨"", "delta"⟩ ⟨"", "out"⟩ UINT64_MAX (foreign delta)
      ∀ stats, r.result = .ok stats → ∃ content, r.checked = some content ∧
        StrongHash.padded.hash content = StrongHash.padded.hash [8] ∧ stats.bytes_written = content.length := by
  intro run
  have ok : run.result = .ok { chunks_processed := 1, bytes_written := 92 } := by decide +kernel
  obtain ⟨delta, holds, installed⟩ := only_the_new_file_is_installed StrongHash.padded_streams
    (fun k _ _ e impossible => by cases impossible) ⟨⟨0, rfl, rfl⟩, fun e impossible => by cases impossible⟩
    ⟨⟨1, rfl, rfl⟩, fun e impossible => by cases impossible⟩ (signs_signature .padded [8] .Skip) _ ok
  exact ⟨delta, holds, (installed {} (foreign delta) RKFinger.rolling ⟨"", "old"⟩ ⟨"", "delta"⟩ ⟨"", "out"⟩ UINT64_MAX
    (fun k _ e member => by cases member) (avoids_unlike (foreign_unlike delta)) ⟨⟨1, rfl, rfl⟩, rfl, fun k bad => by cases bad⟩).2⟩

end

end Roll.Certifying
