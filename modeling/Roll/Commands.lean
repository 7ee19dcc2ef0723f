import Roll.Atomic
import Roll.CommandLine
import Roll.Creating
import Roll.Judging
import Roll.Rendering
import Roll.Signing

/-!
What the commands do: `create`, `apply` and `view` one after the other, what
the exit status of `apply` says, and what a command that fails leaves.
-/
namespace Roll.Commands
open Roll.Outcome Roll.Grammar Roll.Calm Roll.Chunker Roll.Evaluation Roll.Committing Roll.Staging Roll.Applying Roll.Creating
  Roll.Judging Roll.Rendering Roll.Main

variable {env : Environment} {worker : Nat → Option String} {U : StrongHash} {path : String → Path} {s : System}

theorem unlimited : uint64_max.toNat = UINT64_MAX := by decide

/-! ### The exit status of `apply` -/

/-- The text of an application that succeeded. -/
def applied (outs : List (List UInt8)) (out_path : String) : String :=
  "Applied " ++ toString outs.length ++ " entries, wrote " ++ toString outs.flatten.length ++ " bytes to " ++ out_path ++ "\n"

/-- The limit that the arguments before the paths give. -/
def limit_of : List String → Option Nat
  | [] => some UINT64_MAX
  | [option, size] => if option = "--max-output" then (parse_size size.toUTF8.toList).map UInt64.toNat else none
  | _ => none

theorem verdict_exit {old delta : List UInt8} {limit : Nat} {code : DeltaErrc} (wrong : verdict U old delta limit = .error code) :
    exit_status_for code = 1 := by
  rcases verdict_error wrong with rfl | rfl | rfl <;> rfl

/-- An application says what the verdict on its delta is. -/
def Reported (env : Environment) (path : String → Path) (out_path : String) (r : Nat × Console × System) :
    Except DeltaErrc (List (List UInt8)) → Prop
  | .ok outs => r.1 = 0 ∧ r.2.1 = { cout := applied outs out_path } ∧ r.2.2.Holds env (path out_path) outs.flatten
  | .error code =>
    r.1 = 1 ∧ ∃ message, r.2.1 = { cerr := "Error applying delta: " ++ message ++ " (" ++ to_string code ++ ")\n" }

theorem run_apply_verdict {old delta : List UInt8} {old_path delta_path out_path : String} (undisturbed : Undisturbed env)
    (fits : old.length ≤ STREAMOFF_MAX) (ready : Ready env s old delta (path old_path) (path delta_path) (path out_path))
    (limit : Nat) : Reported env path out_path (run_apply env U path old_path delta_path out_path limit s)
      (verdict U old delta limit) := by
  have outcome := apply_delta_follows (U := U) undisturbed fits ready limit
  unfold run_apply
  cases judged : verdict U old delta limit with
  | ok outs =>
    rw [judged] at outcome
    obtain ⟨result, holds⟩ := outcome
    simp only [result]
    exact ⟨rfl, rfl, holds⟩
  | error code =>
    rw [judged] at outcome
    obtain ⟨message, result⟩ := outcome
    simp only [result]
    exact ⟨verdict_exit judged, message, rfl⟩

/-- `apply` takes three arguments, or five. -/
theorem apply_command_usage {prog : String} {args : List String} (three : args.length ≠ 3) (five : args.length ≠ 5) :
    apply_command env U path prog args s = usage_error prog s := by
  unfold apply_command
  split
  · exact absurd rfl five
  · exact absurd rfl three
  · rfl

/-- `apply` exits with 0 exactly when its options give a limit and the delta
    rebuilds something within it, which is then in place. Otherwise it exits
    with 1; and where there is a limit, it says what is wrong with the delta. -/
theorem apply_exit_status {old delta : List UInt8} {prog old_path delta_path out_path : String} {options : List String}
    (undisturbed : Undisturbed env) (fits : old.length ≤ STREAMOFF_MAX)
    (ready : Ready env s old delta (path old_path) (path delta_path) (path out_path)) :
    let r := run env worker U path (prog :: "apply" :: (options ++ [old_path, delta_path, out_path])) s
    match limit_of options with
    | none => r.1 = 1 ∧ r.2.1.cout = "" ∧ r.2.2 = s
    | some limit => Reported env path out_path r (verdict U old delta limit) := by
  have commanded : run env worker U path (prog :: "apply" :: (options ++ [old_path, delta_path, out_path])) s =
      apply_command env U path prog (options ++ [old_path, delta_path, out_path]) s := rfl
  rw [commanded]
  match options with
  | [] =>
    simp only [limit_of, List.nil_append, apply_command, unlimited]
    exact run_apply_verdict undisturbed fits ready UINT64_MAX
  | [option, size] =>
    simp only [limit_of, List.cons_append, List.nil_append, apply_command]
    by_cases named : option = "--max-output"
    · simp only [if_pos named]
      cases parse_size size.toUTF8.toList with
      | none => exact ⟨rfl, rfl, rfl⟩
      | some limit => exact run_apply_verdict undisturbed fits ready limit.toNat
    · simp only [if_neg named]
      exact ⟨rfl, rfl, rfl⟩
  | [_] => exact ⟨rfl, rfl, rfl⟩
  | _ :: _ :: _ :: _ =>
    rw [apply_command_usage (by simp) (by simp)]
    exact ⟨rfl, rfl, rfl⟩

/-- `apply_exit_status` for a delta with a record of each kind, and a limit that is
    just enough. -/
theorem mixedDelta_is_applied :
    let r := run {} (fun _ => none) .padded (fun name => ⟨"", name⟩) ["roll", "apply", "--max-output", "5", "old", "delta", "output"]
      byteAndDelta
    r.1 = 0 ∧ r.2.1 = { cout := applied [[7], [8, 9], [7, 5]] "output" } ∧ r.2.2.Holds {} ⟨"", "output"⟩ [7, 8, 9, 7, 5] := by
  have reported := @apply_exit_status {} (fun _ => none) .padded (fun name => ⟨"", name⟩) byteAndDelta [7] Viewing.mixedDelta
    "roll" "old" "delta" "output" ["--max-output", "5"] undisturbed_default (by decide) ready_byteAndDelta
  have limited : limit_of ["--max-output", "5"] = some 5 := by decide +kernel
  have accepted : verdict .padded [7] Viewing.mixedDelta 5 = .ok [[7], [8, 9], [7, 5]] := by decide +kernel
  simp only [limited, accepted] at reported
  exact reported

/-! ### Create, apply and view -/

/-- Signing a file that can be read. -/
theorem signing_calm {content : List UInt8} {p : Path} (quiet : env.Quiet) (still : Still env) (holds : s.Holds env p content)
    (mode : WholeFileHash) (sig : Signature) :
    Signature.generate_signatures_path RKFinger.rolling U env p mode sig s =
      (true, signature U content mode, { s with clock := s.clock + 2 }) := by
  have opened := open_in_quiet quiet holds (by rw [still])
  rw [still] at opened
  obtain ⟨_, f, _, signed, _⟩ := generate_spec U mode (opened_opened content true)
  unfold Signature.generate_signatures_path signature
  rw [opened]
  simp only [Signing.generate_signatures_on_eq, signed]

/-- A file has one content. -/
theorem holds_unique {p : Path} {a b : List UInt8} (holds : s.Holds env p a) (holds' : s.Holds env p b) : a = b := by
  obtain ⟨i, leads, data⟩ := holds
  obtain ⟨j, leads', data'⟩ := holds'
  rw [leads] at leads'
  obtain rfl : i = j := by simpa using leads'
  rw [data] at data'
  simpa using data'

/-- A string is the delta of one list of records only. -/
theorem records_unique {n : Nat} {records records' : List Record} {trailer trailer' delta : List UInt8}
    (shape : IsDelta n records trailer delta) (shape' : IsDelta n records' trailer' delta) : records = records' := by
  have parsed := (delta_run (Nat.lt_succ_self delta.length) records trailer []).mpr ⟨shape, rfl⟩
  have parsed' := (delta_run (Nat.lt_succ_self delta.length) records' trailer' []).mpr ⟨shape', rfl⟩
  exact (Prod.mk.inj (Prod.mk.inj (Option.some.inj (parsed.symm.trans parsed'))).1).1

/-- Wherever nothing is disturbed, `apply` makes `new` of `old` and the delta, and
    `view` shows a record for each chunk of `new`. -/
structure Works (U : StrongHash) (old delta new : List UInt8) : Prop where
  apply : ∀ (env : Environment) (worker : Nat → Option String) (path : String → Path) (s : System)
    (prog old_path delta_path out_path : String), Undisturbed env →
      Ready env s old delta (path old_path) (path delta_path) (path out_path) →
      let r := run env worker U path [prog, "apply", old_path, delta_path, out_path] s
      r.1 = 0 ∧ r.2.2.Holds env (path out_path) new ∧
        r.2.1 = { cout := "Applied " ++ toString (chunkList U new).length ++ " entries, wrote " ++ toString new.length ++
          " bytes to " ++ out_path ++ "\n" }
  view : ∃ records trailer, records.length = (chunkList U new).length ∧ IsDelta BLAKE2B_HASH_SIZE records trailer delta ∧
    ∀ (env : Environment) (worker : Nat → Option String) (path : String → Path) (s : System) (prog delta_path : String),
      env.Quiet → s.Holds env (path delta_path) delta → env.media (path delta_path) = {} →
      run env worker U path [prog, "view", delta_path] s =
        (0, { cout := rendering (path delta_path) records trailer }, { s with clock := s.clock + 2 })

theorem works {old delta new : List UInt8} {records : List Record} {trailer : List UInt8} (fits : old.length ≤ STREAMOFF_MAX)
    (size : U.get_hash_size = BLAKE2B_HASH_SIZE) (rebuilds : Rebuilds U old delta new)
    (shape : IsDelta BLAKE2B_HASH_SIZE records trailer delta) (count : records.length = (chunkList U new).length) :
    Works U old delta new := by
  refine ⟨?_, records, trailer, count, shape, ?_⟩
  · intro env worker path s prog old_path delta_path out_path undisturbed ready
    obtain ⟨⟨stats, ok⟩, holds⟩ := rebuilds env s (path old_path) (path delta_path) (path out_path) undisturbed ready
    obtain ⟨s₀, _, outcome⟩ := apply_delta_calm (U := U) undisturbed fits ready UINT64_MAX
    have command : run env worker U path [prog, "apply", old_path, delta_path, out_path] s =
        run_apply env U path old_path delta_path out_path UINT64_MAX s := by
      rw [← unlimited]
      rfl
    rw [command]
    unfold run_apply
    split at outcome
    · obtain ⟨records', outs, means, _, sys', output, whole⟩ := outcome
      rw [whole] at holds ⊢
      obtain rfl := holds_unique output holds
      have shape' := means.1
      rw [size] at shape'
      obtain rfl := records_unique shape shape'
      exact ⟨rfl, output, by rw [← count]⟩
    · obtain ⟨_, sys', whole⟩ := outcome
      rw [whole] at ok
      cases ok
  · intro env worker path s prog delta_path quiet holds calm
    exact print_delta_renders quiet holds calm shape

/-- `create` succeeds silently, and its delta works everywhere. -/
theorem create_then_apply_and_view {old new : List UInt8} {prog old_path new_path delta_path : String}
    (undisturbed : Undisturbed env) (calm : ∀ n, worker n = none) (holds : s.Holds env (path old_path) old)
    (holds' : s.Holds env (path new_path) new) (usable : Usable env s (path delta_path) [path old_path, path new_path])
    (small : old.length ≤ STREAMOFF_MAX) (small' : new.length ≤ STREAMOFF_MAX)
    (size : U.get_hash_size = BLAKE2B_HASH_SIZE) (distinct : Distinct U (blocks U old ++ blocks U new)) :
    let r := run env worker U path [prog, "create", old_path, new_path, delta_path] s
    r.1 = 0 ∧ r.2.1 = {} ∧ ∃ delta, r.2.2.Holds env (path delta_path) delta ∧ Works U old delta new := by
  have room : U.get_hash_size ≤ STREAMOFF_MAX := by
    rw [size]
    decide
  have first : Signature.generate_signatures_path RKFinger.rolling U { env with faults := worker } (path old_path) .Skip {} s =
      (true, signature U old .Skip, { s with clock := s.clock + 2 }) :=
    @signing_calm { env with faults := worker } U s old (path old_path) calm undisturbed.still holds .Skip {}
  have second := signing_calm (U := U) undisturbed.quiet undisturbed.still holds' .Compute {}
  have signs := signs_signature U old .Skip
  have signs' := signs_signature U new .Compute
  have later : System.Holds env { s with clock := s.clock + 2 } (path old_path) old := holds
  have later' : System.Holds env { s with clock := s.clock + 2 } (path new_path) new := holds'
  obtain ⟨⟨stats, ok⟩, s', entries, trailer, delta, delivers⟩ :=
    generate_calm undisturbed signs signs' later later' ⟨usable.named, usable.replaceable, usable.free⟩ small small' room
  have command : run env worker U path [prog, "create", old_path, new_path, delta_path] s =
      run_create env worker U path old_path new_path delta_path s := rfl
  have shape := delivers.built.shape
  rw [size] at shape
  have suits := entries_suit small _ 0 entries (fun c member => member) delivers.built.made
  have rebuilds := delivers_rebuilds delivers signs'.spec.2 distinct (fun _ member => member) fun wild => absurd trivial wild
  rw [command]
  unfold run_create
  rw [first, second]
  simp only [Bool.not_true, Bool.false_eq_true, if_false, ok]
  exact ⟨trivial, trivial, delta, delivers.holds, works small size rebuilds shape suits.length_eq.symm⟩

/-- `create_then_apply_and_view` for files of one byte. -/
theorem bytes_are_created :
    let r := run {} (fun _ => none) .padded (fun name => ⟨"", name⟩) ["roll", "create", "old", "new", "delta"] (bytePair 7 8)
    r.1 = 0 ∧ r.2.1 = {} ∧ ∃ delta, r.2.2.Holds {} ⟨"", "delta"⟩ delta ∧ Works .padded [7] delta [8] :=
  create_then_apply_and_view undisturbed_default (fun _ => rfl) ⟨0, rfl, rfl⟩ ⟨1, rfl, rfl⟩ (usable_bytePair 7 8) (by decide)
    (by decide) rfl (by unfold Distinct; decide +kernel)

/-! ### What a command leaves -/

/-- The argument that names the output of a command. -/
def destination_of : List String → Option String
  | [_, command, _, _, out] => if command = "create" ∨ command = "apply" then some out else none
  | [_, command, option, _, _, _, out] => if command = "apply" ∧ option = "--max-output" then some out else none
  | _ => none

/-- An exit status as a result. -/
def resultOf (status : Nat) : Except DeltaError Unit := if status = 0 then .ok () else .error {}

theorem exit_status_positive (code : DeltaErrc) : exit_status_for code ≠ 0 := by cases code <;> decide

section
variable {α : Type} {destination : Path} {checked : Option (List UInt8)} {s' : System}

theorem atomic_failed {status : Nat} {e : DeltaError} (failed : status ≠ 0)
    (atomic : Atomic.AllOrNothing env s destination (.error e : Except DeltaError α) checked s') :
    Atomic.AllOrNothing env s destination (resultOf status) checked s' := by
  obtain ⟨moments, last, failure, _⟩ := atomic
  rw [resultOf, if_neg failed]
  exact ⟨moments, last, fun _ _ => failure e rfl, by simp⟩

theorem atomic_done {a : α} (atomic : Atomic.AllOrNothing env s destination (.ok a : Except DeltaError α) checked s') :
    Atomic.AllOrNothing env s destination (resultOf 0) checked s' := by
  obtain ⟨moments, last, _, success⟩ := atomic
  exact ⟨moments, last, by simp [resultOf], fun _ _ => success a rfl⟩

end

/-- Signing changes no file. -/
theorem signing_untouched (T : RollingHash) (p : Path) (mode : WholeFileHash) (sig : Signature) :
    Untouched s (Signature.generate_signatures_path T U env p mode sig s).2.2 := by
  have untouched := open_in_untouched env p s
  unfold Signature.generate_signatures_path
  generalize FileIo.open_in env p s = r at untouched ⊢
  obtain ⟨opened, file, s₁⟩ := r
  cases opened with
  | false => exact untouched
  | true => exact untouched

/-- The run of `create`, when both files could be signed. -/
def created (env : Environment) (worker : Nat → Option String) (U : StrongHash) (path : String → Path)
    (old_path new_path delta_path : String) (s : System) : Option GenerateRun :=
  let (old_ok, old_signature, _) :=
    Signature.generate_signatures_path RKFinger.rolling U { env with faults := worker } (path old_path) .Skip {} s
  let (new_ok, new_signature, s) :=
    Signature.generate_signatures_path RKFinger.rolling U env (path new_path) .Compute {} s
  if old_ok && new_ok then
    some (Delta.generate_delta env U old_signature new_signature (path old_path) (path new_path) (path delta_path) s)
  else none

/-- What a command line with an output had written when all checks passed: a
    `create` the delta, an `apply` the output of its delta. -/
def checked_output (env : Environment) (worker : Nat → Option String) (U : StrongHash) (path : String → Path)
    (argv : List String) (s : System) : Option (List UInt8) :=
  match argv with
  | [_, command, first, second, out_path] =>
    if command = "create" then (created env worker U path first second out_path s).bind (·.checked)
    else (Apply.apply_delta env RKFinger.rolling U (path first) (path second) (path out_path) uint64_max.toNat s).checked
  | [_, _, _, size, first, second, out_path] =>
    (parse_size size.toUTF8.toList).bind fun limit =>
      (Apply.apply_delta env RKFinger.rolling U (path first) (path second) (path out_path) limit.toNat s).checked
  | _ => none

section
variable {out_path : String} (ours : ∀ k < OutputTransaction.ATTEMPTS, Ours env (attempt env s (path out_path) k))
  (unlike : Atomic.Unlike env s (path out_path))
include ours unlike

theorem run_apply_atomic (old_path delta_path : String) (limit : Nat) :
    let r := run_apply env U path old_path delta_path out_path limit s
    Atomic.AllOrNothing env s (path out_path) (resultOf r.1)
      (Apply.apply_delta env RKFinger.rolling U (path old_path) (path delta_path) (path out_path) limit s).checked r.2.2 := by
  have atomic := (Atomic.apply_delta_atomic ours RKFinger.rolling U (path old_path) (path delta_path) limit).1.mpr
    (Atomic.avoids_unlike unlike)
  unfold run_apply
  dsimp only at atomic ⊢
  generalize Apply.apply_delta env RKFinger.rolling U (path old_path) (path delta_path) (path out_path) limit s = r at atomic ⊢
  cases result : r.result with
  | error e =>
    rw [result] at atomic
    exact atomic_failed (exit_status_positive e.code) atomic
  | ok stats =>
    rw [result] at atomic
    exact atomic_done atomic

theorem run_create_atomic (old_path new_path : String) :
    let r := run_create env worker U path old_path new_path out_path s
    Atomic.AllOrNothing env s (path out_path) (resultOf r.1)
      ((created env worker U path old_path new_path out_path s).bind (·.checked)) r.2.2 := by
  have untouched : Untouched s (Signature.generate_signatures_path RKFinger.rolling U env (path new_path) .Compute {} s).2.2 :=
    signing_untouched RKFinger.rolling (path new_path) .Compute {}
  unfold run_create created
  generalize Signature.generate_signatures_path RKFinger.rolling U { env with faults := worker } (path old_path) .Skip {} s = q
  generalize Signature.generate_signatures_path RKFinger.rolling U env (path new_path) .Compute {} s = r at untouched ⊢
  obtain ⟨old_ok, old_signature, _⟩ := q
  obtain ⟨new_ok, new_signature, s'⟩ := r
  have refused : Atomic.AllOrNothing env s (path out_path) (resultOf 2) none s' :=
    Atomic.atomic_untouched untouched fun _ impossible => by cases impossible
  cases old_ok with
  | false => exact refused
  | true =>
    cases new_ok with
    | false => exact refused
    | true =>
      obtain ⟨clock, rfl⟩ := untouched
      have atomic := (Atomic.generate_delta_atomic (s := later s clock) ours U old_signature new_signature
        (path old_path) (path new_path)).1.mpr (Atomic.avoids_unlike unlike)
      simp only [Bool.not_true, Bool.false_eq_true, if_false, Bool.and_self, if_true, Option.bind_some] at atomic ⊢
      generalize Delta.generate_delta env U old_signature new_signature (path old_path) (path new_path) (path out_path)
        (later s clock) = r at atomic ⊢
      obtain ⟨moments, last, failure, success⟩ := atomic
      have atomic : Atomic.AllOrNothing env s (path out_path) r.result r.checked r.system := ⟨moments, last, failure, success⟩
      cases result : r.result with
      | error e =>
        rw [result] at atomic
        exact atomic_failed (exit_status_positive e.code) atomic
      | ok stats =>
        rw [result] at atomic
        exact atomic_done atomic

end

theorem print_delta_untouched (p : Path) : Untouched s (DeltaViewer.print_delta env p s).2.2 := by
  have untouched := open_in_untouched env p s
  unfold DeltaViewer.print_delta
  generalize FileIo.open_in env p s = r at untouched ⊢
  obtain ⟨opened, file, s₁⟩ := r
  cases opened with
  | false => exact untouched
  | true => exact untouched

theorem destination_none {prog command : String} {args : List String} (three : args.length ≠ 3) (five : args.length ≠ 5) :
    destination_of (prog :: command :: args) = none := by
  unfold destination_of
  split
  · next same =>
    obtain ⟨_, _, rfl⟩ : _ ∧ _ ∧ args = _ := by simpa using same
    exact absurd rfl three
  · next same =>
    obtain ⟨_, _, rfl⟩ : _ ∧ _ ∧ args = _ := by simpa using same
    exact absurd rfl five
  · rfl

/-- A list of arguments that a command with an output may have, or another one. -/
theorem args_cases (args : List String) : (∃ a b c, args = [a, b, c]) ∨ (∃ a b c d e, args = [a, b, c, d, e]) ∨
    args.length ≠ 3 ∧ args.length ≠ 5 := by
  match args with
  | [a, b, c] => exact .inl ⟨a, b, c, rfl⟩
  | [a, b, c, d, e] => exact .inr (.inl ⟨a, b, c, d, e, rfl⟩)
  | [] | [_] | [_, _] | [_, _, _, _] | _ :: _ :: _ :: _ :: _ :: _ :: _ => exact .inr (.inr (by simp))

/-- `create` takes three arguments. -/
theorem create_usage {prog : String} {args : List String} (three : args.length ≠ 3) :
    run env worker U path (prog :: "create" :: args) s = usage_error prog s := by
  have command : ¬ ("create" = "--version" ∨ "create" = "-v") ∧ ¬ ("create" = "--help" ∨ "create" = "-h") := by decide
  unfold Main.run
  simp only [if_neg command.1, if_neg command.2, if_true]
  split
  · exact absurd rfl three
  · rfl

/-- Whatever the command line is, and whatever fails: a command without an output
    touches no file. Where nobody else writes to the staged files and the output
    does not lead to a missing name like theirs, a command with an output is atomic
    there: with an exit status other than 0 the output is what it was, and with 0
    it is what passed the checks. -/
theorem command_line_is_atomic (env : Environment) (worker : Nat → Option String) (U : StrongHash) (path : String → Path)
    (argv : List String) (s : System) :
    let r := run env worker U path argv s
    match destination_of argv with
    | none => Untouched s r.2.2
    | some out_path =>
      (∀ k < OutputTransaction.ATTEMPTS, Ours env (attempt env s (path out_path) k)) →
      Atomic.Unlike env s (path out_path) →
      Atomic.AllOrNothing env s (path out_path) (resultOf r.1) (checked_output env worker U path argv s) r.2.2 := by
  match argv with
  | [] => exact untouched_refl s
  | [_] => exact untouched_refl s
  | prog :: command :: args =>
    by_cases creates : command = "create"
    · subst creates
      rcases args_cases args with ⟨a, b, c, rfl⟩ | ⟨a, b, c, d, e, rfl⟩ | ⟨three, five⟩
      · exact fun ours unlike => run_create_atomic ours unlike a b
      · exact untouched_refl s
      · rw [destination_none three five]
        rw [create_usage three]
        exact untouched_refl s
    · by_cases applies : command = "apply"
      · subst applies
        have dispatched : run env worker U path (prog :: "apply" :: args) s = apply_command env U path prog args s := rfl
        rw [dispatched]
        rcases args_cases args with ⟨a, b, c, rfl⟩ | ⟨a, b, c, d, e, rfl⟩ | ⟨three, five⟩
        · exact fun ours unlike => run_apply_atomic ours unlike a b _
        · by_cases option : a = "--max-output"
          · simp only [destination_of, apply_command, option, and_self, if_true]
            intro ours unlike
            simp only [checked_output]
            cases parse_size b.toUTF8.toList with
            | none => exact Atomic.atomic_untouched (untouched_refl s) fun _ impossible => by cases impossible
            | some limit => exact run_apply_atomic ours unlike c d limit.toNat
          · simp only [destination_of, apply_command, option, and_false, if_false]
            exact untouched_refl s
        · rw [destination_none three five, apply_command_usage three five]
          exact untouched_refl s
      · have nothing : destination_of (prog :: command :: args) = none := by
          unfold destination_of
          split <;> simp_all
        rw [nothing]
        unfold Main.run
        simp only [if_neg creates, if_neg applies]
        split
        · exact untouched_refl s
        · split
          · exact untouched_refl s
          · split
            · split
              · exact print_delta_untouched _
              · exact untouched_refl s
            · exact untouched_refl s

/-- `command_line_is_atomic` for the creation of a delta between files of one byte. -/
theorem created_delta_is_whole :
    let argv := ["roll", "create", "old", "new", "delta"]
    let r := run {} (fun _ => none) .padded (fun name => ⟨"", name⟩) argv (bytePair 7 8)
    Atomic.AllOrNothing {} (bytePair 7 8) ⟨"", "delta"⟩ (resultOf r.1)
      (checked_output {} (fun _ => none) .padded (fun name => ⟨"", name⟩) argv (bytePair 7 8)) r.2.2 := by
  have unlike : Atomic.Unlike {} (bytePair 7 8) ⟨"", "delta"⟩ := by
    refine Atomic.unlike_undotted fun m breaks => ?_
    have free : breaksAt (bytePair 7 8).fs FileSystem.LINK_MAX (0, "delta") = some (0, "delta") := by decide
    obtain rfl : (0, "delta") = m := Option.some.inj (free.symm.trans breaks)
    decide
  exact command_line_is_atomic {} (fun _ => none) .padded (fun name => ⟨"", name⟩) ["roll", "create", "old", "new", "delta"]
    (bytePair 7 8) (fun _ _ _ member => by cases member) unlike

end Roll.Commands
