import Roll.Calm
import Roll.DeltaViewer
import Roll.Reading

/-!
The viewer accepts the grammar of version 5 and nothing else.
-/
namespace Roll.Viewing
open Roll.Parsing Roll.Reading Roll.Grammar

variable {content : List UInt8} {n : Nat}

theorem reject_bind {α γ : Type} (q : α → Parser UInt8 γ) : (reject >>= q) = reject := by
  funext s
  rw [bind_run]
  rfl

/-- The bytes of a run of opcodes, as the viewer counts them. -/
def runSize (opcodes : List DiffOpcode) : Nat := (opcodes.map DeltaViewer.opcode_size).sum

theorem parseDiffData_sim : ∀ fuel size count,
    Simulates (source content n) (DeltaViewer.parseDiffData fuel size count) (run fuel >>= fun opcodes =>
      refuse (count + opcodes.length = 0) >>= fun _ => pure (size + runSize opcodes, count + opcodes.length)) := by
  intro fuel
  induction fuel with
  | zero =>
    intro size count
    rw [run, reject_bind]
    exact simulates_throw _
  | succ fuel ih =>
    intro size count
    rw [run, bind_assoc]
    unfold DeltaViewer.parseDiffData DeltaReader.at_diff_opcode
    rw [bind_assoc]
    refine simulates_bind peek_byte_sim (fun byte => ?_)
    rw [pure_bind]
    cases is_diff_opcode byte with
    | true =>
      simp only [if_true, bind_assoc, pure_bind]
      refine simulates_bind read_diff_opcode_sim (fun first => ?_)
      have more := ih (size + DeltaViewer.opcode_size first) (count + 1)
      simpa only [runSize, List.map_cons, List.sum_cons, List.length_cons, Nat.add_assoc,
        Nat.add_comm 1] using more
    | false =>
      simp only [Bool.false_eq_true, if_false, pure_bind, List.length_nil, Nat.add_zero]
      exact simulates_bind (fail_if_sim _ _) fun _ => simulates_pure _

theorem view_chunk_sim (N : Nat) (header : DeltaEntryHeader) :
    Simulates (source content n) (DeltaViewer.view_chunk N header) (recordBody N header >>= fun _ => pure ()) := by
  unfold DeltaViewer.view_chunk recordBody
  cases header.type with
  | ORIGINAL_CHUNK =>
    simp only [pure_bind]
    exact simulates_pure ()
  | ADDED_CHUNK =>
    simp only [bind_assoc, pure_bind]
    exact simulates_bind (read_payload_sim _) fun _ => simulates_pure ()
  | MODIFIED_CHUNK =>
    have diff := simulates_bind (parseDiffData_sim N 0 0 : Simulates (source content n) _ _) fun _ => simulates_pure ()
    simp only [bind_assoc, pure_bind, Nat.zero_add, List.length_eq_zero_iff] at diff ⊢
    exact diff

theorem view_items_sim (N : Nat) : ∀ fuel count,
    Simulates (source content n) (DeltaViewer.view_items N fuel count)
      (items N n fuel >>= fun q => pure (count + q.1.length, q.2.isSome)) := by
  intro fuel
  induction fuel with
  | zero =>
    intro count
    rw [items, reject_bind]
    exact simulates_throw _
  | succ fuel ih =>
    intro count
    rw [items, bind_assoc]
    unfold DeltaViewer.view_items DeltaReader.next_item
    rw [bind_assoc]
    refine simulates_bind peek_byte_sim (fun byte => ?_)
    cases byte with
    | none =>
      simp only [pure_bind, List.length_nil, Nat.add_zero]
      exact simulates_pure _
    | some byte =>
      by_cases tag : byte = DELTA_TRAILER_TAG
      · simp only [if_pos tag, pure_bind, bind_assoc]
        exact simulates_bind read_trailer_sim fun _ => simulates_pure _
      · simp only [if_neg tag, pure_bind, bind_assoc, record]
        refine simulates_bind read_entry_header_sim (fun header => ?_)
        have chunk := simulates_bind (view_chunk_sim N header : Simulates (source content n) _ _) fun _ => ih (count + 1)
        simpa only [bind_assoc, pure_bind, List.length_cons, Nat.add_assoc, Nat.add_comm 1] using chunk

theorem view_stream_sim (N : Nat) :
    Simulates (source content n) (DeltaViewer.view_stream N) (delta N n >>= fun q => pure q.1.length) := by
  unfold DeltaViewer.view_stream delta
  rw [bind_assoc]
  refine simulates_bind read_header_sim (fun _ => ?_)
  rw [bind_assoc]
  have loop : Simulates (source content n) _ _ := view_items_sim N N 0
  have whole := simulates_bind loop fun r => simulates_bind
    (simulates_bind (fail_if_error_sim "Failed to read delta" : Simulates (source content n) _ _) fun _ =>
      fail_if_sim (!r.2) "Missing delta trailer") fun _ => simulates_pure (ε := String) r.1
  simpa only [DeltaReader.finish, bind_assoc, pure_bind, Nat.zero_add, Option.not_isSome] using whole

/-- A faulty stream is never viewed to its end. -/
theorem view_stream_fails (N : Nat) : Fails content n (DeltaViewer.view_stream N) := by
  have loop : ∀ fuel count, Fails content n (DeltaViewer.view_items N fuel count >>= fun r =>
      DeltaReader.finish r.2 >>= fun _ => pure r.1) := by
    intro fuel
    induction fuel with
    | zero =>
      intro count
      exact fails_first (fails_throw _)
    | succ fuel ih =>
      intro count
      unfold DeltaViewer.view_items DeltaReader.next_item
      rw [bind_assoc, bind_assoc]
      refine fails_second peek_byte_sim (fun byte => ?_)
      cases byte with
      | none =>
        simp only [pure_bind]
        exact fails_first finish_fails
      | some byte =>
        by_cases tag : byte = DELTA_TRAILER_TAG
        · simp only [if_pos tag, pure_bind]
          exact fails_first (fails_first read_trailer_fails)
        · simp only [if_neg tag, pure_bind, bind_assoc]
          refine fails_second read_entry_header_sim (fun header => ?_)
          exact fails_second (view_chunk_sim N header) fun _ => ih (count + 1)
  exact fails_second read_header_sim fun _ => loop N 0

/-! ### Exit codes -/

section
variable {env : Environment} {s : System} {p : Path}

/-- What the viewer returns on a file that can be opened. -/
theorem view_delta_opened (quiet : env.Quiet) (holds : s.Holds env p content) (still : (env.media p).events = []) :
    DeltaViewer.view_delta env p s = DeltaViewer.exit_code (DeltaViewer.view_stream (content.length + 1)
      (DeltaViewer.reader (FileIo.opened content (env.media p).badFrom (env.media p).handsOver))) := by
  rw [DeltaViewer.view_delta, Calm.open_in_quiet quiet holds still]
  rfl

/-- The viewer on bytes that can be read without an error. -/
theorem view_delta_calm (quiet : env.Quiet) (holds : s.Holds env p content) (calm : env.media p = {}) :
    (DeltaViewer.view_delta env p s = 0 ∧ ∃ records trailer, IsDelta BLAKE2B_HASH_SIZE records trailer content) ∨
      (DeltaViewer.view_delta env p s = 1 ∧ ¬ ∃ records trailer, IsDelta BLAKE2B_HASH_SIZE records trailer content) := by
  rw [view_delta_opened quiet holds (by rw [calm]), calm]
  have short : content.length < content.length + 1 := Nat.lt_succ_self _
  have feeds : (source content BLAKE2B_HASH_SIZE).feeds (DeltaViewer.reader (FileIo.opened content none true)) content
      false := ⟨Calm.opened_feeds true, rfl⟩
  rcases (view_stream_sim (content.length + 1)).calm feeds with ⟨count, r, rest, run, parsed, _⟩ | ⟨e, r, run, rejected, alive⟩
  · left
    refine ⟨by rw [run]; rfl, ?_⟩
    rw [bind_run] at parsed
    obtain ⟨⟨⟨records, trailer⟩, t⟩, accepted, _⟩ := Option.bind_eq_some_iff.mp parsed
    exact ⟨records, trailer, ((delta_run short records trailer t).mp accepted).1⟩
  · right
    refine ⟨?_, ?_⟩
    · rw [run]
      exact if_neg alive
    · rintro ⟨records, trailer, shape⟩
      have accepted := (delta_run short records trailer []).mpr ⟨shape, rfl⟩
      rw [bind_run, accepted] at rejected
      cases rejected

/-- The viewer on a delta that cannot be read to its end. -/
theorem view_delta_faulty (quiet : env.Quiet) (holds : s.Holds env p content) {records : List Record}
    {trailer : List UInt8} (shape : IsDelta BLAKE2B_HASH_SIZE records trailer content) {k : Nat} (le : k ≤ content.length)
    (bad : env.media p = { badFrom := some k, handsOver := (env.media p).handsOver }) :
    DeltaViewer.view_delta env p s = 2 := by
  have broken : (env.media p).badFrom = some k := by rw [bad]
  rw [view_delta_opened quiet holds (by rw [bad]), broken]
  set r := DeltaViewer.reader (FileIo.opened content (some k) (env.media p).handsOver)
  have feeds : (source content BLAKE2B_HASH_SIZE).feeds r content true := ⟨Calm.opened_faulty _ le, rfl⟩
  obtain ⟨e, r', run⟩ := view_stream_fails (content.length + 1) r
    (.inr ⟨content, feeds⟩)
  have outcome := (view_stream_sim (content.length + 1)).step r content true feeds
  rw [run] at outcome ⊢
  rcases outcome with ⟨_, failed⟩ | ⟨rejected, _⟩
  · exact if_pos failed
  · have accepted := (delta_run (Nat.lt_succ_self _) records trailer []).mpr ⟨shape, rfl⟩
    rw [bind_run, accepted] at rejected
    cases rejected

/-- The viewer returns 0 on the deltas of version 5 with a trailer of 64 bytes,
    1 on every other string, and 2 on a delta that breaks off with a stream
    error. -/
theorem view_delta_grammar (quiet : env.Quiet) (holds : s.Holds env p content) :
    (env.media p = {} →
      (DeltaViewer.view_delta env p s = 0 ↔ ∃ records trailer, IsDelta BLAKE2B_HASH_SIZE records trailer content) ∧
        (DeltaViewer.view_delta env p s ≠ 0 → DeltaViewer.view_delta env p s = 1)) ∧
      ∀ k ≤ content.length, ∀ handsOver, env.media p = { badFrom := some k, handsOver } →
        (∃ records trailer, IsDelta BLAKE2B_HASH_SIZE records trailer content) → DeltaViewer.view_delta env p s = 2 := by
  constructor
  · intro calm
    rcases view_delta_calm quiet holds calm with ⟨zero, shape⟩ | ⟨one, none⟩
    · exact ⟨⟨fun _ => shape, fun _ => zero⟩, fun nonzero => absurd zero nonzero⟩
    · refine ⟨⟨fun zero => ?_, fun shape => absurd shape none⟩, fun _ => one⟩
      rw [one] at zero
      cases zero
  · rintro k le handsOver bad ⟨records, trailer, shape⟩
    exact view_delta_faulty quiet holds shape le (by rw [bad])

end

/-- One record of each kind: the first old chunk, two bytes that are added, and the
    first old chunk with a byte after its first. -/
def mixedRecords : List Record :=
  [{ header := { type := .ORIGINAL_CHUNK, old_index := 0, digest := 7 :: List.replicate 15 0 } },
   { header := { type := .ADDED_CHUNK, out_size := 2, digest := 8 :: 9 :: List.replicate 14 0 }, payload := [8, 9] },
   { header := { type := .MODIFIED_CHUNK, old_index := 0, out_size := 2, digest := 7 :: 5 :: List.replicate 14 0 }
     opcodes := [{ op := OP_INSERT, pos := 1, bytes := [5] }] }]

def mixedTrailer : List UInt8 := [7, 8, 9, 7, 5] ++ List.replicate 59 0

/-- A delta of these records. -/
def mixedDelta : List UInt8 :=
  DELTA_MAGIC ++ push_u32_be [] DELTA_FORMAT_VERSION ++ (0 :: 0 :: 7 :: List.replicate 15 0) ++
    (1 :: 2 :: 8 :: 9 :: List.replicate 14 0) ++ [8, 9] ++ (2 :: 0 :: 2 :: 7 :: 5 :: List.replicate 14 0) ++
    OP_INSERT :: push_u32_be [] 1 ++ [1, 5] ++ DELTA_TRAILER_TAG :: mixedTrailer

theorem mixedDelta_shape : IsDelta BLAKE2B_HASH_SIZE mixedRecords mixedTrailer mixedDelta :=
  ((delta_run (Nat.lt_succ_self _) mixedRecords mixedTrailer []).mp (by decide +kernel)).1

/-- `view_delta_grammar` on a delta with a record of each kind. -/
theorem view_mixedDelta : DeltaViewer.view_delta {} { parent := "", filename := "delta" }
    { fs := .holding [((0, "delta"), mixedDelta)] } = 0 := by
  have quiet : ({} : Environment).Quiet := fun _ => rfl
  have holds : System.Holds {} { fs := .holding [((0, "delta"), mixedDelta)] }
      { parent := "", filename := "delta" } mixedDelta := ⟨0, rfl, rfl⟩
  exact ((view_delta_grammar quiet holds).1 rfl).1.mpr ⟨mixedRecords, _, mixedDelta_shape⟩

end Roll.Viewing
