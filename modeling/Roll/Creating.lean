import Roll.Generating
import Roll.Viewing

/-!
Deltas that are created and then applied: what is generated from two signatures
rebuilds the new file from the old one.
-/
namespace Roll.Creating
open Roll.Parsing Roll.Outcome Roll.Cursor Roll.Chunker Roll.Chunking Roll.Evaluation Roll.Encoding Roll.Grammar
  Roll.Roundtrip Roll.Calm Roll.Committing Roll.Staging Roll.Framing Roll.Applying Roll.Swapping Roll.Generating

variable {U : StrongHash}

/-! ### Signatures -/

/-- The strings that the chunks of a file stand for. -/
def blocks (U : StrongHash) (content : List UInt8) : List (List UInt8) :=
  (chunkList U content).map (chunkBytes content)

/-- A signature of a file of these bytes, in either mode. -/
def Signs (U : StrongHash) (content : List UInt8) (sig : Signature) : Prop :=
  ∃ mode f f', Opened content f ∧ Signature.generate_signatures RKFinger.rolling U f mode = (true, sig, f')

theorem Signs.spec {content : List UInt8} {sig : Signature} (signs : Signs U content sig) :
    sig.get_chunks = chunkList U content ∧
      (sig.whole_file_hash = [] ∨ sig.whole_file_hash = streamed U (blocks U content)) := by
  obtain ⟨mode, f, f', opened, run⟩ := signs
  obtain ⟨cs, f₁, pieces, run', _⟩ := generate_spec U mode opened
  obtain ⟨cs', pieces', list, bytes⟩ := chunkList_bytes U content
  obtain rfl := pieces_unique pieces pieces'
  obtain rfl := (Prod.mk.inj (Prod.mk.inj (run.symm.trans run')).2).1
  refine ⟨list.symm, ?_⟩
  rw [blocks, bytes]
  cases mode with
  | Skip => exact .inl rfl
  | Compute => exact .inr rfl

theorem streamed_length (U : StrongHash) (outs : List (List UInt8)) : (streamed U outs).length = U.get_hash_size :=
  U.finalize_length _

theorem blocks_flatten (U : StrongHash) (content : List UInt8) : (blocks U content).flatten = content :=
  chunkList_flatten U content

theorem few_chunks (U : StrongHash) (content : List UInt8) : (chunkList U content).length ≤ content.length := by
  have all : ∀ parts : List (List UInt8), (∀ part ∈ parts, part ≠ []) → parts.length ≤ parts.flatten.length := by
    intro parts
    induction parts with
    | nil =>
      intro _
      exact Nat.le_refl 0
    | cons part parts ih =>
      intro nonempty
      obtain ⟨first, rest⟩ := List.forall_mem_cons.mp nonempty
      have positive := List.length_pos_iff.mpr first
      have few := ih rest
      rw [List.length_cons, List.flatten_cons, List.length_append]
      omega
  obtain ⟨cs, pieces, _, bytes⟩ := chunkList_bytes U content
  have few := all cs (pieces_ne_nil pieces)
  rwa [pieces_flatten pieces, ← bytes, List.length_map] at few

/-! ### Collisions -/

/-- Strings of one length among these have different digests. -/
def Distinct (U : StrongHash) (strings : List (List UInt8)) : Prop :=
  ∀ a ∈ strings, ∀ b ∈ strings, a.length = b.length → U.digest a = U.digest b → a = b

theorem Distinct.fewer {strings strings' : List (List UInt8)} (distinct : Distinct U strings)
    (sub : ∀ a ∈ strings', a ∈ strings) : Distinct U strings' :=
  fun a member b member' => distinct a (sub a member) b (sub b member')

variable {strings : List (List UInt8)} {content : List UInt8} {chunk : SignedChunk}

theorem block_mem (listed : chunk ∈ chunkList U content) : chunkBytes content chunk ∈ blocks U content :=
  List.mem_map_of_mem listed

/-- Without a collision, what is vouched for is what was signed. -/
theorem vouched_exact (distinct : Distinct U strings) (listed : chunk ∈ chunkList U content)
    (signed : ∀ b ∈ blocks U content, b ∈ strings) {calm : Prop} {seen : List (List UInt8)}
    (read : ¬ calm → ∀ d ∈ seen, d ∈ strings) {d : List UInt8} (vouched : Vouched U calm content seen chunk d) :
    d = chunkBytes content chunk := by
  rcases vouched with here | ⟨wild, member, length, digest⟩
  · exact here
  · have described := describes U listed
    exact distinct d (read wild d member) _ (signed _ (block_mem listed)) (length.trans described.length.symm)
      (digest.trans described.hash)

/-- Chunks that are the same are chunks of the same bytes. -/
theorem same_exact (distinct : Distinct U strings) {old new : List UInt8} {c : SignedChunk}
    (listed : c ∈ chunkList U old) (listed' : chunk ∈ chunkList U new) (signed : ∀ b ∈ blocks U old, b ∈ strings)
    (signed' : ∀ b ∈ blocks U new, b ∈ strings) (same : c.same chunk = true) :
    chunkBytes old c = chunkBytes new chunk := by
  have described := describes U listed
  have described' := describes U listed'
  obtain ⟨hash, size⟩ := same_iff.mp same
  refine distinct _ (signed _ (block_mem listed)) _ (signed' _ (block_mem listed')) ?_ ?_
  · rw [described.length, described'.length, size]
  · rw [← described.hash, ← described'.hash, hash]

/-! ### The meaning of a delta -/

section
variable {old new : List UInt8}

/-- The position of a chunk fits into 64 bits. -/
theorem index_exact (small : old.length ≤ STREAMOFF_MAX) {j : Nat} {c : SignedChunk}
    (here : (chunkList U old)[j]? = some c) : (UInt64.ofNat j).toNat = j := by
  obtain ⟨inside, _⟩ := List.getElem?_eq_some_iff.mp here
  have few := few_chunks U old
  have max : STREAMOFF_MAX = 2 ^ 63 - 1 := rfl
  rw [UInt64.toNat_ofNat']
  exact Nat.mod_eq_of_lt (by omega)

/-- An entry that was made from the signed bytes evaluates to its chunk. -/
theorem made_evaluates (small : old.length ≤ STREAMOFF_MAX) {i : Nat} (listed : chunk ∈ chunkList U new)
    (same : ∀ c ∈ chunkList U old, c.same chunk = true → chunkBytes old c = chunkBytes new chunk) {entry : Written}
    (made : Made (chunkList U old) (fun c d => d = chunkBytes old c) (fun c d => d = chunkBytes new c) i chunk entry) :
    evaluate U old (chunkList U old) entry.record = some (chunkBytes new chunk) := by
  have described := describes U listed
  cases made with
  | @original source c here equal =>
    show (chunkList U old)[(UInt64.ofNat source).toNat]?.bind (fun c =>
      if c.hash = chunk.hash then some (chunkBytes old c) else none) = _
    rw [index_exact small here, here, Option.bind_some, if_pos (same_iff.mp equal).1, same c (List.mem_of_getElem? here) equal]
  | added data =>
    subst data
    exact if_pos described.hash.symm
  | @modified c old_data data opcodes here old_bytes bytes _ _ _ rebuilt =>
    subst old_bytes bytes
    have size : (UInt64.ofNat (chunkBytes new chunk).length).toNat = (chunkBytes new chunk).length :=
      ofNat_size (by rw [described.length]; exact described.small)
    show (chunkList U old)[(UInt64.ofNat i).toNat]?.bind (fun c =>
      (rebuild (chunkBytes old c) (UInt64.ofNat (chunkBytes new chunk).length).toNat opcodes).bind fun out =>
        if U.digest out = chunk.hash then some out else none) = _
    rw [index_exact small here, here, Option.bind_some, size, rebuilt, Option.bind_some, if_pos described.hash.symm]

theorem entries_evaluate (small : old.length ≤ STREAMOFF_MAX)
    (same : ∀ c ∈ chunkList U old, ∀ chunk ∈ chunkList U new, c.same chunk = true →
      chunkBytes old c = chunkBytes new chunk) :
    ∀ (news : List SignedChunk) (i : Nat) (entries : List Written), (∀ c ∈ news, c ∈ chunkList U new) →
      MadeFrom (chunkList U old) (fun c d => d = chunkBytes old c) (fun c d => d = chunkBytes new c) i news entries →
      (entries.map Written.record).mapM (evaluate U old (chunkList U old)) = some (news.map (chunkBytes new)) := by
  intro news
  induction news with
  | nil =>
    intro i entries _ made
    cases made
    rfl
  | cons chunk news ih =>
    intro i entries listed made
    obtain ⟨first, rest⟩ := List.forall_mem_cons.mp listed
    cases made with
    | @cons _ entry _ entries here made =>
      have evaluated := made_evaluates small first (fun c member => same c member chunk first) here
      rw [List.map_cons, List.mapM_cons, evaluated, ih (i + 1) entries rest made]
      rfl

/-- Without a collision, what was built means the new file, block by block. -/
theorem built_means {calm : Prop} {C : Delta.Input → List UInt8} {precomputed : List UInt8} {s : GenerateState}
    {entries : List Written} {trailer delta : List UInt8}
    (built : Built U calm C precomputed s entries trailer delta) (distinct : Distinct U strings)
    (signed : ∀ input, ∀ b ∈ blocks U (C input), b ∈ strings)
    (read : ¬ calm → ∀ input, ∀ d ∈ (Delta.handle s input).seen, d ∈ strings)
    (whole : precomputed = [] ∨ precomputed = streamed U (blocks U (C .new))) :
    Means U (C .old) (chunkList U (C .old)) delta (entries.map Written.record) (blocks U (C .new))
      (streamed U (blocks U (C .new))) := by
  have exact_ : ∀ c ∈ chunkList U (C .new), ∀ d, Read U calm C s c d → d = chunkBytes (C .new) c :=
    fun c member d vouched => vouched_exact distinct member (signed .new) (fun wild => read wild .new) vouched
  have made : MadeFrom (chunkList U (C .old)) (fun c d => d = chunkBytes (C .old) c) (fun c d => d = chunkBytes (C .new) c)
      0 (chunkList U (C .new)) entries := by
    have listed : ∀ q ∈ (chunkList U (C .new)).zipIdx 0, q.1 ∈ chunkList U (C .new) :=
      fun q member => List.fst_mem_of_mem_zipIdx member
    refine ((List.forall₂_and_left _ _).mpr ⟨listed, built.made⟩).imp fun q entry here => here.2.mono ?_ ?_
    · exact fun c member d vouched =>
        vouched_exact distinct member (signed .old) (fun wild => read wild .old) vouched
    · exact exact_ q.1 here.1
  have closes : trailer = streamed U (blocks U (C .new)) := by
    rcases built.closes with ⟨some, rfl⟩ | ⟨parts, all, rfl⟩
    · exact whole.resolve_left some
    · have same := ((List.forall₂_and_left _ _).mpr ⟨fun c member => member, all⟩).imp
        fun c d here => (exact_ c here.1 d here.2).symm
      rw [← List.forall₂_map_left_iff, List.forall₂_eq_eq_eq] at same
      rw [← same, blocks]
  refine ⟨closes ▸ built.shape, ?_⟩
  refine entries_evaluate (built.small .old) ?_ _ 0 entries (fun c member => member) made
  exact fun c member chunk member' =>
    same_exact distinct member member' (signed .old) (signed .new)

/-- The applier rebuilds a file from a delta that means it. -/
theorem means_applies {delta : List UInt8} {records : List Record} (fits : old.length ≤ STREAMOFF_MAX)
    (fits' : new.length ≤ STREAMOFF_MAX)
    (means : Means U old (chunkList U old) delta records (blocks U new) (streamed U (blocks U new)))
    {env : Environment} {sys : System} {old_file_path delta_file_path output : Path} (undisturbed : Undisturbed env)
    (ready : Ready env sys old delta old_file_path delta_file_path output) :
    let run := Apply.apply_delta env RKFinger.rolling U old_file_path delta_file_path output UINT64_MAX sys
    (∃ stats, run.result = .ok stats) ∧ run.system.Holds env output new := by
  intro run
  obtain ⟨s₀, _, outcome⟩ := apply_delta_calm (U := U) undisturbed fits ready UINT64_MAX
  split at outcome
  · obtain ⟨records', outs, means', _, sys', holds, whole⟩ := outcome
    obtain ⟨rfl, _, _⟩ := isDelta_unique (x := []) means.1 means'.1 rfl
    obtain rfl : blocks U new = outs := Option.some.inj (means.2.symm.trans means'.2)
    rw [blocks_flatten] at holds
    exact ⟨⟨_, by simp only [run, whole]; rfl⟩, by simp only [run, whole]; exact holds⟩
  · obtain ⟨exceeds, _⟩ := outcome
    have beyond := exceeds records (blocks U new) means
    have max : STREAMOFF_MAX = 2 ^ 63 - 1 := rfl
    have limit : UINT64_MAX = 2 ^ 64 - 1 := rfl
    rw [blocks_flatten] at beyond
    omega

end

/-! ### The generation -/

section
variable {env : Environment} {α : Type}

theorem staging_runs {m : OutputM α} {s : GenerateState} {a : α} {t : OutputTransaction} {sys : System}
    (run : m (s.transaction, s.system) = .ok a (t, sys)) :
    Delta.staging m s = .ok a { s with transaction := t, system := sys } := by
  simp only [Delta.staging, run]

/-- A method of the transaction leaves the rest of the generator alone. -/
theorem staging_ok {m : OutputM α} {s s' : GenerateState} {a : α} (run : Delta.staging m s = .ok a s') :
    ∃ t sys, m (s.transaction, s.system) = .ok a (t, sys) ∧ s' = { s with transaction := t, system := sys } := by
  unfold Delta.staging at run
  cases ran : m (s.transaction, s.system) with
  | ok b q =>
    obtain ⟨t, sys⟩ := q
    simp only [ran] at run
    obtain ⟨rfl, rfl⟩ := EStateM.Result.ok.inj run
    exact ⟨t, sys, rfl, rfl⟩
  | error e q =>
    simp only [ran] at run
    cases run

/-- The contents the two inputs were signed with. -/
def contents (old new : List UInt8) : Delta.Input → List UInt8
  | .old => old
  | .new => new

/-- A generation that ends with a commit. -/
structure Delivers (env : Environment) (U : StrongHash) (calm : Prop) (old new precomputed : List UInt8)
    (delta_file : Path) (run : GenerateRun) (s : GenerateState) (entries : List Written) (trailer delta : List UInt8) :
    Prop where
  built : Built U calm (contents old new) precomputed s entries trailer delta
  holds : run.system.Holds env delta_file delta
  checked : run.checked = some delta
  old_seen : run.old.seen = s.old.seen
  new_seen : run.file.seen = s.file.seen

variable {old new : List UInt8} {original newfile : Signature} {oldfile file_to_check delta_file : Path}

/-- What a path leads to stays, unless the destination leads to it as well. -/
def Spares (env : Environment) (delta_file : Path) (sys sys' : System) : Prop :=
  ∀ (p : Path) (bytes : List UInt8), sys.Holds env p bytes → (∀ i, sys.fs.lookup (env.locate p) = .at (.file i) →
    sys.fs.lookup (env.locate delta_file) ≠ .at (.file i)) → sys'.Holds env p bytes

/-- What a generation that succeeded did with its inputs open: `build` ran on an empty
    output `t` and left `a`, and what `a` has there was committed. -/
structure Succeeds (env : Environment) (U : StrongHash) (original newfile : Signature) (delta_file : Path) (s : System)
    (f g : FileIo) (run : GenerateRun) (stats : DeltaStats) (t : OutputTransaction) (sys : System) (a : GenerateState) :
    Prop where
  empty : Stores [] t.file_
  quiet : t.file_.io_error_ = false
  built : Delta.build U original newfile { old := f, file := g, transaction := t, system := sys } = .ok () a
  holds : run.system.Holds env delta_file a.transaction.file_.f_.data
  spares : Spares env delta_file s run.system
  checked : run.checked = some a.transaction.file_.f_.data
  counts : stats = { chunks_processed := a.chunks_processed, bytes_written := a.bytes_written }
  old_seen : run.old.seen = a.old.seen
  new_seen : run.file.seen = a.file.seen

theorem opened_succeeds {s : System}
    (ours : ∀ k < OutputTransaction.ATTEMPTS, s.fs.names (env.locate (attempt env s delta_file k)) = none →
      Ours env (attempt env s delta_file k)) (f g : FileIo) :
    let run := Delta.generate_opened env U original newfile oldfile file_to_check delta_file
      { old := f, file := g, transaction := {}, system := s }
    ∀ stats, run.result = .ok stats →
      ∃ t sys a, Succeeds env U original newfile delta_file s f g run stats t sys a := by
  intro run stats ok
  set a : GenerateState := { old := f, file := g, transaction := {}, system := s } with aIs
  have opened := Atomic.leaves_output (s := a) (open_spec ours [oldfile, file_to_check])
  have runIs : run = Delta.generate_opened env U original newfile oldfile file_to_check delta_file a := rfl
  unfold Delta.generate_opened at runIs
  cases first : Delta.staging (OutputTransaction.open_ env delta_file [oldfile, file_to_check]) a with
  | error e a₁ =>
    simp only [first] at runIs
    rw [runIs] at ok
    cases ok
  | ok _ a₁ =>
    simp only [first] at runIs
    obtain ⟨⟨live, p, _, created⟩, counted⟩ := opened.of_ok first
    obtain ⟨t, sys, _, rfl⟩ := staging_ok first
    have empty := Atomic.open_created live created
    have begun : Atomic.Counted env (Creates env delta_file [oldfile, file_to_check] s) s.fs s.moments delta_file
        (written { a with transaction := t, system := sys }) := ⟨[], empty, fun _ => counted⟩
    have body := keeps_build Atomic.keeps_emit U original newfile { a with transaction := t, system := sys } begun
    cases second : Delta.build U original newfile { a with transaction := t, system := sys } with
    | error e a₂ =>
      simp only [second] at runIs
      rw [runIs] at ok
      cases ok
    | ok _ a₂ =>
      simp only [second] at runIs
      obtain ⟨content, ⟨live₂, _⟩, _⟩ := body.of_ok second
      have commits := Atomic.leaves_output (s := a₂) (commit_spec live₂)
      cases third : Delta.staging (OutputTransaction.commit env) a₂ with
      | error e a₃ =>
        simp only [third] at runIs
        rw [runIs] at ok
        cases ok
      | ok _ a₃ =>
        simp only [third] at runIs
        obtain ⟨⟨committed, _⟩, _⟩ := commits.of_ok third
        obtain ⟨t', sys', _, rfl⟩ := staging_ok third
        obtain ⟨inode, named, stored⟩ := committed.shows
        have released := committed.released
        have shut := committed.shut
        refine ⟨t, sys, a₂, empty.stores, congrArg FileIo.io_error_ created, second, ?_, ?_, ?_, ?_, ?_, ?_⟩
        · rw [runIs]
          exact destroy_holds env released shut ⟨inode, lookup_file named, stored⟩
        · intro p bytes there apart
          rw [runIs]
          exact destroy_holds env released shut (committed_holds committed there apart)
        · rw [runIs]
          rfl
        · rw [runIs] at ok
          exact (Except.ok.inj ok).symm
        · rw [runIs]
          rfl
        · rw [runIs]
          rfl

/-- A generation that succeeds has built its delta and committed it, whatever
    happened to its inputs. -/
theorem opened_delivers (signs : Signs U old original) (signs' : Signs U new newfile) {s : System}
    (ours : ∀ k < OutputTransaction.ATTEMPTS, s.fs.names (env.locate (attempt env s delta_file k)) = none →
      Ours env (attempt env s delta_file k)) {f g : FileIo} (swaps : Swaps old f.f_) (swaps' : Swaps new g.f_) :
    let run := Delta.generate_opened env U original newfile oldfile file_to_check delta_file
      { old := f, file := g, transaction := {}, system := s }
    ∀ stats, run.result = .ok stats → Spares env delta_file s run.system ∧ ∃ s' entries trailer delta,
      Delivers env U False old new newfile.whole_file_hash delta_file run s' entries trailer delta := by
  intro run stats ok
  obtain ⟨t, sys, a, succeeds⟩ := opened_succeeds ours f g stats ok
  obtain ⟨old_chunks, _⟩ := signs.spec
  obtain ⟨new_chunks, whole⟩ := signs'.spec
  have here : At U False (contents old new) [] { old := f, file := g, transaction := t, system := sys } := by
    refine ⟨fun input => ?_, ⟨succeeds.empty, succeeds.quiet, False.elim⟩, fun entry impossible => by cases impossible⟩
    cases input with
    | old => exact ⟨swaps, False.elim⟩
    | new => exact ⟨swaps', False.elim⟩
  have builds := build_spec (C := contents old new) (fun _ => False.elim) False.elim old_chunks new_chunks
    (fun some => by rw [whole.resolve_left some, streamed_length]) False.elim here
  obtain ⟨entries, trailer, delta, built⟩ := builds.of_ok succeeds.built
  obtain rfl : a.transaction.file_.f_.data = delta := (built.output.stores.stored built.output.quiet).1
  exact ⟨succeeds.spares, a, entries, trailer, _, built, succeeds.holds, succeeds.checked, succeeds.old_seen,
    succeeds.new_seen⟩

/-- What is written does not unstage the file it is written to. -/
theorem keeps_staged {inputs : List Path} (U : StrongHash) (original newfile : Signature) :
    Keeps (fun s => Staged env delta_file inputs s.transaction s.system) (Delta.build U original newfile) := by
  refine keeps_build (Q := fun q => Staged env delta_file inputs q.1 q.2.1) ?_ U original newfile
  intro bytes what s staged
  have kept : ∀ out, Staged env delta_file inputs { s.transaction with file_ := out } s.system :=
    fun out => ⟨staged.aimed, staged.against, staged.temporary, staged.replaceable⟩
  unfold Leaves Delta.writing DeltaWriter.emit
  dsimp only
  rcases s.transaction.file_.write_chunk bytes with ⟨_ | _, out⟩
  · exact kept out
  · exact kept out

/-- Where nothing is disturbed, a generation succeeds. -/
theorem opened_calm (undisturbed : Undisturbed env) (signs : Signs U old original) (signs' : Signs U new newfile)
    {s : System} (usable : Usable env s delta_file [oldfile, file_to_check])
    (present : ∀ input ∈ [oldfile, file_to_check], Present env s.fs input) (small : old.length ≤ STREAMOFF_MAX)
    (small' : new.length ≤ STREAMOFF_MAX) (room : U.get_hash_size ≤ STREAMOFF_MAX) {f g : FileIo} (opened : Opened old f)
    (opened' : Opened new g) :
    let run := Delta.generate_opened env U original newfile oldfile file_to_check delta_file
      { old := f, file := g, transaction := {}, system := s }
    (∃ stats, run.result = .ok stats) ∧ ∃ s' entries trailer delta,
      Delivers env U True old new newfile.whole_file_hash delta_file run s' entries trailer delta := by
  intro run
  obtain ⟨quiet, still⟩ := undisturbed
  set a : GenerateState := { old := f, file := g, transaction := {}, system := s } with aIs
  obtain ⟨old_chunks, _⟩ := signs.spec
  obtain ⟨new_chunks, whole⟩ := signs'.spec
  obtain ⟨t, sys, stages, staged, empty⟩ := open_calm quiet still usable present
  have first := staging_runs (s := a) stages
  have here : At U True (contents old new) [] { a with transaction := t, system := sys } := by
    refine ⟨fun input => ?_, ⟨empty.stores, empty.quiet, fun _ => empty⟩, fun entry impossible => by cases impossible⟩
    cases input with
    | old => exact steady_input opened.steady
    | new => exact steady_input opened'.steady
  have sized : Sized (contents old new) { a with transaction := t, system := sys } := by
    intro input
    cases input with
    | old => exact opened.size
    | new => exact opened'.size
  have fits : ∀ input, True → (contents old new input).length ≤ STREAMOFF_MAX := by
    intro input _
    cases input with
    | old => exact small
    | new => exact small'
  have builds := build_spec (C := contents old new) fits (fun _ => room) old_chunks new_chunks
    (fun some => by rw [whole.resolve_left some, streamed_length]) (fun _ => sized) here
  have keeps : Keeps (fun s => Staged env delta_file [oldfile, file_to_check] s.transaction s.system)
      (Delta.build U original newfile) := keeps_staged U original newfile
  cases second : Delta.build U original newfile { a with transaction := t, system := sys } with
  | error e a₂ => exact absurd trivial (builds.of_error second)
  | ok _ a₂ =>
    obtain ⟨entries, trailer, delta, built⟩ := builds.of_ok second
    have appends := built.output.appends trivial
    obtain ⟨t', sys', commits, holds, released, shut⟩ := commit_calm quiet ((keeps _ staged).of_ok second) appends
    have third := staging_runs (s := a₂) commits
    have runIs : run = Delta.conclude env
        (.ok { chunks_processed := a₂.chunks_processed, bytes_written := a₂.bytes_written })
        (some a₂.transaction.file_.f_.data) { a₂ with transaction := t', system := sys' } := by
      simp only [run, Delta.generate_opened, ← aIs, first, second, third]
    refine ⟨⟨_, by rw [runIs]; rfl⟩, a₂, entries, trailer, delta, built, ?_, ?_, ?_, ?_⟩
    · rw [runIs]
      exact destroy_holds env released shut holds
    · rw [runIs]
      exact congrArg some appends.data
    · rw [runIs]
      rfl
    · rw [runIs]
      rfl

/-! ### The runs -/

variable {sys : System}

/-- A generation that succeeds has opened its inputs, one after the other. -/
theorem generate_opens {stats : DeltaStats}
    (ok : (Delta.generate_delta env U original newfile oldfile file_to_check delta_file sys).result = .ok stats) :
    ∃ f g clock clock', FileIo.open_in env oldfile sys = (true, f, later sys clock) ∧
      FileIo.open_in env file_to_check (later sys clock) = (true, g, later (later sys clock) clock') ∧
      Delta.generate_delta env U original newfile oldfile file_to_check delta_file sys =
        Delta.generate_opened env U original newfile oldfile file_to_check delta_file
          { old := f, file := g, transaction := {}, system := later (later sys clock) clock' } := by
  unfold Delta.generate_delta at ok ⊢
  have untouched := open_in_untouched env oldfile sys
  cases first : FileIo.open_in env oldfile sys with
  | mk opened rest =>
    obtain ⟨f, sys₁⟩ := rest
    rw [first] at untouched
    simp only [first] at ok ⊢
    cases opened with
    | false => cases ok
    | true =>
      obtain ⟨clock, rfl⟩ := untouched
      have untouched' := open_in_untouched env file_to_check (later sys clock)
      dsimp only at ok ⊢
      cases second : FileIo.open_in env file_to_check (later sys clock) with
      | mk opened rest =>
        obtain ⟨g, sys₂⟩ := rest
        rw [second] at untouched'
        simp only [second] at ok
        cases opened with
        | false => cases ok
        | true =>
          obtain ⟨clock', rfl⟩ := untouched'
          exact ⟨f, g, clock, clock', rfl, second, rfl⟩

theorem generate_delivers (signs : Signs U old original) (signs' : Signs U new newfile)
    (ours : ∀ k < OutputTransaction.ATTEMPTS, sys.fs.names (env.locate (attempt env sys delta_file k)) = none →
      Ours env (attempt env sys delta_file k)) (replaced : Replaced env sys oldfile old)
    (replaced' : Replaced env sys file_to_check new) :
    let run := Delta.generate_delta env U original newfile oldfile file_to_check delta_file sys
    ∀ stats, run.result = .ok stats → Spares env delta_file sys run.system ∧ ∃ s' entries trailer delta,
      Delivers env U False old new newfile.whole_file_hash delta_file run s' entries trailer delta := by
  intro run stats ok
  obtain ⟨f, g, clock, clock', first, second, runIs⟩ := generate_opens ok
  have swaps := open_in_swaps replaced first
  have swaps' := open_in_swaps (replaced_later clock replaced') second
  have same : run = _ := runIs
  rw [same] at ok ⊢
  exact opened_delivers (s := later (later sys clock) clock') signs signs' ours swaps swaps' stats ok

theorem generate_calm (undisturbed : Undisturbed env) (signs : Signs U old original) (signs' : Signs U new newfile)
    (holds : sys.Holds env oldfile old) (holds' : sys.Holds env file_to_check new)
    (usable : Usable env sys delta_file [oldfile, file_to_check]) (small : old.length ≤ STREAMOFF_MAX)
    (small' : new.length ≤ STREAMOFF_MAX) (room : U.get_hash_size ≤ STREAMOFF_MAX) :
    let run := Delta.generate_delta env U original newfile oldfile file_to_check delta_file sys
    (∃ stats, run.result = .ok stats) ∧ ∃ s' entries trailer delta,
      Delivers env U True old new newfile.whole_file_hash delta_file run s' entries trailer delta := by
  have first := open_in_quiet undisturbed.quiet holds (by rw [undisturbed.still])
  have second := open_in_quiet (s := { sys with clock := sys.clock + 2 }) undisturbed.quiet holds'
    (by rw [undisturbed.still])
  rw [undisturbed.still] at first second
  have present : ∀ input ∈ [oldfile, file_to_check], Present env sys.fs input := by
    intro input member
    rcases List.mem_pair.mp member with rfl | rfl
    · exact ⟨_, holds.choose_spec.1⟩
    · exact ⟨_, holds'.choose_spec.1⟩
  have generated := opened_calm (s := { sys with clock := sys.clock + 2 + 2 }) undisturbed signs signs'
    ⟨usable.named, usable.replaceable, usable.free⟩ present small small' room (opened_opened old true)
    (opened_opened new true)
  unfold Delta.generate_delta
  simp only [first, second]
  exact generated

/-- Applied to the old file without a limit, wherever nothing is disturbed, the
    delta yields the new file. -/
def Rebuilds (U : StrongHash) (old delta new : List UInt8) : Prop :=
  ∀ (env : Environment) (sys : System) (old_file_path delta_file_path output : Path), Undisturbed env →
    Ready env sys old delta old_file_path delta_file_path output →
    let run := Apply.apply_delta env RKFinger.rolling U old_file_path delta_file_path output UINT64_MAX sys
    (∃ stats, run.result = .ok stats) ∧ run.system.Holds env output new

theorem delivers_rebuilds {calm : Prop} {precomputed : List UInt8} {run : GenerateRun} {s : GenerateState}
    {entries : List Written} {trailer delta : List UInt8}
    (delivers : Delivers env U calm old new precomputed delta_file run s entries trailer delta)
    (whole : precomputed = [] ∨ precomputed = streamed U (blocks U new)) {strings : List (List UInt8)}
    (distinct : Distinct U strings) (signed : ∀ b ∈ blocks U old ++ blocks U new, b ∈ strings)
    (read : ¬ calm → ∀ d ∈ run.old.seen ++ run.file.seen, d ∈ strings) : Rebuilds U old delta new := by
  intro env sys old_file_path delta_file_path output undisturbed ready
  have built := delivers.built
  refine means_applies (built.small .old) (built.small .new) (built_means built distinct ?_ ?_ whole) undisturbed ready
  · intro input b member
    cases input with
    | old => exact signed b (List.mem_append_left _ member)
    | new => exact signed b (List.mem_append_right _ member)
  · intro wild input d member
    cases input with
    | old => exact read wild d (List.mem_append_left _ (by rw [delivers.old_seen]; exact member))
    | new => exact read wild d (List.mem_append_right _ (by rw [delivers.new_seen]; exact member))

/-- Of two files that do not change, the delta that is generated from their
    signatures rebuilds the new one from the old one. No file and no digest is larger
    than an offset can say. -/
theorem create_apply_round_trip (undisturbed : Undisturbed env) (holds : sys.Holds env oldfile old)
    (holds' : sys.Holds env file_to_check new) (usable : Usable env sys delta_file [oldfile, file_to_check])
    (small : old.length ≤ STREAMOFF_MAX) (small' : new.length ≤ STREAMOFF_MAX)
    (room : U.get_hash_size ≤ STREAMOFF_MAX) (distinct : Distinct U (blocks U old ++ blocks U new)) {f g : FileIo}
    (opened : Opened old f) (opened' : Opened new g) (mode mode' : WholeFileHash) :
    ∃ original f' newfile g', Signature.generate_signatures RKFinger.rolling U f mode = (true, original, f') ∧
      Signature.generate_signatures RKFinger.rolling U g mode' = (true, newfile, g') ∧
      let run := Delta.generate_delta env U original newfile oldfile file_to_check delta_file sys
      (∃ stats, run.result = .ok stats) ∧ run.system.Holds env oldfile old ∧
        ∃ delta, run.system.Holds env delta_file delta ∧ Rebuilds U old delta new := by
  obtain ⟨_, f', _, signed, _⟩ := generate_spec U mode opened
  obtain ⟨_, g', _, signed', _⟩ := generate_spec U mode' opened'
  refine ⟨_, f', _, g', signed, signed', ?_⟩
  intro run
  have signs : Signs U old _ := ⟨mode, f, f', opened, signed⟩
  have signs' : Signs U new _ := ⟨mode', g, g', opened', signed'⟩
  obtain ⟨⟨stats, ok⟩, s', entries, trailer, delta, delivers⟩ :=
    generate_calm undisturbed signs signs' holds holds' usable small small' room
  have replaced : ∀ {p : Path} {content : List UInt8}, sys.Holds env p content → Replaced env sys p content :=
    fun there => ⟨_, there, .inl (by rw [undisturbed.still]; rfl)⟩
  obtain ⟨spares, _⟩ := generate_delivers signs signs'
    (fun k _ _ e member => by rw [undisturbed.still] at member; cases member) (replaced holds) (replaced holds') stats ok
  refine ⟨⟨stats, ok⟩, spares oldfile old holds ?_, delta, delivers.holds, ?_⟩
  · intro i leads leads'
    rcases usable.replaceable with missing | ⟨j, there, apart⟩
    · rw [leads'] at missing
      cases missing
    · obtain ⟨node, found, other⟩ := apart oldfile (by simp)
      rw [leads] at found
      rw [leads'] at there
      cases found
      cases there
      exact other rfl
  · exact delivers_rebuilds delivers signs'.spec.2 distinct (fun _ member => member) (fun wild => absurd trivial wild)

/-- Where each input is replaced at most once, at any operation on it or before, the
    delta of a generation that succeeds rebuilds what the new file was signed with from
    what the old one was. -/
theorem generation_is_sound (signs : Signs U old original) (signs' : Signs U new newfile)
    (ours : ∀ k < OutputTransaction.ATTEMPTS, sys.fs.names (env.locate (attempt env sys delta_file k)) = none →
      Ours env (attempt env sys delta_file k)) (replaced : Replaced env sys oldfile old)
    (replaced' : Replaced env sys file_to_check new) :
    let run := Delta.generate_delta env U original newfile oldfile file_to_check delta_file sys
    Distinct U (blocks U old ++ blocks U new ++ run.old.seen ++ run.file.seen) → ∀ stats, run.result = .ok stats →
      ∃ delta, run.system.Holds env delta_file delta ∧ Rebuilds U old delta new := by
  intro run distinct stats ok
  obtain ⟨_, s', entries, trailer, delta, delivers⟩ := generate_delivers signs signs' ours replaced replaced' stats ok
  refine ⟨delta, delivers.holds, delivers_rebuilds delivers signs'.spec.2 distinct ?_ ?_⟩
  · intro b member
    exact List.mem_append_left _ (List.mem_append_left _ member)
  · intro _ d member
    rw [List.append_assoc]
    exact List.mem_append_right _ member

/-! ### Well-formed deltas -/

/-- What the record of a new chunk is made of: its digest, an old chunk by a valid
    index, the size of the chunk, and the opcodes of a diff to it. -/
structure Suits (U : StrongHash) (old new : List UInt8) (chunk : SignedChunk) (r : Record) : Prop where
  digest : r.header.digest = chunk.hash
  source : r.header.references_old = true → r.header.old_index.toNat < (chunkList U old).length
  size : r.header.type ≠ .ORIGINAL_CHUNK → r.header.out_size.toNat = chunk.chunk_size
  diff : r.header.type = .MODIFIED_CHUNK → ∃ c diff scratch scratch',
    (chunkList U old)[r.header.old_index.toNat]? = some c ∧
    Diff.createDiff (chunkBytes old c) (chunkBytes new chunk) scratch = some (diff, scratch') ∧
    Many IsOpcode r.opcodes diff

theorem vouched_calm {seen : List (List UInt8)} {d : List UInt8} (vouched : Vouched U True content seen chunk d) :
    d = chunkBytes content chunk := vouched.resolve_right fun wild => wild.1 trivial

theorem made_suits (small : old.length ≤ STREAMOFF_MAX) {seen seen' : List (List UInt8)} {i : Nat}
    (listed : chunk ∈ chunkList U new) {entry : Written} (made : Made (chunkList U old) (Vouched U True old seen)
      (Vouched U True new seen') i chunk entry) : Suits U old new chunk entry.record := by
  have described := describes U listed
  have length : (UInt64.ofNat (chunkBytes new chunk).length).toNat = chunk.chunk_size := by
    rw [described.length]
    exact ofNat_size described.small
  cases made with
  | original here _ =>
    have place := index_exact small here
    refine ⟨rfl, fun _ => ?_, fun other => absurd rfl other, fun other => by cases other⟩
    exact place.symm ▸ (List.getElem?_eq_some_iff.mp here).1
  | added data =>
    obtain rfl := vouched_calm data
    exact ⟨rfl, fun other => (by cases other), fun _ => length, fun other => (by cases other)⟩
  | @modified c _ _ opcodes here old_bytes bytes diffed _ writable _ =>
    obtain rfl := vouched_calm old_bytes
    obtain rfl := vouched_calm bytes
    obtain ⟨scratch, scratch', made⟩ := diffed
    have place := index_exact small here
    refine ⟨rfl, fun _ => ?_, fun _ => length, fun _ => ⟨c, _, scratch, scratch', ?_, made, isRun_bytes writable⟩⟩
    · exact place.symm ▸ (List.getElem?_eq_some_iff.mp here).1
    · exact (congrArg _ place).trans here

theorem entries_suit (small : old.length ≤ STREAMOFF_MAX) {seen seen' : List (List UInt8)} :
    ∀ (news : List SignedChunk) (i : Nat) (entries : List Written), (∀ c ∈ news, c ∈ chunkList U new) →
      MadeFrom (chunkList U old) (Vouched U True old seen) (Vouched U True new seen') i news entries →
      List.Forall₂ (Suits U old new) news (entries.map Written.record) := by
  intro news
  induction news with
  | nil =>
    intro i entries _ made
    cases made
    exact .nil
  | cons chunk news ih =>
    intro i entries listed made
    obtain ⟨first, rest⟩ := List.forall_mem_cons.mp listed
    cases made with
    | cons here made => exact .cons (made_suits small first here) (ih (i + 1) _ rest made)

/-- Whatever collides, the delta of two files that do not change has a record for each
    new chunk, is read back whole, and is accepted by the viewer. -/
theorem generated_well_formed (undisturbed : Undisturbed env) (signs : Signs U old original)
    (signs' : Signs U new newfile) (holds : sys.Holds env oldfile old) (holds' : sys.Holds env file_to_check new)
    (usable : Usable env sys delta_file [oldfile, file_to_check]) (small : old.length ≤ STREAMOFF_MAX)
    (small' : new.length ≤ STREAMOFF_MAX) (trailer_size : U.get_hash_size = BLAKE2B_HASH_SIZE) :
    let run := Delta.generate_delta env U original newfile oldfile file_to_check delta_file sys
    (∃ stats, run.result = .ok stats) ∧ ∃ delta records trailer, run.system.Holds env delta_file delta ∧
      IsDelta BLAKE2B_HASH_SIZE records trailer delta ∧
      (∃ r, readDelta (delta.length + 1)
        { in_ := FileIo.opened delta none true, trailer_digest_size_ := BLAKE2B_HASH_SIZE } =
          .ok (records, some trailer, .End) r) ∧
      List.Forall₂ (Suits U old new) (chunkList U new) records ∧
      DeltaViewer.view_delta env delta_file run.system = 0 := by
  intro run
  have room : U.get_hash_size ≤ STREAMOFF_MAX := by
    rw [trailer_size]
    decide
  obtain ⟨ok, s', entries, trailer, delta, delivers⟩ :=
    generate_calm undisturbed signs signs' holds holds' usable small small' room
  have shape := delivers.built.shape
  rw [trailer_size] at shape
  refine ⟨ok, delta, _, trailer, delivers.holds, shape, ?_, ?_, ?_⟩
  · exact readDelta_spec shape ⟨opened_feeds true, rfl⟩
  · exact entries_suit small _ 0 entries (fun c member => member) delivers.built.made
  · exact ((Viewing.view_delta_calm undisturbed.quiet delivers.holds (undisturbed.still delta_file)).resolve_right
      fun refused => refused.2 ⟨_, trailer, shape⟩).1

end

/-! ### Two small files -/

/-- The signature of a file of these bytes. -/
def signature (U : StrongHash) (content : List UInt8) (mode : WholeFileHash) : Signature :=
  (Signature.generate_signatures RKFinger.rolling U (FileIo.opened content none true) mode).2.1

theorem signs_signature (U : StrongHash) (content : List UInt8) (mode : WholeFileHash) :
    Signs U content (signature U content mode) := by
  have opened := opened_opened content true
  obtain ⟨_, f', _, run, _⟩ := generate_spec U mode opened
  refine ⟨mode, _, f', opened, ?_⟩
  rw [signature, run]

/-- An old and a new file. -/
def filePair (old new : List UInt8) : System := { fs := .holding [((0, "old"), old), ((0, "new"), new)] }

theorem usable_filePair (old new : List UInt8) :
    Usable {} (filePair old new) ⟨"", "delta"⟩ [⟨"", "old"⟩, ⟨"", "new"⟩] :=
  ⟨by simp, .inl rfl, 0, by decide, rfl, by simp⟩

theorem filePair_old (old new : List UInt8) : (filePair old new).Holds {} ⟨"", "old"⟩ old := ⟨0, rfl, rfl⟩

theorem filePair_new (old new : List UInt8) : (filePair old new).Holds {} ⟨"", "new"⟩ new := ⟨1, rfl, rfl⟩

/-- Two files of one byte. -/
def bytePair (old new : UInt8) : System := { fs := .holding [((0, "old"), [old]), ((0, "new"), [new])] }

theorem usable_bytePair (old new : UInt8) :
    Usable {} (bytePair old new) ⟨"", "delta"⟩ [⟨"", "old"⟩, ⟨"", "new"⟩] :=
  ⟨by decide, .inl rfl, 0, by decide, rfl, by simp⟩

/-- `create_apply_round_trip` for files of one byte. -/
theorem create_apply_round_trip_bytes :
    ∃ original f' newfile g',
      Signature.generate_signatures RKFinger.rolling .padded (FileIo.opened [7] none true) .Skip = (true, original, f') ∧
      Signature.generate_signatures RKFinger.rolling .padded (FileIo.opened [8] none true) .Compute =
        (true, newfile, g') ∧
      let run := Delta.generate_delta {} .padded original newfile ⟨"", "old"⟩ ⟨"", "new"⟩ ⟨"", "delta"⟩ (bytePair 7 8)
      (∃ stats, run.result = .ok stats) ∧ run.system.Holds {} ⟨"", "old"⟩ [7] ∧
        ∃ delta, run.system.Holds {} ⟨"", "delta"⟩ delta ∧ Rebuilds .padded [7] delta [8] :=
  create_apply_round_trip undisturbed_default ⟨0, rfl, rfl⟩ ⟨1, rfl, rfl⟩ (usable_bytePair 7 8) (by decide) (by decide)
    (by decide) (by unfold Distinct; decide +kernel) (opened_opened [7] true) (opened_opened [8] true) .Skip .Compute

/-- `generated_well_formed` for files of one byte. -/
theorem generated_well_formed_bytes :
    let run := Delta.generate_delta {} .padded (signature .padded [7] .Skip) (signature .padded [8] .Skip) ⟨"", "old"⟩
      ⟨"", "new"⟩ ⟨"", "delta"⟩ (bytePair 7 8)
    (∃ stats, run.result = .ok stats) ∧ ∃ delta records trailer, run.system.Holds {} ⟨"", "delta"⟩ delta ∧
      IsDelta BLAKE2B_HASH_SIZE records trailer delta ∧
      (∃ r, readDelta (delta.length + 1)
        { in_ := FileIo.opened delta none true, trailer_digest_size_ := BLAKE2B_HASH_SIZE } =
          .ok (records, some trailer, .End) r) ∧
      List.Forall₂ (Suits .padded [7] [8]) (chunkList .padded [8]) records ∧
      DeltaViewer.view_delta {} ⟨"", "delta"⟩ run.system = 0 :=
  generated_well_formed undisturbed_default (signs_signature .padded [7] .Skip) (signs_signature .padded [8] .Skip)
    ⟨0, rfl, rfl⟩ ⟨1, rfl, rfl⟩ (usable_bytePair 7 8) (by decide) (by decide) rfl

/-- The old file is emptied when it is closed. -/
def emptied : Environment where
  media := fun p => if p.filename = "old" then { events := List.replicate 5 {} ++ [{ replaced := some [] }] } else {}

/-- A run in which the new file was replaced before it was opened. -/
def staleRun : GenerateRun :=
  Delta.generate_delta emptied .padded (signature .padded [7] .Skip) (signature .padded [7] .Compute) ⟨"", "old"⟩
    ⟨"", "new"⟩ ⟨"", "delta"⟩ (bytePair 7 9)

/-- `generation_is_sound` where both files are replaced. -/
theorem generation_is_sound_stale : ∃ delta, staleRun.system.Holds emptied ⟨"", "delta"⟩ delta ∧ Rebuilds .padded [7] delta [7] := by
  have ours : ∀ k < OutputTransaction.ATTEMPTS, ∀ e ∈ (emptied.media (attempt emptied (bytePair 7 9) ⟨"", "delta"⟩ k)).events,
      e.replaced = none := by decide +kernel
  have distinct : Distinct .padded (blocks .padded [7] ++ blocks .padded [7] ++ staleRun.old.seen ++ staleRun.file.seen) := by
    unfold Distinct
    decide +kernel
  have ok : staleRun.result = .ok { chunks_processed := 1, bytes_written := 91 } := by decide +kernel
  have replaced : Replaced emptied (bytePair 7 9) ⟨"", "old"⟩ [7] := ⟨[7], ⟨0, rfl, rfl⟩, .inr ⟨rfl, [], rfl⟩⟩
  have replaced' : Replaced emptied (bytePair 7 9) ⟨"", "new"⟩ [7] := ⟨[9], ⟨1, rfl, rfl⟩, .inl rfl⟩
  exact generation_is_sound (signs_signature .padded [7] .Skip) (signs_signature .padded [7] .Compute)
    (fun k inside _ => ours k inside) replaced replaced' distinct _ ok

end Roll.Creating
