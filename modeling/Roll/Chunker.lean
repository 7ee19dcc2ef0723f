import Roll.Calm
import Roll.Chunking
import Roll.Construction
import Roll.Signature

/-!
`generate_signatures` chunks a file by the content-defined boundary.

`Progress` is the invariant of its loop: the pieces emitted so far, the chunk
read so far and what the handle still delivers make up the file. `Full` says
that the chunk has its window and that no part of it is a boundary.
-/
namespace Roll.Chunker
open Roll.Cursor Roll.Chunking Roll.RollingSum Roll.Fingerprint

/-! ### The boundary -/

/-- The fingerprint of a window of bytes: its polynomial value in base 256
    modulo `2^31 - 1`. -/
def fingerprint (w : List UInt8) : UInt64 := UInt64.ofNat (value 256 (digits w) % 2147483647)

/-- The last 48 bytes, or all where there are fewer. -/
def lastWindow (w : List UInt8) : List UInt8 := w.drop (w.length - 48)

/-- The bits of the fingerprint that a boundary is found by, at this length of the
    chunk: fourteen, and twelve from the target length on. -/
def wanted (length : Nat) : UInt64 := if length < 8192 then 0x3FFF else 0x0FFF

/-- Where a chunk ends. -/
def Boundary (w : List UInt8) : Prop :=
  w.length = 16384 ∨ 512 ≤ w.length ∧ fingerprint (lastWindow w) &&& wanted w.length = 0x2AAB &&& wanted w.length

instance (w : List UInt8) : Decidable (Boundary w) := inferInstanceAs (Decidable (_ ∨ _))

/-! The numbers are those of the format. -/

theorem lastWindow_eq (w : List UInt8) : lastWindow w = w.drop (w.length - WINDOW_DEF_SIZE) := rfl

theorem boundary_iff (w : List UInt8) : Boundary w ↔ w.length = DELTA_MAX_CHUNK_SIZE ∨ DELTA_MIN_CHUNK_SIZE ≤ w.length ∧
    fingerprint (lastWindow w) &&& Signature.mask w.length = DELTA_BOUNDARY_TARGET &&& Signature.mask w.length := Iff.rfl

/-- The signed chunks of these pieces, the first at `offset`. -/
def sign (U : StrongHash) : Nat → List (List UInt8) → List SignedChunk
  | _, [] => []
  | offset, c :: cs =>
    { signature := fingerprint (lastWindow c), hash := (U.hash c).take 16, start_offset := offset, chunk_size := c.length } ::
      sign U (offset + c.length) cs

theorem sign_nil (U : StrongHash) (offset : Nat) : sign U offset [] = [] := rfl

theorem sign_cons (U : StrongHash) (offset : Nat) (c : List UInt8) (cs : List (List UInt8)) : sign U offset (c :: cs) =
    { signature := fingerprint (lastWindow c), hash := U.digest c, start_offset := offset, chunk_size := c.length } ::
      sign U (offset + c.length) cs := rfl

theorem sign_append (U : StrongHash) : ∀ (cs ds : List (List UInt8)) (offset : Nat),
    sign U offset (cs ++ ds) = sign U offset cs ++ sign U (offset + cs.flatten.length) ds := by
  intro cs
  induction cs with
  | nil =>
    intro ds offset
    rfl
  | cons c cs ih =>
    intro ds offset
    simp only [List.cons_append, sign, ih, List.flatten_cons, List.length_append, Nat.add_assoc]

theorem sign_length (U : StrongHash) : ∀ (cs : List (List UInt8)) (offset : Nat), (sign U offset cs).length = cs.length := by
  intro cs
  induction cs with
  | nil =>
    intro offset
    rfl
  | cons c cs ih =>
    intro offset
    rw [sign, List.length_cons, ih, List.length_cons]

/-- A piece has at most the maximal size, and one that is not the last at
    least the minimal. -/
theorem uncut_short {w : List UInt8} (uncut : Uncut Boundary w) : w.length < DELTA_MAX_CHUNK_SIZE := by
  by_contra long
  have whole : (w.take DELTA_MAX_CHUNK_SIZE).length = DELTA_MAX_CHUNK_SIZE := by
    rw [List.length_take]
    omega
  refine uncut _ (List.take_prefix _ w) ?_ (.inl whole)
  intro empty
  rw [empty] at whole
  cases whole

theorem boundary_long {w : List UInt8} (boundary : Boundary w) : DELTA_MIN_CHUNK_SIZE ≤ w.length := by
  rcases boundary with full | ⟨long, _⟩
  · rw [full]
    decide
  · exact long

theorem piece_short {w : List UInt8} {cs : List (List UInt8)} (pieces : Pieces Boundary w cs) :
    ∀ c ∈ cs, c.length ≤ DELTA_MAX_CHUNK_SIZE := by
  intro c member
  by_contra long
  have whole : (c.take DELTA_MAX_CHUNK_SIZE).length = DELTA_MAX_CHUNK_SIZE := by
    rw [List.length_take]
    omega
  refine pieces_shortest pieces c member _ (List.take_prefix _ c) ?_ ?_ (.inl whole)
  · intro same
    rw [same] at whole
    omega
  · intro empty
    rw [empty] at whole
    cases whole

/-! ### The fingerprint of the chunk -/

/-- The default parameters. -/
structure Default (r : RKFinger) : Prop where
  ready : Ready r
  alphabet : r.alphabet_size_.toNat = 256
  window_size : r.window_size_ = WINDOW_DEF_SIZE
  modulus : r.modulus_.toNat = 2147483647

theorem default_default : Default RKFinger.default :=
  ⟨(Construction.constructed_ready (.inl rfl)).1, default_parameters.1, default_parameters.2.1, default_parameters.2.2⟩

theorem fingerprint_eq {v : UInt64} {w : List UInt8} (same : v.toNat = value 256 (digits w) % 2147483647) :
    v = fingerprint w := by
  apply UInt64.toNat_inj.mp
  have small : value 256 (digits w) % 2147483647 < 2147483647 := Nat.mod_lt _ (by decide)
  rw [fingerprint, UInt64.toNat_ofNat', same]
  exact (Nat.mod_eq_of_lt (Nat.lt_trans small (by decide))).symm

theorem lastWindow_short {w : List UInt8} (short : w.length ≤ WINDOW_DEF_SIZE) : lastWindow w = w := by
  rw [lastWindow_eq, Nat.sub_eq_zero_of_le short, List.drop_zero]

/-- One more byte moves the last window on. -/
theorem lastWindow_append {w w' : List UInt8} {a b : UInt8} (long : WINDOW_DEF_SIZE ≤ w.length)
    (here : lastWindow w = a :: w') : lastWindow (w ++ [b]) = w' ++ [b] := by
  have tail : w.drop (w.length - WINDOW_DEF_SIZE + 1) = w' := by
    have dropped : (lastWindow w).tail = w' := by rw [here, List.tail_cons]
    rwa [lastWindow_eq, List.tail_drop] at dropped
  have le : w.length - WINDOW_DEF_SIZE + 1 ≤ w.length := by
    have : WINDOW_DEF_SIZE = 48 := rfl
    omega
  rw [lastWindow_eq, List.length_append, List.length_singleton,
    show w.length + 1 - WINDOW_DEF_SIZE = w.length - WINDOW_DEF_SIZE + 1 by omega,
    List.drop_append_of_le_length le, tail]

/-- The test of the loop is the boundary. -/
theorem boundary_found_iff {w : List UInt8} (short : w.length ≤ DELTA_MAX_CHUNK_SIZE) :
    Signature.boundary_found w.length (fingerprint (lastWindow w)) = true ↔ Boundary w := by
  unfold Signature.boundary_found
  rw [boundary_iff]
  by_cases full : w.length ≥ DELTA_MAX_CHUNK_SIZE
  · have same : w.length = DELTA_MAX_CHUNK_SIZE := by omega
    simp [same]
  · have other : w.length ≠ DELTA_MAX_CHUNK_SIZE := by omega
    rw [if_neg full]
    by_cases long : w.length ≥ DELTA_MIN_CHUNK_SIZE
    · rw [if_pos long, beq_iff_eq]
      simp [other, long]
    · rw [if_neg long]
      simp [other, long]

/-! ### The loop -/

variable {U : StrongHash} {content : List UInt8} {start : Option U.State}

abbrev State (U : StrongHash) := Signature.Chunker RKFinger.rolling U

structure Progress (content : List UInt8) (start : Option U.State) (done : List (List UInt8)) (rest : List UInt8)
    (s : State U) : Prop where
  feeds : Feeds content s.file rest false
  size : s.file.size_ = content.length
  tile : content = done.flatten ++ (s.chunk ++ rest)
  bytes : s.bytes_read = done.flatten.length + s.chunk.length
  chunks : s.chunks = sign U 0 done
  whole : s.whole = start.map (fun state => done.foldl U.update state)
  done : ∀ r cs, Pieces Boundary r cs → Pieces Boundary (done.flatten ++ r) (done ++ cs)
  parameters : Default s.fingerprint

/-- The chunk so far, of which no part is a boundary, and its fingerprint. -/
structure Residual (s : State U) : Prop where
  uncut : Uncut Boundary s.chunk
  print : s.current_fingerprint = fingerprint (lastWindow s.chunk)

structure Full (s : State U) : Prop where
  residual : Residual s
  long : WINDOW_DEF_SIZE ≤ s.chunk.length
  tracks : Tracks s.fingerprint (lastWindow s.chunk)

/-- A window of bytes has no boundary in it. -/
theorem uncut_window {w : List UInt8} (short : w.length ≤ WINDOW_DEF_SIZE) : Uncut Boundary w := by
  intro p inside _ boundary
  have le := List.IsPrefix.length_le inside
  have long := boundary_long boundary
  have : WINDOW_DEF_SIZE = 48 := rfl
  have : DELTA_MIN_CHUNK_SIZE = 512 := rfl
  omega

/-- Seeding the fingerprint with the bytes that begin a chunk. -/
theorem seed_spec {r : RKFinger} (parameters : Default r) {w : List UInt8} (short : w.length ≤ WINDOW_DEF_SIZE) :
    (r.initialize_window w).1 = decide (WINDOW_DEF_SIZE ≤ w.length) ∧ Default (r.initialize_window w).2 ∧
      (r.initialize_window w).2.fingerprint_ = fingerprint (lastWindow w) ∧
      (w.length = WINDOW_DEF_SIZE → Tracks (r.initialize_window w).2 (lastWindow w)) := by
  obtain ⟨ready, alphabet, window_size, modulus⟩ := parameters
  obtain ⟨full, ready', window_size', modulus', alphabet', print, tracks⟩ :=
    initialize_spec ready w (by rw [window_size]; exact short)
  rw [alphabet, modulus] at print
  rw [lastWindow_short short]
  refine ⟨?_, ⟨ready', ?_, ?_, ?_⟩, fingerprint_eq print, ?_⟩
  · rw [full, window_size]
  · rw [alphabet', alphabet]
  · rw [window_size', window_size]
  · rw [modulus', modulus]
  · intro length
    exact tracks (by rw [length, window_size])

/-- A chunk that begins with these bytes. -/
def seeded (s : State U) (file : FileIo) (w : List UInt8) : State U :=
  { s with
    file := file
    fingerprint := (s.fingerprint.initialize_window w).2
    chunk := w
    current_fingerprint := (s.fingerprint.initialize_window w).2.fingerprint_
    bytes_read := s.bytes_read + w.length }

theorem next_window_spec {done : List (List UInt8)} {rest : List UInt8} {s : State U}
    (progress : Progress content start done rest s) (empty : s.chunk = []) :
    ∃ s', Signature.next_window s = (decide (WINDOW_DEF_SIZE ≤ rest.length), s') ∧
      Progress content start done (rest.drop WINDOW_DEF_SIZE) s' ∧ s'.chunk = rest.take WINDOW_DEF_SIZE ∧
      (rest ≠ [] → Residual s') ∧ (WINDOW_DEF_SIZE ≤ rest.length → Full s') := by
  obtain ⟨feeds, size, tile, bytes, chunks, whole, ahead, parameters⟩ := progress
  have window_size : RKFinger.rolling.get_window_size s.fingerprint = WINDOW_DEF_SIZE := parameters.window_size
  rcases read_chunk_spec feeds WINDOW_DEF_SIZE with ⟨⟨broken, _⟩, _⟩ | ⟨read, feeds'⟩
  · cases broken
  have size' : (s.file.read_chunk WINDOW_DEF_SIZE).2.size_ = content.length := by
    rw [read_chunk_size, size]
  unfold Signature.next_window
  rw [window_size, show s.file.read_chunk WINDOW_DEF_SIZE =
    (rest.take WINDOW_DEF_SIZE, (s.file.read_chunk WINDOW_DEF_SIZE).2) by rw [← read]]
  simp only
  by_cases ended : rest = []
  · subst ended
    refine ⟨{ s with file := (s.file.read_chunk WINDOW_DEF_SIZE).2 }, by rw [if_pos (by simp)]; rfl, ⟨feeds', size', ?_, bytes, chunks, whole, ahead, parameters⟩, ?_, ?_, ?_⟩
    · simpa using tile
    · simpa using empty
    · intro some
      exact absurd rfl some
    · intro long
      cases long
  · have some : ¬ rest.take WINDOW_DEF_SIZE = [] := by
      simp [WINDOW_DEF_SIZE, ended]
    have short : (rest.take WINDOW_DEF_SIZE).length ≤ WINDOW_DEF_SIZE := List.length_take_le _ _
    obtain ⟨full, parameters', print, tracks⟩ := seed_spec parameters short
    have enough : (WINDOW_DEF_SIZE ≤ (rest.take WINDOW_DEF_SIZE).length) ↔ WINDOW_DEF_SIZE ≤ rest.length := by
      rw [List.length_take]
      omega
    refine ⟨seeded s (s.file.read_chunk WINDOW_DEF_SIZE).2 (rest.take WINDOW_DEF_SIZE), ?_,
      ⟨feeds', size', ?_, ?_, chunks, whole, ahead, parameters'⟩, rfl, ?_, ?_⟩
    · rw [if_neg some]
      exact Prod.ext (full.trans (decide_eq_decide.mpr enough)) rfl
    · simp only [seeded]
      rw [tile, empty, List.nil_append, List.take_append_drop]
    · simp only [seeded, bytes, empty, List.length_nil, Nat.add_zero]
    · intro _
      exact ⟨uncut_window short, print⟩
    · intro long
      exact ⟨⟨uncut_window short, print⟩, enough.mpr long, tracks (by rw [List.length_take]; omega)⟩

/-- The chunk with one more byte, and its fingerprint. -/
def pushed (s : State U) (file : FileIo) (byte : UInt8) : State U :=
  { s with
    file := file
    bytes_read := s.bytes_read + 1
    chunk := s.chunk ++ [byte]
    current_fingerprint := (s.fingerprint.compute_next byte).1
    fingerprint := (s.fingerprint.compute_next byte).2 }

theorem pushed_spec {done : List (List UInt8)} {rest : List UInt8} {byte : UInt8} {s : State U} {file : FileIo}
    (progress : Progress content start done (byte :: rest) s) (full : Full s) (feeds : Feeds content file rest false)
    (size : file.size_ = content.length) :
    Progress content start done rest (pushed s file byte) ∧
      (pushed s file byte).current_fingerprint = fingerprint (lastWindow (s.chunk ++ [byte])) ∧
      Tracks (pushed s file byte).fingerprint (lastWindow (s.chunk ++ [byte])) ∧
      (¬ Boundary (s.chunk ++ [byte]) → Full (pushed s file byte)) := by
  obtain ⟨_, _, tile, bytes, chunks, whole, ahead, parameters⟩ := progress
  obtain ⟨⟨uncut, _⟩, long, tracks⟩ := full
  obtain ⟨w', here, tracks', print, window_size, modulus, alphabet⟩ := compute_next_spec tracks byte
  rw [← lastWindow_append long here] at tracks'
  have default : Default (s.fingerprint.compute_next byte).2 :=
    ⟨tracks'.ready, by rw [alphabet, parameters.alphabet], by rw [window_size, parameters.window_size],
      by rw [modulus, parameters.modulus]⟩
  have value := tracks'.value
  rw [default.alphabet, default.modulus, ← print] at value
  refine ⟨⟨feeds, size, ?_, ?_, chunks, whole, ahead, default⟩, fingerprint_eq value, tracks', ?_⟩
  · rw [tile]
    simp [pushed]
  · simp only [pushed, bytes, List.length_append, List.length_singleton]
    omega
  · intro inside
    refine ⟨⟨?_, fingerprint_eq value⟩, ?_, tracks'⟩
    · intro p part some
      rcases List.prefix_concat_iff.mp part with rfl | part
      · exact inside
      · exact uncut p part some
    · simp only [pushed, List.length_append, List.length_singleton]
      omega

/-- A chunk that ends at a boundary is emitted, and the next one begins. -/
theorem emitted_spec {done : List (List UInt8)} {rest : List UInt8} {s : State U}
    (progress : Progress content start done rest s) (print : s.current_fingerprint = fingerprint (lastWindow s.chunk))
    (ahead : ∀ r cs, Pieces Boundary r cs → Pieces Boundary (s.chunk ++ r) (s.chunk :: cs)) :
    Progress content start (done ++ [s.chunk]) rest { Signature.emit_chunk s with chunk := [] } := by
  obtain ⟨feeds, size, tile, bytes, chunks, whole, before, parameters⟩ := progress
  refine ⟨feeds, size, ?_, ?_, ?_, ?_, ?_, parameters⟩
  · rw [tile]
    simp
  · simp [Signature.emit_chunk, bytes]
  · simp only [Signature.emit_chunk, chunks, sign_append, sign_cons, sign_nil, print, bytes, Nat.add_sub_cancel, Nat.zero_add,
      StrongHash.digest]
  · simp only [Signature.emit_chunk, whole, List.foldl_append, List.foldl_cons, List.foldl_nil, Option.map_map]
    rfl
  · intro r cs pieces
    have both := before _ _ (ahead r cs pieces)
    simpa using both

/-- Where the loop ends: the file is read, and what is left in the chunk is
    the last piece. -/
structure Ended (content : List UInt8) (start : Option U.State) (s : State U) : Prop where
  progress : ∃ done, Progress content start done [] s
  residual : s.chunk ≠ [] → Residual s

theorem loop_ends (fuel : Nat) {s : State U} {file : FileIo} (ended : s.file.read_byte = (none, file)) :
    Signature.loop (fuel + 1) false s = { s with file := file } := by
  simp only [Signature.loop, Bool.false_eq_true, if_false, ended]

theorem loop_reads (fuel : Nat) {s : State U} {file : FileIo} {byte : UInt8} (answer : s.file.read_byte = (some byte, file)) :
    Signature.loop (fuel + 1) false s =
      if Signature.boundary_found (pushed s file byte).chunk.length (pushed s file byte).current_fingerprint then
        Signature.loop fuel true { Signature.emit_chunk (pushed s file byte) with chunk := [] }
      else Signature.loop fuel false (pushed s file byte) := by
  simp only [Signature.loop, Bool.false_eq_true, if_false, answer]
  rfl

theorem loop_spec : ∀ (fuel : Nat) (init : Bool) (done : List (List UInt8)) (rest : List UInt8) (s : State U),
    Progress content start done rest s → (if init then s.chunk = [] else Full s) → rest.length < fuel →
    Ended content start (Signature.loop fuel init s) := by
  intro fuel
  induction fuel with
  | zero =>
    intro init done rest s _ _ enough
    omega
  | succ fuel ih =>
    -- Once the chunk is full, the next byte is read.
    have read : ∀ (done : List (List UInt8)) (rest : List UInt8) (s : State U), Progress content start done rest s →
        Full s → rest.length < fuel + 1 → Ended content start (Signature.loop (fuel + 1) false s) := by
      intro done rest s progress full enough
      rcases read_byte_spec progress.feeds with ⟨broken, _⟩ | ⟨result, feeds⟩
      · cases broken
      have size : s.file.read_byte.2.size_ = content.length := by rw [read_byte_size, progress.size]
      have answer : s.file.read_byte = (rest.head?, s.file.read_byte.2) := by rw [← result]
      generalize s.file.read_byte.2 = file at feeds size answer
      cases rest with
      | nil =>
        rw [loop_ends fuel answer]
        obtain ⟨_, _, tile, bytes, chunks, whole, ahead, parameters⟩ := progress
        exact ⟨⟨done, feeds, size, tile, bytes, chunks, whole, ahead, parameters⟩,
          fun _ => ⟨full.residual.uncut, full.residual.print⟩⟩
      | cons byte rest =>
        obtain ⟨progress', print, tracks, uncut⟩ := pushed_spec progress full feeds size
        have short : (s.chunk ++ [byte]).length ≤ DELTA_MAX_CHUNK_SIZE := by
          have := uncut_short full.residual.uncut
          rw [List.length_append, List.length_singleton]
          omega
        have test := boundary_found_iff short
        have chunkIs : (pushed s file byte).chunk = s.chunk ++ [byte] := rfl
        rw [loop_reads fuel answer, print, chunkIs]
        by_cases boundary : Boundary (s.chunk ++ [byte])
        · rw [if_pos (test.mpr boundary)]
          have ahead : ∀ r cs, Pieces Boundary r cs →
              Pieces Boundary ((pushed s file byte).chunk ++ r) ((pushed s file byte).chunk :: cs) := by
            intro r cs pieces
            refine .cut (by simp [pushed]) boundary ?_ pieces
            intro p part other some
            rcases List.prefix_concat_iff.mp part with rfl | part
            · exact absurd rfl other
            · exact full.residual.uncut p part some
          have next := emitted_spec progress' print ahead
          exact ih true _ rest _ next rfl (by simp at enough; omega)
        · rw [if_neg (fun found => boundary (test.mp found))]
          exact ih false done rest _ progress' (uncut boundary) (by simp at enough; omega)
    intro init done rest s progress shape enough
    cases init with
    | false => exact read done rest s progress shape enough
    | true =>
      obtain ⟨s', run, progress', chunk, residual, full⟩ := next_window_spec progress shape
      unfold Signature.loop
      rw [if_pos rfl, run]
      by_cases long : WINDOW_DEF_SIZE ≤ rest.length
      · rw [decide_eq_true long]
        have fewer : (rest.drop WINDOW_DEF_SIZE).length < fuel + 1 := by
          rw [List.length_drop]
          omega
        exact read done _ s' progress' (full long) fewer
      · rw [decide_eq_false long]
        rw [List.drop_of_length_le (by omega)] at progress'
        refine ⟨⟨done, progress'⟩, fun some => residual ?_⟩
        rintro rfl
        exact some (by rw [chunk]; rfl)

/-! ### Signatures -/

/-- The digest of the whole file, over its pieces. -/
def wholeHash (U : StrongHash) (mode : WholeFileHash) (cs : List (List UInt8)) : List UInt8 :=
  if mode = .Compute then U.finalize (cs.foldl U.update U.init) else []

/-- The hasher of the whole file, when it is asked for. -/
def startOf (U : StrongHash) (mode : WholeFileHash) : Option U.State := if mode = .Compute then some U.init else none

theorem finish_spec {s : State U} {cs : List (List UInt8)} (mode : WholeFileHash) (feeds : Feeds content s.file [] false)
    (size : s.file.size_ = content.length) (bytes : s.bytes_read = content.length) (chunks : s.chunks = sign U 0 cs)
    (whole : s.whole = (startOf U mode).map (fun state => cs.foldl U.update state)) :
    Signature.finish s = (true, { chunks := sign U 0 cs, whole_hash_ := wholeHash U mode cs }, s.file) := by
  have quiet : s.file.io_error_ = false := feeds.calm rfl
  have good : ¬ (s.file.has_error || decide (s.bytes_read ≠ s.file.size)) = true := by
    simp [FileIo.has_error, FileIo.size, quiet, bytes, size]
  have digest : (s.whole.map U.finalize).getD [] = wholeHash U mode cs := by
    rw [whole, startOf, wholeHash]
    cases mode <;> rfl
  rw [Signature.finish, if_neg good, digest, chunks]

/-- The end of the loop: what is left in the chunk is emitted. -/
theorem ended_spec {s : State U} (mode : WholeFileHash) (ended : Ended content (startOf U mode) s) :
    ∃ cs f, Pieces Boundary content cs ∧
      Signature.finish (if s.chunk.length > 0 then Signature.emit_chunk s else s) =
        (true, { chunks := sign U 0 cs, whole_hash_ := wholeHash U mode cs }, f) ∧ Feeds content f [] false ∧
      f.size_ = content.length := by
  obtain ⟨⟨done, feeds, size, tile, bytes, chunks, whole, before, _⟩, residual⟩ := ended
  by_cases empty : s.chunk = []
  · have pieces := before [] [] .nil
    rw [List.append_nil] at pieces
    have flat : content = done.flatten := by
      rw [tile, empty]
      simp
    refine ⟨done, s.file, by rw [flat]; simpa using pieces, ?_, feeds, size⟩
    rw [if_neg (by simp [empty])]
    exact finish_spec mode feeds size (by rw [bytes, empty, flat]; simp) chunks whole
  · obtain ⟨uncut, print⟩ := residual empty
    have pieces := before s.chunk [s.chunk] (.last empty uncut)
    have flat : content = done.flatten ++ s.chunk := by
      rw [tile]
      simp
    refine ⟨done ++ [s.chunk], s.file, by rw [flat]; exact pieces, ?_, feeds, size⟩
    rw [if_pos (List.length_pos_iff.mpr empty)]
    refine finish_spec (s := Signature.emit_chunk s) mode feeds size ?_ ?_ ?_
    · simp only [Signature.emit_chunk]
      rw [bytes, flat, List.length_append]
    · simp only [Signature.emit_chunk, chunks, sign_append, sign_cons, sign_nil, print, bytes, Nat.add_sub_cancel, Nat.zero_add,
        StrongHash.digest]
    · simp only [Signature.emit_chunk, whole, List.foldl_append, List.foldl_cons, List.foldl_nil, Option.map_map]
      rfl

/-- A handle that was opened on `content` and that nothing disturbs. -/
structure Opened (content : List UInt8) (f : FileIo) : Prop where
  steady : Steady content f
  size : f.size_ = content.length

theorem opened_opened (content : List UInt8) (handsOver : Bool) :
    Opened content (FileIo.opened content none handsOver) :=
  ⟨(Calm.opened_feeds handsOver).steady, rfl⟩

theorem generate_spec (U : StrongHash) (mode : WholeFileHash) {f : FileIo} (opened : Opened content f) :
    ∃ cs f', Pieces Boundary content cs ∧ Signature.generate_signatures RKFinger.rolling U f mode =
      (true, { chunks := sign U 0 cs, whole_hash_ := wholeHash U mode cs }, f') ∧ Opened content f' := by
  obtain ⟨read, feeds⟩ := read_chunk_at_spec opened.steady WINDOW_DEF_SIZE (p := 0) (by decide)
  have size : (f.read_chunk_at WINDOW_DEF_SIZE 0).2.size_ = content.length := by rw [read_chunk_at_size, opened.size]
  rw [List.drop_zero] at read
  rw [Nat.zero_add] at feeds
  have window : RKFinger.rolling.get_window_size RKFinger.rolling.fresh = WINDOW_DEF_SIZE :=
    default_parameters.2.1
  unfold Signature.generate_signatures
  rw [if_neg (by simp [FileIo.is_open, opened.steady.stream.opened]), window,
    show f.read_chunk_at WINDOW_DEF_SIZE 0 = (content.take WINDOW_DEF_SIZE, (f.read_chunk_at WINDOW_DEF_SIZE 0).2) by
      rw [← read]]
  generalize (f.read_chunk_at WINDOW_DEF_SIZE 0).2 = file at feeds size
  simp only
  have steady : ∀ {g : FileIo}, Feeds content g [] false → g.size_ = content.length → Opened content g :=
    fun feeds size => ⟨feeds.steady, size⟩
  by_cases none : content.take WINDOW_DEF_SIZE = []
  · have empty : content = [] := by simpa [WINDOW_DEF_SIZE] using none
    rw [if_pos none]
    subst empty
    refine ⟨[], file, .nil, ?_, steady (by simpa using feeds) size⟩
    exact finish_spec mode (by simpa using feeds) size rfl rfl (by cases mode <;> rfl)
  · rw [if_neg none]
    have short : (content.take WINDOW_DEF_SIZE).length ≤ WINDOW_DEF_SIZE := List.length_take_le _ _
    obtain ⟨full, parameters, print, tracks⟩ := seed_spec default_default short
    -- The state of the loop after the first window.
    set s : State U :=
      { file, fingerprint := (RKFinger.default.initialize_window (content.take WINDOW_DEF_SIZE)).2
        chunk := content.take WINDOW_DEF_SIZE
        current_fingerprint := (RKFinger.default.initialize_window (content.take WINDOW_DEF_SIZE)).2.fingerprint_
        bytes_read := (content.take WINDOW_DEF_SIZE).length, chunks := [], whole := startOf U mode } with sIs
    have progress : Progress content (startOf U mode) [] (content.drop WINDOW_DEF_SIZE) s := by
      refine ⟨feeds, size, ?_, ?_, rfl, ?_, fun r cs pieces => pieces, parameters⟩
      · simp [sIs]
      · simp [sIs]
      · cases mode <;> rfl
    have residual : Residual s := ⟨uncut_window short, print⟩
    have flag : (RKFinger.rolling.initialize_window (content.take WINDOW_DEF_SIZE) RKFinger.rolling.fresh).1 =
        decide (WINDOW_DEF_SIZE ≤ (content.take WINDOW_DEF_SIZE).length) := full
    rw [flag]
    by_cases long : WINDOW_DEF_SIZE ≤ (content.take WINDOW_DEF_SIZE).length
    · rw [decide_eq_true long, if_neg (by simp)]
      have start : Full s := ⟨residual, long, tracks (by omega)⟩
      have reach : file.f_.reach = content.length := by
        simp [FStream.reach, feeds.stream.data, feeds.stream.events]
      have enough : (content.drop WINDOW_DEF_SIZE).length < file.f_.reach + 1 := by
        rw [List.length_drop, reach]
        omega
      have ended := loop_spec (file.f_.reach + 1) false [] _ s progress start enough
      obtain ⟨cs, f', pieces, run, feeds', size'⟩ := ended_spec mode ended
      exact ⟨cs, f', pieces, run, steady feeds' size'⟩
    · rw [decide_eq_false long, if_pos (show (!false) = true from rfl)]
      have nothing : content.drop WINDOW_DEF_SIZE = [] := by
        rw [List.length_take] at long
        exact List.drop_eq_nil_iff.mpr (by omega)
      rw [nothing] at progress
      obtain ⟨cs, f', pieces, run, feeds', size'⟩ := ended_spec mode ⟨⟨[], progress⟩, fun _ => residual⟩
      rw [if_pos (List.length_pos_iff.mpr none)] at run
      exact ⟨cs, f', pieces, run, steady feeds' size'⟩

/-- The chunk list of a file, as a new signature has it. -/
def chunkList (U : StrongHash) (content : List UInt8) : List SignedChunk :=
  (Signature.generate_signatures RKFinger.rolling U (FileIo.opened content none true) .Skip).2.1.get_chunks

theorem chunkList_spec (U : StrongHash) (content : List UInt8) :
    ∃ cs, Pieces Boundary content cs ∧ chunkList U content = sign U 0 cs := by
  obtain ⟨cs, f', pieces, run, _⟩ := generate_spec U .Skip (opened_opened content true)
  exact ⟨cs, pieces, by rw [chunkList, run]; rfl⟩

theorem chunkList_pieces (U : StrongHash) {content : List UInt8} {cs : List (List UInt8)}
    (pieces : Pieces Boundary content cs) : chunkList U content = sign U 0 cs := by
  obtain ⟨cs', pieces', list⟩ := chunkList_spec U content
  rw [list, pieces_unique pieces' pieces]

-- Nothing below depends on how the list is computed, only on what it is.
attribute [irreducible] chunkList

/-- `generate_signatures` lists the pieces of the file: they are determined by
    it, tile it and keep the bounds on their size. -/
theorem generate_signatures_chunks (U : StrongHash) (mode : WholeFileHash) {f : FileIo} (opened : Opened content f) :
    ∃ cs sig f', Signature.generate_signatures RKFinger.rolling U f mode = (true, sig, f') ∧
      Pieces Boundary content cs ∧ (∀ cs', Pieces Boundary content cs' → cs' = cs) ∧
      sig.get_chunks = sign U 0 cs ∧ cs.flatten = content ∧ (∀ c ∈ cs, 1 ≤ c.length ∧ c.length ≤ 16384) ∧
      (∀ pre c post, cs = pre ++ c :: post → post ≠ [] → 512 ≤ c.length) ∧
      (U.Streams → mode = .Compute → sig.whole_file_hash = U.hash content) := by
  obtain ⟨cs, f', pieces, run, _⟩ := generate_spec U mode opened
  refine ⟨cs, _, f', run, pieces, fun cs' pieces' => pieces_unique pieces' pieces, rfl, pieces_flatten pieces, ?_, ?_, ?_⟩
  · intro c member
    exact ⟨List.length_pos_iff.mpr (pieces_ne_nil pieces c member), piece_short pieces c member⟩
  · intro pre c post split more
    exact boundary_long (pieces_accepted pieces split more)
  · intro streams compute
    show wholeHash U mode cs = _
    rw [wholeHash, if_pos compute, streams, pieces_flatten pieces]

/-- A piece is not cut before it is long enough. -/
theorem not_boundary_short {p : List UInt8} (short : p.length < 512) : ¬ Boundary p := by
  rintro (full | ⟨long, _⟩)
  · omega
  · omega

theorem last_short {w : List UInt8} (some : w ≠ []) (short : w.length < 512) : Pieces Boundary w [w] := by
  refine .last some fun p part _ => ?_
  have le := part.length_le
  exact not_boundary_short (by omega)

/-- Zeros and the two bytes that make the fingerprint of their window the target. -/
def targetPiece : List UInt8 := List.replicate 510 0 ++ [0x2A, 0xAB]

theorem targetPiece_length : targetPiece.length = 512 := by
  rw [targetPiece, List.length_append, List.length_replicate]
  rfl

theorem targetPiece_accepted : Boundary targetPiece := by decide +kernel

theorem targetPiece_pieces {rest : List UInt8} {cs : List (List UInt8)} (pieces : Pieces Boundary rest cs) :
    Pieces Boundary (targetPiece ++ rest) (targetPiece :: cs) := by
  refine .cut (by decide +kernel) targetPiece_accepted ?_ pieces
  intro p part proper _
  have le := part.length_le
  have other : p.length ≠ targetPiece.length := fun same => proper (part.eq_of_length same)
  have length := targetPiece_length
  exact not_boundary_short (by omega)

/-- One byte before the zeros puts the boundary off by one. -/
theorem inserted_pieces {rest : List UInt8} {cs : List (List UInt8)} (pieces : Pieces Boundary rest cs) :
    Pieces Boundary (5 :: targetPiece ++ rest) ((5 :: targetPiece) :: cs) := by
  refine .cut (List.cons_ne_nil _ _) (by decide +kernel) ?_ pieces
  intro p part proper _
  have le := part.length_le
  have other : p.length ≠ (5 :: targetPiece).length := fun same => proper (part.eq_of_length same)
  have length := targetPiece_length
  rw [List.length_cons] at le other
  by_cases last : p.length = 512
  · have here : p = (5 :: targetPiece).take 512 := by rw [List.prefix_iff_eq_take.mp part, last]
    rw [here]
    decide +kernel
  · exact not_boundary_short (by omega)

/-- `generate_signatures_chunks` for a file that is cut by its content. -/
theorem generate_signatures_cut :
    ∃ sig f', Signature.generate_signatures RKFinger.rolling StrongHash.padded
        (FileIo.opened (targetPiece ++ [7, 8, 9]) none true) .Compute = (true, sig, f') ∧
      sig.get_chunks = sign StrongHash.padded 0 [targetPiece, [7, 8, 9]] ∧
      sig.whole_file_hash = StrongHash.padded.hash (targetPiece ++ [7, 8, 9]) := by
  obtain ⟨cs, sig, f', run, _, unique, signed, _, _, _, hashed⟩ :=
    generate_signatures_chunks StrongHash.padded .Compute (opened_opened (targetPiece ++ [7, 8, 9]) true)
  obtain rfl := unique _ (targetPiece_pieces (last_short (by decide) (by decide)))
  exact ⟨sig, f', run, signed, hashed StrongHash.padded_streams rfl⟩

/-! ### Two files -/

theorem sign_get (U : StrongHash) : ∀ {cs : List (List UInt8)} {offset i : Nat} {x : SignedChunk},
    (sign U offset cs)[i]? = some x →
      ∃ pre c post, cs = pre ++ c :: post ∧ pre.length = i ∧ x.start_offset = offset + pre.flatten.length ∧
        x.chunk_size = c.length ∧ x.hash = U.digest c := by
  intro cs
  induction cs with
  | nil =>
    intro offset i x here
    simp [sign] at here
  | cons c cs ih =>
    intro offset i x here
    cases i with
    | zero =>
      obtain rfl : _ = x := by simpa [sign] using here
      exact ⟨[], c, cs, rfl, rfl, by simp, rfl, rfl⟩
    | succ i =>
      rw [sign, List.getElem?_cons_succ] at here
      obtain ⟨pre, d, post, rfl, length, start, size, hash⟩ := ih here
      refine ⟨c :: pre, d, post, rfl, by simp [length], ?_, size, hash⟩
      rw [start, List.flatten_cons, List.length_append, Nat.add_assoc]

/-- The chunks from index `i` on, where chunk `i` starts at the end of `a`,
    are the signed pieces of what follows `a`. -/
theorem chunkList_after (U : StrongHash) {a s : List UInt8} {i : Nat} {x : SignedChunk}
    (here : (chunkList U (a ++ s))[i]? = some x) (start : x.start_offset = a.length) :
    ∃ cs, Pieces Boundary s cs ∧ (chunkList U (a ++ s)).drop i = sign U a.length cs := by
  obtain ⟨cs, pieces, list⟩ := chunkList_spec U (a ++ s)
  rw [list] at here ⊢
  obtain ⟨pre, c, post, rfl, length, offset, _⟩ := sign_get U here
  rw [Nat.zero_add] at offset
  have flat := pieces_flatten pieces
  rw [List.flatten_append] at flat
  obtain ⟨same, _⟩ := List.append_inj flat (by rw [← offset, start])
  refine ⟨c :: post, pieces_drop pieces (by rw [same]) (by simp), ?_⟩
  rw [sign_append, List.drop_append_of_le_length (by rw [sign_length]; omega), ← same, Nat.zero_add]
  rw [List.drop_of_length_le (by rw [sign_length]; omega), List.nil_append]

/-- The fields of a chunk, its offset seen from another origin. -/
def seenFrom (shift : Nat) (c : SignedChunk) : Nat × List UInt8 × UInt64 × Nat :=
  (c.chunk_size, c.hash, c.signature, c.start_offset + shift)

theorem sign_shift (U : StrongHash) : ∀ (cs : List (List UInt8)) (p q : Nat),
    (sign U p cs).map (seenFrom q) = (sign U q cs).map (seenFrom p) := by
  intro cs
  induction cs with
  | nil =>
    intro p q
    rfl
  | cons c cs ih =>
    intro p q
    have rest := ih (p + c.length) (q + c.length)
    simp only [sign, List.map_cons, seenFrom, List.cons.injEq, Nat.add_comm q p, true_and]
    have moved : ∀ n m : Nat, (sign U n cs).map (seenFrom (m + c.length)) =
        ((sign U n cs).map (seenFrom m)).map (fun t => (t.1, t.2.1, t.2.2.1, t.2.2.2 + c.length)) := by
      intro n m
      simp [seenFrom, Function.comp_def, Nat.add_assoc]
    rw [moved, moved] at rest
    refine List.map_injective_iff.mpr ?_ rest
    rintro ⟨n, h, v, o⟩ ⟨n', h', v', o'⟩ same
    simpa using same

/-- Chunking is local. Where two files have a common end and a chunk begins at
    it in both, the chunks from there on agree; where they have a common
    beginning, the chunks that end within it, but for a last one, agree. -/
theorem chunking_is_local (U : StrongHash) :
    (∀ (a b s : List UInt8) (i j : Nat) (x y : SignedChunk), (chunkList U (a ++ s))[i]? = some x →
        x.start_offset = a.length → (chunkList U (b ++ s))[j]? = some y → y.start_offset = b.length →
        ((chunkList U (a ++ s)).drop i).map (seenFrom b.length) = ((chunkList U (b ++ s)).drop j).map (seenFrom a.length)) ∧
      ∀ (common x y : List UInt8) (i : Nat) (c : SignedChunk), (chunkList U (common ++ x))[i]? = some c →
        c.start_offset + c.chunk_size ≤ common.length → i + 1 < (chunkList U (common ++ x)).length →
        (chunkList U (common ++ y))[i]? = some c := by
  constructor
  · intro a b s i j x y here start here' start'
    obtain ⟨cs, pieces, list⟩ := chunkList_after U here start
    obtain ⟨cs', pieces', list'⟩ := chunkList_after U here' start'
    obtain rfl := pieces_unique pieces pieces'
    rw [list, list', sign_shift]
  · intro common x y i c here inside more
    obtain ⟨cs, pieces, list⟩ := chunkList_spec U (common ++ x)
    obtain ⟨cs', pieces', list'⟩ := chunkList_spec U (common ++ y)
    rw [list] at here more
    rw [list']
    obtain ⟨pre, d, post, rfl, length, start, size, _⟩ := sign_get U here
    have some : post ≠ [] := by
      rintro rfl
      rw [sign_length, List.length_append, List.length_singleton] at more
      omega
    have ends : (pre ++ [d]).flatten.length ≤ common.length := by
      rw [List.flatten_append, List.length_append]
      simpa [start, size] using inside
    obtain ⟨post', rfl⟩ := pieces_common pieces some ends pieces'
    have signed : (sign U 0 pre).length = i := by rw [sign_length, length]
    rw [sign_append, List.getElem?_append_right (by omega), signed, Nat.sub_self, sign] at here ⊢
    exact here

/-- `chunking_is_local` for a file into which a byte is inserted, and for one with
    another end: there are new chunks up to the cut, and the old ones after it. -/
theorem insertion_resyncs :
    let old := chunkList StrongHash.padded (targetPiece ++ [7, 8, 9])
    let new := chunkList StrongHash.padded (5 :: targetPiece ++ [7, 8, 9])
    (old.drop 1).map (seenFrom 513) = (new.drop 1).map (seenFrom 512) ∧
      (chunkList StrongHash.padded (targetPiece ++ [1]))[0]? = old[0]? := by
  have old : chunkList StrongHash.padded (targetPiece ++ [7, 8, 9]) = sign StrongHash.padded 0 [targetPiece, [7, 8, 9]] :=
    chunkList_pieces _ (targetPiece_pieces (last_short (by decide) (by decide)))
  have new : chunkList StrongHash.padded (5 :: targetPiece ++ [7, 8, 9]) =
      sign StrongHash.padded 0 [5 :: targetPiece, [7, 8, 9]] :=
    chunkList_pieces _ (inserted_pieces (last_short (by decide) (by decide)))
  have length := targetPiece_length
  have length' : (5 :: targetPiece).length = 513 := by rw [List.length_cons, length]
  obtain ⟨after, before⟩ := chunking_is_local StrongHash.padded
  have resynced := after targetPiece (5 :: targetPiece) [7, 8, 9] 1 1 _ _ (by rw [old]; rfl) (Nat.zero_add _)
    (by rw [new]; rfl) (Nat.zero_add _)
  have kept := before targetPiece [7, 8, 9] [1] 0 _ (by rw [old]; rfl) (Nat.le_of_eq (Nat.zero_add _))
    (by rw [old]; decide)
  rw [length, length'] at resynced
  exact ⟨resynced, by rw [kept, old]; rfl⟩

end Roll.Chunker
