import Roll.Blake2b
import Roll.Parsing
import Roll.Rfc7693

/-!
The objects of the strong hash, over any order of constructions, moves and calls
and any failures of OpenSSL.

A context is owned by one object, and freed with it. A digest is that of all that
its object, or the objects it was moved from, have been given since `init`.
-/
namespace Roll.Hashing
open Roll.Parsing

/-! ### What OpenSSL documents -/

/-- A hash of OpenSSL, such as `EVP_blake2b512`. -/
structure EvpDigest where
  digest : List UInt8 → List UInt8
  length : ∀ message, (digest message).length = BLAKE2b.HASH_SIZE

/-- The class as the algorithm that the delta code is built from. -/
def strong (D : EvpDigest) : StrongHash where
  State := List UInt8
  init := []
  update state data := state ++ data
  finalize := D.digest
  hash := D.digest
  get_hash_size := BLAKE2b.HASH_SIZE
  finalize_length := D.length
  hash_length := D.length
  enough := by decide

/-- It meets what the results on deltas ask of a strong hash. -/
theorem strong_streams (D : EvpDigest) : (strong D).Streams := by
  intro parts
  exact congrArg D.digest (StrongHash.joined parts [])

/-- What a context holds. Nothing can be given to one, or digested, where no `init` has
    succeeded since it was allocated, finalized, or failed. -/
inductive Context
  | idle
  /-- It was given this message. -/
  | given (message : List UInt8)
  deriving DecidableEq

def Context.message : Context → List UInt8
  | idle => []
  | given message => message

def assign (contexts : Nat → Option Context) (ctx : Option Nat) (context : Option Context) : Nat → Option Context :=
  match ctx with
  | none => contexts
  | some c => Function.update contexts c context

/-- The contexts that are allocated after these calls. -/
def contexts : List EvpCall → Nat → Option Context
  | [] => fun _ => none
  | .new ctx :: before => assign (contexts before) ctx (some .idle)
  | .free ctx :: before => assign (contexts before) (some ctx) none
  | .init ctx success :: before => assign (contexts before) ctx (some (if success then .given [] else .idle))
  | .update ctx data success :: before =>
    let message := ((ctx.bind (contexts before)).getD .idle).message
    assign (contexts before) ctx (some (if success then .given (message ++ data) else .idle))
  | .final ctx _ _ :: before => assign (contexts before) ctx (some .idle)

/-- A call is made on a context that is allocated and, where it needs that, prepared. -/
def Reaches (contexts : Nat → Option Context) : EvpCall → Prop
  | .new _ => True
  | .free ctx => (contexts ctx).isSome
  | .init ctx _ => (ctx.bind contexts).isSome
  | .update ctx _ _ => ∃ message, ctx.bind contexts = some (.given message)
  | .final ctx _ _ => ∃ message, ctx.bind contexts = some (.given message)

/-- The answer is that of OpenSSL. -/
def Answers (E : Evp) (before : List EvpCall) : EvpCall → Prop
  | .new ctx => E.EVP_MD_CTX_new before = ctx
  | .free _ => True
  | .init ctx success => E.EVP_DigestInit_ex before ctx = success
  | .update ctx data success => E.EVP_DigestUpdate before ctx data = success
  | .final ctx out success => (E.EVP_DigestFinal_ex before ctx out).1 = success

/-- Every call was made as OpenSSL asks for. -/
def Proper (E : Evp) : List EvpCall → Prop
  | [] => True
  | call :: before => Proper E before ∧ Reaches (contexts before) call ∧ Answers E before call

/-- What the class relies on. A call may fail at any time. -/
structure Documented (E : Evp) (D : EvpDigest) : Prop where
  /-- A new context is not one that is still allocated. -/
  fresh : ∀ calls c, Proper E calls → E.EVP_MD_CTX_new calls = some c → contexts calls c = none
  /-- What is written is the digest of all that the context was given. -/
  digest : ∀ calls c message out, Proper E calls → contexts calls c = some (.given message) →
    BLAKE2b.HASH_SIZE ≤ out.length → (E.EVP_DigestFinal_ex calls (some c) out).1 = true →
      (E.EVP_DigestFinal_ex calls (some c) out).2 = D.digest message ++ out.drop BLAKE2b.HASH_SIZE

/-- The call has failed. -/
def Failed : EvpCall → Prop
  | .new ctx => ctx = none
  | .free _ => False
  | .init _ success => success = false
  | .update _ _ success => success = false
  | .final _ _ success => success = false

/-! ### What an object is, seen from outside -/

inductive Hasher
  /-- It was moved from. -/
  | moved
  | idle
  /-- It was given this message. -/
  | given (message : List UInt8)
  deriving DecidableEq

/-- An `init` has succeeded, and nothing has failed or been finalized since. -/
def Hasher.begun : Hasher → Bool
  | given _ => true
  | _ => false

def Hasher.message : Hasher → List UInt8
  | given message => message
  | _ => []

/-- A buffer once a digest is written to it. -/
def written (D : EvpDigest) (message out : List UInt8) : List UInt8 :=
  if out.length < BLAKE2b.HASH_SIZE then out else (strong D).hash message ++ out.drop BLAKE2b.HASH_SIZE

section
variable {ι : Type} [DecidableEq ι]

/-- What a method makes of its object. -/
def on (a : ι → Option Hasher) (i : ι) (f : Hasher → Hasher) : ι → Option Hasher := Function.update a i ((a i).map f)

/-- The objects after a use that has returned, or has not. -/
def next (a : ι → Option Hasher) (returned : Bool) : Use ι → ι → Option Hasher
  | .construct i => if a i = none ∧ returned then Function.update a i (some .idle) else a
  | .move_construct i other =>
    match a i, a other with
    | none, some h => Function.update (Function.update a i (some h)) other (some .moved)
    | _, _ => a
  | .move_assign i other =>
    match a i, a other with
    | some _, some h => if i = other then a else Function.update (Function.update a i (some h)) other (some .moved)
    | _, _ => a
  | .destroy i => Function.update a i none
  | .init i => on a i fun _ => if returned then .given [] else .idle
  | .update i data => if data = [] then a else on a i fun h => if returned then .given (h.message ++ data) else .idle
  | .finalize i out => if out.length < BLAKE2b.HASH_SIZE then a else on a i fun _ => .idle
  | .hash i out _ => if out.length < BLAKE2b.HASH_SIZE then a else on a i fun _ => .idle

/-- Methods are called in order, and not on an object that was moved from. -/
def Legal (a : ι → Option Hasher) : Use ι → Prop
  | .init i => a i ≠ some .moved
  | .update i data => data = [] ∨ (a i).all Hasher.begun = true
  | .finalize i out => out.length < BLAKE2b.HASH_SIZE ∨ (a i).all Hasher.begun = true
  | .hash i out _ => out.length < BLAKE2b.HASH_SIZE ∨ a i ≠ some .moved
  | _ => True

instance (a : ι → Option Hasher) : ∀ use, Decidable (Legal a use)
  | .init i => inferInstanceAs (Decidable (a i ≠ some .moved))
  | .update i data => inferInstanceAs (Decidable (data = [] ∨ (a i).all Hasher.begun = true))
  | .finalize i out => inferInstanceAs (Decidable (out.length < BLAKE2b.HASH_SIZE ∨ (a i).all Hasher.begun = true))
  | .hash i out _ => inferInstanceAs (Decidable (out.length < BLAKE2b.HASH_SIZE ∨ a i ≠ some .moved))
  | .construct _ => isTrue trivial
  | .move_construct _ _ => isTrue trivial
  | .move_assign _ _ => isTrue trivial
  | .destroy _ => isTrue trivial

/-- What is in the buffer of a use that returns. -/
def expected (D : EvpDigest) (a : ι → Option Hasher) : Use ι → List UInt8
  | .finalize i out => (a i).elim out fun h => written D h.message out
  | .hash i out data => (a i).elim out fun _ => written D data out
  | _ => []

/-! ### One object -/

variable {E : Evp} {D : EvpDigest}

/-- The object is in that state. -/
def Holds (calls : List EvpCall) : Option BLAKE2b → Option Hasher → Prop
  | none, none => True
  | some ⟨none⟩, some .moved => True
  | some ⟨some c⟩, some .idle => contexts calls c = some .idle
  | some ⟨some c⟩, some (.given message) => contexts calls c = some (.given message)
  | _, _ => False

variable {calls calls' calls'' : List EvpCall} {call : EvpCall} {b : BLAKE2b} {h h' : Hasher} {c : Nat} {α β : Type}

/-- What a method leaves of the contexts, and of its own one. -/
structure Works (E : Evp) (calls calls' : List EvpCall) (b : BLAKE2b) (h : Hasher) : Prop where
  holds : Holds calls' (some b) (some h)
  others : ∀ c, b.ctx_ ≠ some c → contexts calls' c = contexts calls c
  allocated : ∀ c, (contexts calls' c).isSome = (contexts calls c).isSome
  proper : Proper E calls'

theorem Works.refl (holds : Holds calls (some b) (some h)) (proper : Proper E calls) : Works E calls calls b h :=
  ⟨holds, fun _ _ => rfl, fun _ => rfl, proper⟩

theorem Works.trans (first : Works E calls calls' b h) (second : Works E calls' calls'' b h') : Works E calls calls'' b h' :=
  ⟨second.holds, fun c other => (second.others c other).trans (first.others c other),
    fun c => (second.allocated c).trans (first.allocated c), second.proper⟩

/-- A call on the context of the object. -/
theorem call_works {context : Context} (here : (contexts calls c).isSome) (proper : Proper E (call :: calls))
    (after : contexts (call :: calls) = Function.update (contexts calls) c (some context))
    (holds : Holds (call :: calls) (some ⟨some c⟩) (some h)) : Works E calls (call :: calls) ⟨some c⟩ h := by
  refine ⟨holds, ?_, ?_, proper⟩
  · intro c' other
    have apart : c' ≠ c := fun same => other (same ▸ rfl)
    rw [after, Function.update_of_ne apart]
  · intro c'
    rw [after]
    by_cases same : c' = c
    · subst same
      simp [here]
    · rw [Function.update_of_ne same]

/-- A method returns `a` and leaves its object so. Or it throws, since its last call of OpenSSL
    has failed, and leaves it idle. -/
inductive Returns (E : Evp) (calls : List EvpCall) (b : BLAKE2b) (a : α) (h : Hasher) : EStateM.Result String (List EvpCall) α → Prop
  | done {calls' : List EvpCall} (works : Works E calls calls' b h) : Returns E calls b a h (.ok a calls')
  | threw {message : String} {call : EvpCall} {calls' : List EvpCall} (works : Works E calls (call :: calls') b .idle)
      (failed : Failed call) : Returns E calls b a h (.error message (call :: calls'))

theorem Returns.bind {m : HashM α} {f : α → HashM β} {a : α} {a' : β} (first : Returns E calls b a h (m calls))
    (second : ∀ calls', Works E calls calls' b h → Returns E calls' b a' h' (f a calls')) :
    Returns E calls b a' h' ((m >>= f) calls) := by
  cases run : m calls with
  | ok x mid =>
    rw [run] at first
    cases first with
    | done works =>
      rw [bind_ok run]
      have later := second mid works
      generalize f a mid = result at later ⊢
      cases later with
      | done works' => exact .done (works.trans works')
      | threw works' failed => exact .threw (works.trans works') failed
  | error e mid =>
    rw [run] at first
    cases first with
    | threw works failed =>
      rw [bind_error run]
      exact .threw works failed

theorem asking_bind {answer : List EvpCall → α} {record : α → EvpCall} {f : α → HashM β} :
    (asking answer record >>= f) calls = f (answer calls) (record (answer calls) :: calls) := rfl

/-- An object that was not moved from has a context. -/
theorem holds_context (holds : Holds calls (some b) (some h)) (owner : h ≠ .moved) :
    ∃ c context, b = ⟨some c⟩ ∧ contexts calls c = some context := by
  obtain ⟨ctx⟩ := b
  cases h with
  | moved => exact absurd rfl owner
  | idle =>
    cases ctx with
    | none => exact holds.elim
    | some c => exact ⟨c, _, rfl, holds⟩
  | given message =>
    cases ctx with
    | none => exact holds.elim
    | some c => exact ⟨c, _, rfl, holds⟩

theorem holds_given {message : List UInt8} (holds : Holds calls (some b) (some (.given message))) :
    ∃ c, b = ⟨some c⟩ ∧ contexts calls c = some (.given message) := by
  obtain ⟨ctx⟩ := b
  cases ctx with
  | none => exact holds.elim
  | some c => exact ⟨c, rfl, holds⟩

theorem init_returns (proper : Proper E calls) (holds : Holds calls (some b) (some h)) (owner : h ≠ .moved) :
    Returns E calls b () (.given []) (b.init E calls) := by
  obtain ⟨c, context, rfl, here⟩ := holds_context holds owner
  have allocated : (contexts calls c).isSome := by simp [here]
  have proper' : Proper E (.init (some c) (E.EVP_DigestInit_ex calls (some c)) :: calls) := ⟨proper, allocated, rfl⟩
  rw [BLAKE2b.init, asking_bind]
  cases answer : E.EVP_DigestInit_ex calls (some c) with
  | false =>
    rw [answer] at proper'
    exact .threw (call_works allocated proper' rfl (by simp [Holds, contexts, assign])) rfl
  | true =>
    rw [answer] at proper'
    exact .done (call_works allocated proper' rfl (by simp [Holds, contexts, assign]))

theorem update_returns {message : List UInt8} (proper : Proper E calls) (holds : Holds calls (some b) (some (.given message)))
    (data : List UInt8) : Returns E calls b () (.given (message ++ data)) (b.update E data calls) := by
  unfold BLAKE2b.update
  by_cases empty : data = []
  · rw [if_pos empty, empty, List.append_nil]
    exact .done (.refl holds proper)
  · obtain ⟨c, rfl, here⟩ := holds_given holds
    have allocated : (contexts calls c).isSome := by simp [here]
    have proper' : Proper E (.update (some c) data (E.EVP_DigestUpdate calls (some c) data) :: calls) :=
      ⟨proper, ⟨message, here⟩, rfl⟩
    rw [if_neg empty, asking_bind]
    cases answer : E.EVP_DigestUpdate calls (some c) data with
    | false =>
      rw [answer] at proper'
      exact .threw (call_works allocated proper' rfl (by simp [Holds, contexts, assign])) rfl
    | true =>
      rw [answer] at proper'
      exact .done (call_works allocated proper' rfl (by simp [Holds, contexts, assign, here, Context.message]))

theorem finalize_returns (documented : Documented E D) {message out : List UInt8} (room : ¬ out.length < BLAKE2b.HASH_SIZE)
    (proper : Proper E calls) (holds : Holds calls (some b) (some (.given message))) :
    Returns E calls b (written D message out) .idle (b.finalize E out calls) := by
  obtain ⟨c, rfl, here⟩ := holds_given holds
  have allocated : (contexts calls c).isSome := by simp [here]
  have proper' : Proper E (.final (some c) out (E.EVP_DigestFinal_ex calls (some c) out).1 :: calls) :=
    ⟨proper, ⟨message, here⟩, rfl⟩
  have digest := documented.digest calls c message out proper here (Nat.le_of_not_lt room)
  rw [BLAKE2b.finalize, if_neg room, asking_bind]
  generalize E.EVP_DigestFinal_ex calls (some c) out = answer at proper' digest ⊢
  obtain ⟨success, out'⟩ := answer
  cases success with
  | false => exact .threw (call_works allocated proper' rfl (by simp [Holds, contexts, assign])) rfl
  | true =>
    have whole : out' = written D message out := by
      rw [written, if_neg room]
      exact digest rfl
    subst whole
    exact .done (call_works allocated proper' rfl (by simp [Holds, contexts, assign]))

theorem hash_returns (documented : Documented E D) {out : List UInt8} (room : ¬ out.length < BLAKE2b.HASH_SIZE)
    (proper : Proper E calls) (holds : Holds calls (some b) (some h)) (owner : h ≠ .moved) (data : List UInt8) :
    Returns E calls b (written D data out) .idle (b.hash E out data calls) := by
  unfold BLAKE2b.hash BLAKE2b.hash_oneshot
  rw [if_neg room]
  apply (init_returns proper holds owner).bind
  intro calls₁ begun
  apply (update_returns begun.proper begun.holds data).bind
  intro calls₂ fed
  exact finalize_returns documented room fed.proper fed.holds

/-! ### The objects of a program -/

variable {p : Pool ι} {a : ι → Option Hasher} {i other : ι}

/-- The objects are in these states, and each context is owned by one of them. -/
structure Agrees (E : Evp) (p : Pool ι) (a : ι → Option Hasher) : Prop where
  holds : ∀ i, Holds p.calls (p.objects i) (a i)
  distinct : ∀ i j c, p.objects i = some ⟨some c⟩ → p.objects j = some ⟨some c⟩ → i = j
  owned : ∀ c, (contexts p.calls c).isSome → ∃ i, p.objects i = some ⟨some c⟩
  proper : Proper E p.calls

theorem holds_frame : ∀ {b : Option BLAKE2b} {h : Option Hasher}, Holds calls b h →
    (∀ c, b = some ⟨some c⟩ → contexts calls' c = contexts calls c) → Holds calls' b h := by
  intro b h holds same
  match b, h with
  | none, none => trivial
  | some ⟨none⟩, some .moved => trivial
  | some ⟨some c⟩, some .idle => exact (same c rfl).trans holds
  | some ⟨some c⟩, some (.given message) => exact (same c rfl).trans holds

/-- The context of an object is allocated. -/
theorem holds_allocated {h : Option Hasher} (holds : Holds calls (some ⟨some c⟩) h) : (contexts calls c).isSome := by
  match h with
  | some .idle =>
    have here : contexts calls c = some .idle := holds
    simp [here]
  | some (.given message) =>
    have here : contexts calls c = some (.given message) := holds
    simp [here]

omit [DecidableEq ι] in
theorem agrees_absent (agrees : Agrees E p a) (absent : p.objects i = none) : a i = none := by
  have holds := agrees.holds i
  rw [absent] at holds
  cases state : a i with
  | none => rfl
  | some h =>
    rw [state] at holds
    exact holds.elim

omit [DecidableEq ι] in
theorem agrees_present (agrees : Agrees E p a) (here : p.objects i = some b) : ∃ h, a i = some h ∧ Holds p.calls (some b) (some h) := by
  have holds := agrees.holds i
  rw [here] at holds
  cases state : a i with
  | none =>
    rw [state] at holds
    obtain ⟨_ | c⟩ := b
    · exact holds.elim
    · exact holds.elim
  | some h =>
    rw [state] at holds
    exact ⟨h, rfl, holds⟩

theorem agrees_works (agrees : Agrees E p a) (here : p.objects i = some b) (works : Works E p.calls calls' b h') :
    Agrees E { p with calls := calls' } (Function.update a i (some h')) := by
  refine ⟨?_, agrees.distinct, ?_, ?_⟩
  · intro j
    by_cases same : j = i
    · subst same
      simpa [here] using works.holds
    · rw [Function.update_of_ne same]
      refine holds_frame (agrees.holds j) fun c there => works.others c fun mine => same ?_
      obtain ⟨ctx⟩ := b
      exact agrees.distinct j i c there (by rw [here, show ctx = some c from mine])
  · intro c allocated
    rw [works.allocated] at allocated
    exact agrees.owned c allocated
  · exact works.proper

theorem on_some {f : Hasher → Hasher} (state : a i = some h) : on a i f = Function.update a i (some (f h)) := by
  rw [on, state, Option.map_some]

theorem on_none {f : Hasher → Hasher} (state : a i = none) : on a i f = a := by
  rw [on, state, Option.map_none, ← state, Function.update_eq_self]

/-- The last call has failed. -/
def Fails (calls : List EvpCall) : Prop := ∃ call ∈ calls.head?, Failed call

/-- A method that is called on an object, if it is there. -/
theorem agrees_call (agrees : Agrees E p a) (absent : α) (method : BLAKE2b → HashM α) (x : Hasher → α) (f : Hasher → Hasher)
    (returns : ∀ b h, a i = some h → Holds p.calls (some b) (some h) → Returns E p.calls b (x h) (f h) (method b p.calls)) :
    let q := p.call i absent method
    (q.1 = .ok ((a i).elim absent x) ∧ Agrees E q.2 (on a i f)) ∨
      ∃ message, q.1 = .error message ∧ Fails q.2.calls ∧ Agrees E q.2 (on a i fun _ => .idle) := by
  unfold Pool.call
  cases here : p.objects i with
  | none =>
    have state := agrees_absent agrees here
    refine .inl ⟨?_, ?_⟩
    · rw [state]
      rfl
    · rwa [on_none state]
  | some b =>
    obtain ⟨h, state, holds⟩ := agrees_present agrees here
    have result := returns b h state holds
    rw [on_some state, on_some state, state]
    dsimp only
    generalize method b p.calls = run at result ⊢
    cases result with
    | done works => exact .inl ⟨rfl, agrees_works agrees here works⟩
    | threw works failed => exact .inr ⟨_, rfl, ⟨_, rfl, failed⟩, agrees_works agrees here works⟩

omit [DecidableEq ι] in
/-- A method that does nothing. -/
theorem call_still {x : α} {method : BLAKE2b → HashM α} (still : ∀ b, method b p.calls = .ok x p.calls) :
    p.call i x method = (.ok x, p) := by
  unfold Pool.call
  cases p.objects i with
  | none => rfl
  | some b =>
    dsimp only
    rw [still b]

theorem written_short {message out : List UInt8} (short : out.length < BLAKE2b.HASH_SIZE) : written D message out = out :=
  if_pos short

theorem destroy_runs (proper : Proper E calls) (holds : Holds calls (some b) (some h)) : ∃ calls', b.destroy calls = .ok () calls' ∧
    Proper E calls' ∧ ∀ c, contexts calls' c = if b.ctx_ = some c then none else contexts calls c := by
  obtain ⟨ctx⟩ := b
  cases ctx with
  | none => exact ⟨calls, rfl, proper, fun c => rfl⟩
  | some c =>
    refine ⟨.free c :: calls, rfl, ⟨proper, holds_allocated holds, trivial⟩, ?_⟩
    intro c'
    by_cases same : c = c'
    · subst same
      simp [contexts, assign]
    · have apart : c' ≠ c := fun equal => same equal.symm
      simp [contexts, assign, same, apart]

theorem move_assign_runs {from_ : BLAKE2b} (run : b.destroy calls = .ok () calls') :
    b.move_assign from_ calls = .ok (⟨from_.ctx_⟩, ⟨none⟩) calls' := by
  have assigned : b.move_assign from_ = b.destroy >>= fun _ => pure (⟨from_.ctx_⟩, ⟨none⟩) := by
    obtain ⟨_ | c⟩ := b
    · rfl
    · rfl
  rw [assigned, bind_ok run]
  rfl

/-- An object goes, and its context with it. -/
theorem agrees_destroyed (agrees : Agrees E p a) (here : p.objects i = some b) : ∃ calls', b.destroy p.calls = .ok () calls' ∧
    Agrees E { p.put i none with calls := calls' } (Function.update a i none) := by
  obtain ⟨h, _, holds⟩ := agrees_present agrees here
  obtain ⟨calls', run, proper, after⟩ := destroy_runs agrees.proper holds
  have left : ∀ {j : ι} {b' : BLAKE2b}, (p.put i none).objects j = some b' → j ≠ i ∧ p.objects j = some b' := by
    intro j b' there
    by_cases same : j = i
    · subst same
      simp [Pool.put] at there
    · exact ⟨same, by simpa [Pool.put, same] using there⟩
  have kept : ∀ {c : Nat}, (contexts calls' c).isSome → b.ctx_ ≠ some c ∧ (contexts p.calls c).isSome := by
    intro c allocated
    rw [after] at allocated
    split at allocated
    · cases allocated
    · next other => exact ⟨other, allocated⟩
  refine ⟨calls', run, ?_, ?_, ?_, ?_⟩
  · intro j
    by_cases same : j = i
    · subst same
      simp [Pool.put, Holds]
    · have old : (p.put i none).objects j = p.objects j := by simp [Pool.put, same]
      rw [Function.update_of_ne same]
      show Holds calls' ((p.put i none).objects j) (a j)
      rw [old]
      refine holds_frame (agrees.holds j) fun c there => ?_
      rw [after, if_neg]
      intro mine
      obtain ⟨ctx⟩ := b
      exact same (agrees.distinct j i c there (by rw [here, show ctx = some c from mine]))
  · intro j l c there there'
    exact agrees.distinct j l c (left there).2 (left there').2
  · intro c allocated
    obtain ⟨other, before⟩ := kept allocated
    obtain ⟨j, there⟩ := agrees.owned c before
    refine ⟨j, ?_⟩
    have apart : j ≠ i := by
      rintro rfl
      obtain rfl := Option.some.inj (here.symm.trans there)
      exact other rfl
    show (p.put i none).objects j = _
    simpa [Pool.put, apart] using there
  · exact proper

/-- A new object takes over the context of another one. -/
theorem agrees_moved (agrees : Agrees E p a) (room : p.objects i = none) (here : p.objects other = some b) (state : a other = some h) :
    Agrees E ((p.put i (some ⟨b.ctx_⟩)).put other (some ⟨none⟩))
      (Function.update (Function.update a i (some h)) other (some .moved)) := by
  have apart : i ≠ other := by
    rintro rfl
    cases room.symm.trans here
  have origin : ∀ {j : ι} {c : Nat}, ((p.put i (some ⟨b.ctx_⟩)).put other (some ⟨none⟩)).objects j = some ⟨some c⟩ →
      j = i ∧ p.objects other = some ⟨some c⟩ ∨ j ≠ i ∧ j ≠ other ∧ p.objects j = some ⟨some c⟩ := by
    intro j c there
    by_cases last : j = other
    · subst last
      simp [Pool.put] at there
    · by_cases first : j = i
      · subst first
        have mine : b.ctx_ = some c := by simpa [Pool.put, last] using there
        exact .inl ⟨rfl, by rw [here, ← mine]⟩
      · exact .inr ⟨first, last, by simpa [Pool.put, last, first] using there⟩
  refine ⟨?_, ?_, ?_, agrees.proper⟩
  · intro j
    by_cases last : j = other
    · subst last
      simp [Pool.put, Holds]
    · by_cases first : j = i
      · subst first
        have holds := agrees.holds other
        rw [here, state] at holds
        simpa [Pool.put, last] using holds
      · simpa [Pool.put, last, first] using agrees.holds j
  · intro j l c there there'
    rcases origin there with ⟨rfl, mine⟩ | ⟨_, unmoved, old⟩ <;> rcases origin there' with ⟨rfl, mine'⟩ | ⟨_, unmoved', old'⟩
    · rfl
    · exact absurd (agrees.distinct l other c old' mine) unmoved'
    · exact absurd (agrees.distinct j other c old mine') unmoved
    · exact agrees.distinct j l c old old'
  · intro c allocated
    obtain ⟨j, there⟩ := agrees.owned c allocated
    by_cases last : j = other
    · subst last
      obtain rfl := Option.some.inj (here.symm.trans there)
      exact ⟨i, by simp [Pool.put, apart]⟩
    · have first : j ≠ i := by
        rintro rfl
        cases room.symm.trans there
      exact ⟨j, by simpa [Pool.put, last, first] using there⟩

/-- A new object has a new context. -/
theorem agrees_constructed (agrees : Agrees E p a) (room : p.objects i = none) (answer : E.EVP_MD_CTX_new p.calls = some c)
    (new : contexts p.calls c = none) :
    Agrees E { p.put i (some ⟨some c⟩) with calls := .new (some c) :: p.calls } (Function.update a i (some .idle)) := by
  have unused : ∀ {j : ι}, p.objects j ≠ some ⟨some c⟩ := by
    intro j there
    have holds := agrees.holds j
    rw [there] at holds
    have allocated := holds_allocated holds
    rw [new] at allocated
    cases allocated
  have origin : ∀ {j : ι} {c' : Nat}, (p.put i (some ⟨some c⟩)).objects j = some ⟨some c'⟩ →
      j = i ∧ c' = c ∨ j ≠ i ∧ p.objects j = some ⟨some c'⟩ := by
    intro j c' there
    by_cases same : j = i
    · subst same
      have mine : c = c' := by simpa [Pool.put] using there
      exact .inl ⟨rfl, mine.symm⟩
    · exact .inr ⟨same, by simpa [Pool.put, same] using there⟩
  refine ⟨?_, ?_, ?_, ⟨agrees.proper, trivial, answer⟩⟩
  · intro j
    by_cases same : j = i
    · subst same
      simp [Pool.put, Holds, contexts, assign]
    · have old : (p.put i (some ⟨some c⟩)).objects j = p.objects j := by simp [Pool.put, same]
      rw [Function.update_of_ne same]
      show Holds _ ((p.put i _).objects j) (a j)
      rw [old]
      refine holds_frame (agrees.holds j) fun c' there => ?_
      have apart : c' ≠ c := by
        rintro rfl
        exact unused there
      simp [contexts, assign, apart]
  · intro j l c' there there'
    rcases origin there with ⟨rfl, rfl⟩ | ⟨_, old⟩ <;> rcases origin there' with ⟨rfl, equal⟩ | ⟨_, old'⟩
    · rfl
    · exact absurd old' unused
    · exact absurd (equal ▸ old) unused
    · exact agrees.distinct j l c' old old'
  · intro c' allocated
    by_cases same : c' = c
    · subst same
      exact ⟨i, by simp [Pool.put]⟩
    · obtain ⟨j, there⟩ := agrees.owned c' (by simpa [contexts, assign, same] using allocated)
      have apart : j ≠ i := by
        rintro rfl
        cases room.symm.trans there
      exact ⟨j, by simpa [Pool.put, apart] using there⟩

/-! ### Runs -/

/-- A use and the states after it. -/
def follow (E : Evp) (s : Pool ι × (ι → Option Hasher)) (use : Use ι) : Pool ι × (ι → Option Hasher) :=
  let (outcome, p) := s.1.step E use
  (p, next s.2 outcome.isOk use)

/-- The objects after these uses. -/
def lives (E : Evp) (uses : List (Use ι)) : Pool ι × (ι → Option Hasher) :=
  uses.foldl (follow E) ({}, fun _ => none)

omit [DecidableEq ι] in
theorem expected_same {x : List UInt8} (f : Hasher → List UInt8) (same : ∀ h, f h = x) : (a i).elim x f = x := by
  cases a i with
  | none => rfl
  | some h => exact same h

/-- A use returns what is expected, or OpenSSL has failed and it throws. -/
def Meets (E : Evp) (D : EvpDigest) (p : Pool ι) (a : ι → Option Hasher) (use : Use ι) : Prop :=
  let q := p.step E use
  (q.1 = .ok (expected D a use) ∧ Agrees E q.2 (next a true use)) ∨
    ∃ message, q.1 = .error message ∧ Fails q.2.calls ∧ Agrees E q.2 (next a false use)

theorem construct_meets (documented : Documented E D) (agrees : Agrees E p a) : Meets E D p a (.construct i) := by
  unfold Meets
  cases room : p.objects i with
  | some b =>
    obtain ⟨h, state, _⟩ := agrees_present agrees room
    left
    simp only [Pool.step, room, next, state]
    exact ⟨rfl, by simpa using agrees⟩
  | none =>
    have state := agrees_absent agrees room
    cases answer : E.EVP_MD_CTX_new p.calls with
    | none =>
      have run : BLAKE2b.construct E p.calls = .error "BLAKE2b: EVP_MD_CTX_new failed" (.new none :: p.calls) := by
        rw [BLAKE2b.construct, asking_bind, answer]
        rfl
      right
      simp only [Pool.step, room, run, next]
      refine ⟨_, rfl, ⟨_, rfl, rfl⟩, ?_⟩
      simpa using ⟨agrees.holds, agrees.distinct, agrees.owned, agrees.proper, trivial, answer⟩
    | some c =>
      have run : BLAKE2b.construct E p.calls = .ok ⟨some c⟩ (.new (some c) :: p.calls) := by
        rw [BLAKE2b.construct, asking_bind, answer]
        rfl
      left
      simp only [Pool.step, room, run, next, state]
      exact ⟨rfl, by simpa using agrees_constructed agrees room answer (documented.fresh _ _ agrees.proper answer)⟩

theorem move_construct_meets (agrees : Agrees E p a) : Meets E D p a (.move_construct i other) := by
  left
  cases room : p.objects i with
  | some b =>
    obtain ⟨h, state, _⟩ := agrees_present agrees room
    simp only [Pool.step, room, next, state]
    exact ⟨rfl, agrees⟩
  | none =>
    have state := agrees_absent agrees room
    cases here : p.objects other with
    | none =>
      have gone := agrees_absent agrees here
      simp only [Pool.step, room, here, next, state, gone]
      exact ⟨rfl, agrees⟩
    | some b =>
      obtain ⟨h, there, _⟩ := agrees_present agrees here
      simp only [Pool.step, room, here, next, state, there]
      exact ⟨rfl, agrees_moved agrees room here there⟩

theorem move_assign_meets (agrees : Agrees E p a) : Meets E D p a (.move_assign i other) := by
  left
  cases mine : p.objects i with
  | none =>
    have state := agrees_absent agrees mine
    simp only [Pool.step, mine, next, state]
    exact ⟨rfl, agrees⟩
  | some b =>
    obtain ⟨h, state, _⟩ := agrees_present agrees mine
    cases here : p.objects other with
    | none =>
      have gone := agrees_absent agrees here
      simp only [Pool.step, mine, here, next, state, gone]
      exact ⟨rfl, agrees⟩
    | some b' =>
      obtain ⟨h', there, _⟩ := agrees_present agrees here
      by_cases self : i = other
      · simp only [Pool.step, mine, here, next, state, there, if_pos self]
        exact ⟨rfl, agrees⟩
      · -- The object goes, and a new one takes its place.
        obtain ⟨calls', run, destroyed⟩ := agrees_destroyed agrees mine
        have apart : other ≠ i := fun same => self same.symm
        have room : (p.put i none).objects i = none := by simp [Pool.put]
        have source : (p.put i none).objects other = some b' := by simpa [Pool.put, apart] using here
        have moved := agrees_moved destroyed room source (by simpa [apart] using there)
        simp only [Pool.step, mine, here, next, state, there, if_neg self, move_assign_runs run]
        refine ⟨rfl, ?_⟩
        simpa [Pool.put] using moved

theorem destroy_meets (agrees : Agrees E p a) : Meets E D p a (.destroy i) := by
  left
  cases mine : p.objects i with
  | none =>
    have state := agrees_absent agrees mine
    simp only [Pool.step, mine, next]
    rw [← state, Function.update_eq_self]
    exact ⟨rfl, agrees⟩
  | some b =>
    obtain ⟨calls', run, destroyed⟩ := agrees_destroyed agrees mine
    simp only [Pool.step, mine, next, run]
    exact ⟨rfl, destroyed⟩

/-- One step, for each use. -/
theorem step_meets (documented : Documented E D) (agrees : Agrees E p a) (use : Use ι) (legal : Legal a use) : Meets E D p a use := by
  cases use with
  | construct i => exact construct_meets documented agrees
  | move_construct i other => exact move_construct_meets agrees
  | move_assign i other => exact move_assign_meets agrees
  | destroy i => exact destroy_meets agrees
  | init i =>
    have called := agrees_call agrees ([] : List UInt8) (fun b => do b.init E; pure []) (fun _ => [])
      (fun _ => .given []) fun b h state holds => by
        have owner : h ≠ .moved := fun moved => legal (moved ▸ state)
        exact (init_returns agrees.proper holds owner).bind fun _ works => .done (.refl works.holds works.proper)
    rw [expected_same _ fun _ => rfl] at called
    exact called
  | update i data =>
    by_cases empty : data = []
    · have still : p.step E (.update i data) = (.ok [], p) := call_still fun b => by
        rw [empty]
        rfl
      refine .inl ?_
      rw [still]
      exact ⟨rfl, by simpa [next, empty] using agrees⟩
    · have called := agrees_call agrees ([] : List UInt8) (fun b => do b.update E data; pure []) (fun _ => [])
        (fun h => .given (h.message ++ data)) fun b h state holds => by
          have begun := legal.resolve_left empty
          rw [state] at begun
          cases h with
          | given message => exact (update_returns agrees.proper holds data).bind fun _ works => .done (.refl works.holds works.proper)
          | _ => cases begun
      rw [expected_same _ fun _ => rfl] at called
      unfold Meets
      simp only [next, if_neg empty]
      exact called
  | finalize i out =>
    by_cases short : out.length < BLAKE2b.HASH_SIZE
    · have still : p.step E (.finalize i out) = (.ok out, p) := call_still fun b => by
        rw [BLAKE2b.finalize, if_pos short]
        rfl
      refine .inl ?_
      rw [still, expected, expected_same _ fun _ => written_short short]
      exact ⟨rfl, by simpa [next, short] using agrees⟩
    · have called := agrees_call agrees out (fun b => b.finalize E out) (fun h => written D h.message out)
        (fun _ => .idle) fun b h state holds => by
          have begun := legal.resolve_left short
          rw [state] at begun
          cases h with
          | given message => exact finalize_returns documented short agrees.proper holds
          | _ => cases begun
      unfold Meets
      simp only [next, if_neg short]
      exact called
  | hash i out data =>
    by_cases short : out.length < BLAKE2b.HASH_SIZE
    · have still : p.step E (.hash i out data) = (.ok out, p) := call_still fun b => by
        rw [BLAKE2b.hash, BLAKE2b.hash_oneshot, if_pos short]
        rfl
      refine .inl ?_
      rw [still, expected, expected_same _ fun _ => written_short short]
      exact ⟨rfl, by simpa [next, short] using agrees⟩
    · have called := agrees_call agrees out (fun b => b.hash E out data) (fun _ => written D data out)
        (fun _ => .idle) fun b h state holds => by
          have owner : h ≠ .moved := fun moved => legal.resolve_left short (moved ▸ state)
          exact hash_returns documented short agrees.proper holds owner data
      unfold Meets
      simp only [next, if_neg short]
      exact called

theorem follow_agrees (documented : Documented E D) (agrees : Agrees E p a) {use : Use ι} (legal : Legal a use) :
    Agrees E (follow E (p, a) use).1 (follow E (p, a) use).2 := by
  simp only [follow]
  rcases step_meets documented agrees use legal with ⟨outcome, after⟩ | ⟨_, outcome, _, after⟩
  · rw [outcome]
    exact after
  · rw [outcome]
    exact after

/-- Every use of a run is a legal one. -/
def Orderly (E : Evp) : Pool ι → (ι → Option Hasher) → List (Use ι) → Prop
  | _, _, [] => True
  | p, a, use :: rest => Legal a use ∧ Orderly E (follow E (p, a) use).1 (follow E (p, a) use).2 rest

instance (E : Evp) : ∀ (p : Pool ι) (a : ι → Option Hasher) (uses : List (Use ι)),
    Decidable (Orderly E p a uses)
  | _, _, [] => isTrue trivial
  | p, a, use :: rest =>
    have : Decidable (Orderly E (follow E (p, a) use).1 (follow E (p, a) use).2 rest) :=
      instDecidableOrderly E _ _ rest
    inferInstanceAs (Decidable (_ ∧ _))

/-- The uses before the last one keep the states, and the last one is legal. -/
theorem run_agrees (documented : Documented E D) {last : Use ι} : ∀ {uses : List (Use ι)} {p : Pool ι} {a : ι → Option Hasher},
    Agrees E p a → Orderly E p a (uses ++ [last]) →
      Agrees E (uses.foldl (follow E) (p, a)).1 (uses.foldl (follow E) (p, a)).2 ∧
        Legal (uses.foldl (follow E) (p, a)).2 last := by
  intro uses
  induction uses with
  | nil => exact fun agrees orderly => ⟨agrees, orderly.1⟩
  | cons use rest ih =>
    intro p a agrees orderly
    exact ih (follow_agrees documented agrees orderly.1) orderly.2

omit [DecidableEq ι] in
theorem start_agrees : Agrees E ({} : Pool ι) fun _ => none := by
  refine ⟨fun _ => trivial, ?_, ?_, trivial⟩
  · intro i j c there
    cases there
  · intro c allocated
    cases allocated

/-- In any program that calls methods in order, and whatever calls of OpenSSL fail, OpenSSL is
    used as it asks for and every context has one owner; and a digest that is written is that of
    the message that its object was given. -/
theorem objects_hash_what_they_are_given (documented : Documented E D) (uses : List (Use ι)) (use : Use ι)
    (orderly : Orderly E ({} : Pool ι) (fun _ => none) (uses ++ [use])) :
    let p := (lives E uses).1
    ((p.step E use).1 = .ok (expected D (lives E uses).2 use) ∨
      ∃ message, (p.step E use).1 = .error message ∧ Fails (p.step E use).2.calls) ∧
    Proper E (p.step E use).2.calls ∧
    (∀ c, (contexts p.calls c).isSome ↔ ∃ i, p.objects i = some ⟨some c⟩) ∧
    ∀ i j c, p.objects i = some ⟨some c⟩ → p.objects j = some ⟨some c⟩ → i = j := by
  obtain ⟨agrees, legal⟩ := run_agrees documented start_agrees orderly
  have meets := step_meets documented agrees use legal
  refine ⟨?_, ?_, ?_, agrees.distinct⟩
  · rcases meets with ⟨outcome, _⟩ | ⟨message, outcome, failed, _⟩
    · exact .inl outcome
    · exact .inr ⟨message, outcome, failed⟩
  · rcases meets with ⟨_, after⟩ | ⟨_, _, _, after⟩
    · exact after.proper
    · exact after.proper
  · intro c
    refine ⟨agrees.owned c, ?_⟩
    rintro ⟨i, here⟩
    have holds := agrees.holds i
    rw [show (List.foldl (follow E) ({}, fun _ => none) uses).1.objects i = some ⟨some c⟩ from here] at holds
    exact holds_allocated holds

end

/-! ### OpenSSL where no call fails -/

def EVP_blake2b512 : EvpDigest := ⟨Rfc7693.blake2b512, Rfc7693.blake2b512_length⟩

/-- A context has the number of calls before it as its address. A call fails only where it is
    made out of order. -/
def libcrypto : Evp where
  EVP_MD_CTX_new calls := some calls.length
  EVP_DigestInit_ex calls ctx := (ctx.bind (contexts calls)).isSome
  EVP_DigestUpdate calls ctx _ :=
    match ctx.bind (contexts calls) with
    | some (.given _) => true
    | _ => false
  EVP_DigestFinal_ex calls ctx out :=
    match ctx.bind (contexts calls) with
    | some (.given message) => (true, EVP_blake2b512.digest message ++ out.drop BLAKE2b.HASH_SIZE)
    | _ => (false, out)

theorem assign_some {contexts : Nat → Option Context} {ctx : Option Nat} {context : Option Context} {c : Nat}
    (allocated : (assign contexts ctx context c).isSome) : ctx = some c ∨ (contexts c).isSome := by
  cases ctx with
  | none => exact .inr allocated
  | some c' =>
    by_cases same : c = c'
    · exact .inl (congrArg some same.symm)
    · rw [assign, Function.update_of_ne same] at allocated
      exact .inr allocated

/-- The addresses in use are below the number of calls. -/
theorem libcrypto_addresses {c : Nat} : ∀ {calls : List EvpCall}, Proper libcrypto calls → (contexts calls c).isSome → c < calls.length := by
  intro calls
  induction calls with
  | nil =>
    intro _ allocated
    cases allocated
  | cons call before ih =>
    rintro ⟨proper, reaches, answers⟩ allocated
    suffices known : c = before.length ∨ (contexts before c).isSome by
      rcases known with rfl | known
      · exact Nat.lt_succ_self _
      · exact Nat.lt_succ_of_lt (ih proper known)
    have reached : ∀ {ctx : Option Nat}, ctx = some c → (ctx.bind (contexts before)).isSome → (contexts before c).isSome := by
      rintro _ rfl there
      exact there
    cases call with
    | new ctx =>
      rcases assign_some allocated with rfl | known
      · exact .inl (Option.some.inj answers).symm
      · exact .inr known
    | free ctx =>
      rcases assign_some allocated with same | known
      · exact .inr (Option.some.inj same ▸ reaches)
      · exact .inr known
    | init ctx success =>
      rcases assign_some allocated with same | known
      · exact .inr (reached same reaches)
      · exact .inr known
    | update ctx data success =>
      obtain ⟨message, there⟩ := reaches
      rcases assign_some allocated with same | known
      · exact .inr (reached same (by rw [there]; rfl))
      · exact .inr known
    | final ctx out success =>
      obtain ⟨message, there⟩ := reaches
      rcases assign_some allocated with same | known
      · exact .inr (reached same (by rw [there]; rfl))
      · exact .inr known

theorem libcrypto_documented : Documented libcrypto EVP_blake2b512 where
  fresh calls c proper answer := by
    obtain rfl := Option.some.inj answer
    cases here : contexts calls calls.length with
    | none => rfl
    | some context => exact absurd (libcrypto_addresses proper (by rw [here]; rfl)) (Nat.lt_irrefl _)
  digest calls c message out _ here _ _ := by
    have there : (some c).bind (contexts calls) = some (.given message) := here
    simp only [libcrypto, there]

/-- A message is given to two objects, one after the other. -/
def handed : List (Use Nat) := [.construct 0, .init 0, .update 0 [0x61], .move_construct 1 0, .update 1 [0x62, 0x63]]

/-- The digest of `abc`. -/
def abcDigest : List UInt8 :=
  [0xBA, 0x80, 0xA5, 0x3F, 0x98, 0x1C, 0x4D, 0x0D, 0x6A, 0x27, 0x97, 0xB6, 0x9F, 0x12, 0xF6, 0xE9,
    0x4C, 0x21, 0x2F, 0x14, 0x68, 0x5A, 0xC4, 0xB7, 0x4B, 0x12, 0xBB, 0x6F, 0xDB, 0xFF, 0xA2, 0xD1,
    0x7D, 0x87, 0xC5, 0x39, 0x2A, 0xAB, 0x79, 0x2D, 0xC2, 0x52, 0xD5, 0xDE, 0x45, 0x33, 0xCC, 0x95,
    0x18, 0xD3, 0x8A, 0xA8, 0xDB, 0xF1, 0x92, 0x5A, 0xB9, 0x23, 0x86, 0xED, 0xD4, 0x00, 0x99, 0x23]

/-- `objects_hash_what_they_are_given` for such a program, with a buffer of 65 bytes. -/
theorem handed_digest :
    let p := (lives libcrypto handed).1
    (p.step libcrypto (.finalize 1 (List.replicate 65 9))).1 = .ok (abcDigest ++ [9]) ∧
      ∀ i, p.objects i = some ⟨some 0⟩ → i = 1 := by
  have orderly : Orderly libcrypto ({} : Pool Nat) (fun _ => none) (handed ++ [.finalize 1 (List.replicate 65 9)]) := by decide
  obtain ⟨outcome, _, _, one⟩ := objects_hash_what_they_are_given libcrypto_documented handed _ orderly
  refine ⟨?_, fun i here => one i 1 0 here rfl⟩
  rcases outcome with returned | ⟨message, threw, _⟩
  · exact returned.trans (congrArg Except.ok (by decide +kernel))
  · cases threw

end Roll.Hashing
