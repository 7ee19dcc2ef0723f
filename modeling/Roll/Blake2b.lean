import Mathlib.Logic.Function.Basic
import Roll.HashConcepts

/-!
The BLAKE2b-512 hash: a thin wrapper around the digest interface of OpenSSL. An
object owns a context, which it hands over when it is moved from.

OpenSSL is not part of the repository. It is a parameter here: what it answers to
a call, after whatever calls.
-/
namespace Roll

/-- A call of OpenSSL, and its answer. A context is an address. -/
inductive EvpCall
  | new (ctx : Option Nat)
  | free (ctx : Nat)
  | init (ctx : Option Nat) (success : Bool)
  | update (ctx : Option Nat) (data : List UInt8) (success : Bool)
  | final (ctx : Option Nat) (out : List UInt8) (success : Bool)
  deriving DecidableEq

/-- The digest interface of OpenSSL, for `EVP_blake2b512`. An answer may depend on all
    calls before it, of which the last one comes first. -/
structure Evp where
  EVP_MD_CTX_new : List EvpCall → Option Nat
  EVP_DigestInit_ex : List EvpCall → Option Nat → Bool
  EVP_DigestUpdate : List EvpCall → Option Nat → List UInt8 → Bool
  /-- With the buffer that it leaves. -/
  EVP_DigestFinal_ex : List EvpCall → Option Nat → List UInt8 → Bool × List UInt8

/-- What a method returns or throws, and the calls of OpenSSL so far. -/
abbrev HashM := EStateM String (List EvpCall)

/-- A call is answered and recorded. -/
def asking {α : Type} (answer : List EvpCall → α) (call : α → EvpCall) : HashM α := fun calls =>
  .ok (answer calls) (call (answer calls) :: calls)

structure BLAKE2b where
  ctx_ : Option Nat := none

section
variable (E : Evp)

namespace BLAKE2b

def HASH_SIZE : Nat := 64

def construct : HashM BLAKE2b := do
  match ← asking E.EVP_MD_CTX_new .new with
  | none => throw "BLAKE2b: EVP_MD_CTX_new failed"
  | some ctx => pure ⟨some ctx⟩

def destroy (b : BLAKE2b) : HashM Unit :=
  match b.ctx_ with
  | none => pure ()
  | some ctx => asking (fun _ => ()) fun _ => .free ctx

/-- The new object, and what is left of the other one. -/
def move_construct (other : BLAKE2b) : BLAKE2b × BLAKE2b := (⟨other.ctx_⟩, ⟨none⟩)

/-- The same for an assignment from another object. -/
def move_assign (b other : BLAKE2b) : HashM (BLAKE2b × BLAKE2b) := do
  match b.ctx_ with
  | none => pure ()
  | some ctx => asking (fun _ => ()) fun _ => .free ctx
  pure (⟨other.ctx_⟩, ⟨none⟩)

def init (b : BLAKE2b) : HashM Unit := do
  if !(← asking (E.EVP_DigestInit_ex · b.ctx_) (.init b.ctx_)) then throw "BLAKE2b: EVP_DigestInit_ex failed" else pure ()

def update (b : BLAKE2b) (data : List UInt8) : HashM Unit := do
  if data = [] then pure ()
  else if !(← asking (E.EVP_DigestUpdate · b.ctx_ data) (.update b.ctx_ data)) then throw "BLAKE2b: EVP_DigestUpdate failed"
  else pure ()

/-- `out`, once the digest is written to it. -/
def finalize (b : BLAKE2b) (out : List UInt8) : HashM (List UInt8) := do
  if out.length < HASH_SIZE then pure out
  else
    let (success, out) ← asking (E.EVP_DigestFinal_ex · b.ctx_ out) fun answer => .final b.ctx_ out answer.1
    if !success then throw "BLAKE2b: EVP_DigestFinal_ex failed" else pure out

def hash_oneshot (b : BLAKE2b) (out data : List UInt8) : HashM (List UInt8) := do
  if out.length < HASH_SIZE then pure out
  else
    b.init E
    b.update E data
    b.finalize E out

def hash (b : BLAKE2b) (out data : List UInt8) : HashM (List UInt8) := b.hash_oneshot E out data

end BLAKE2b

/-! ### A program that uses such objects -/

/-- What a program does with its objects. -/
inductive Use (ι : Type)
  | construct (i : ι)
  | move_construct (i other : ι)
  | move_assign (i other : ι)
  | destroy (i : ι)
  | init (i : ι)
  | update (i : ι) (data : List UInt8)
  | finalize (i : ι) (out : List UInt8)
  | hash (i : ι) (out data : List UInt8)

/-- The objects of a program. -/
structure Pool (ι : Type) where
  objects : ι → Option BLAKE2b := fun _ => none
  /-- The calls of OpenSSL so far. -/
  calls : List EvpCall := []

namespace Pool

variable {ι : Type} [DecidableEq ι]

def put (p : Pool ι) (i : ι) (b : Option BLAKE2b) : Pool ι := { p with objects := Function.update p.objects i b }

/-- A method of an object. Nothing happens where there is no such object. -/
def call {α : Type} (p : Pool ι) (i : ι) (absent : α) (method : BLAKE2b → HashM α) : Except String α × Pool ι :=
  match p.objects i with
  | none => (.ok absent, p)
  | some b =>
    match method b p.calls with
    | .ok a calls => (.ok a, { p with calls })
    | .error e calls => (.error e, { p with calls })

/-- The outcome, with the buffer that a digest is written to. -/
def step (p : Pool ι) : Use ι → Except String (List UInt8) × Pool ι
  | .construct i =>
    match p.objects i with
    | some _ => (.ok [], p)
    | none =>
      match BLAKE2b.construct E p.calls with
      | .ok b calls => (.ok [], { p.put i (some b) with calls })
      | .error e calls => (.error e, { p with calls })
  | .move_construct i other =>
    match p.objects i, p.objects other with
    | none, some b => (.ok [], (p.put i (some b.move_construct.1)).put other (some b.move_construct.2))
    | _, _ => (.ok [], p)
  | .move_assign i other =>
    match p.objects i, p.objects other with
    | some b, some from_ =>
      if i = other then (.ok [], p)
      else
        match b.move_assign from_ p.calls with
        | .ok (b, from_) calls => (.ok [], { (p.put i (some b)).put other (some from_) with calls })
        | .error e calls => (.error e, { p with calls })
    | _, _ => (.ok [], p)
  | .destroy i =>
    match p.objects i with
    | none => (.ok [], p)
    | some b =>
      match b.destroy p.calls with
      | .ok () calls => (.ok [], { p.put i none with calls })
      | .error e calls => (.error e, { p with calls })
  | .init i => p.call i [] fun b => do b.init E; pure []
  | .update i data => p.call i [] fun b => do b.update E data; pure []
  | .finalize i out => p.call i out fun b => b.finalize E out
  | .hash i out data => p.call i out fun b => b.hash E out data

end Pool

end

end Roll
