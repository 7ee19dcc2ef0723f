import Roll.OutputTransaction

/-!
The staged paths of all the transactions of a process, whose methods are cut
into the single steps that other transactions and a signal handler may come
between.

A slot of `staged_paths` points at `temporary_` of a transaction. The methods of
one transaction do not overlap. A step makes at most one change to the names or
to the slots.
-/
namespace Roll

/-- The first part of `validateDestination`: the inputs to compare with. -/
def OutputTransaction.inspect (env : Environment) : OutputM (List Path) := fun (t, s) =>
  match s.status env t.destination_ with
  | (.error message, s) => .error ⟨.io_error, "Cannot inspect output: " ++ message⟩ (t, s)
  | (.ok none, s) => .ok [] (t, s)
  | (.ok (some node), s) =>
    if System.is_regular node then .ok t.inputs_ (t, s)
    else .error ⟨.invalid_argument, "Output must name a regular file"⟩ (t, s)

/-- The first part of `open`. -/
def OutputTransaction.accept (destination : Path) (inputs : List Path) : OutputM Unit := do
  aim destination inputs
  if destination.filename = "" then throw ⟨.invalid_argument, "Empty output filename"⟩ else pure ()

/-- The first part of `commit`. -/
def OutputTransaction.close_staged : OutputM Unit := do
  let closed ← close_file
  let (t, _) ← get
  if !closed || t.file_.has_error then throw ⟨.io_error, "Failed to flush output file"⟩ else pure ()

/-- `sync_file` of a path that a signal handler may have removed. -/
def OutputTransaction.sync_staged (env : Environment) (path : Path) : OutputM Bool := fun (t, s) =>
  match s.fs.lookup (env.locate path) with
  | .at _ => sync_file env (t, s)
  | _ => .ok false (t, ((s.call env).2.call env).2)

/-- `unlink`; a failure is ignored. -/
def System.unlink (env : Environment) (p : Path) (s : System) : System :=
  match s.call env with
  | (some _, s) => s
  | (none, s) =>
    match s.fs.names (env.locate p) with
    | none => s
    | some .directory => s
    | some _ => s.set (s.fs.remove (env.locate p))

/-- What a method goes on with when the destination is valid. -/
inductive Goal
  | staging
  | replacing (temporary : Path)
deriving DecidableEq, Repr

/-- The next step of the method that a transaction is in, or what the last
    method returned. -/
inductive Phase
  | idle (result : Except DeltaError Unit)
  | inspecting (goal : Goal)
  | comparing (goal : Goal) (inputs : List Path)
  | naming (attempts : Nat)
  | creating (attempts : Nat) (path : Path)
  | looking (attempts : Nat) (path : Path)
  | tracking (slot : Nat)
  | copying
  | closing (temporary : Path)
  | syncing (temporary : Path)
  | replacing (temporary : Path)
  | releasing
  | clearing
  | removing
  | forgetting

structure TransactionObject where
  transaction : OutputTransaction := {}
  phase : Phase := .idle (.ok ())

/-- A step of a method that touches no slot. -/
def TransactionObject.part {α : Type} (m : OutputM α) (next : α → Phase) (t : OutputTransaction) (s : System) :
    TransactionObject × System :=
  match m (t, s) with
  | .ok a (t, s) => (⟨t, next a⟩, s)
  | .error e (t, s) => (⟨t, .idle (.error e)⟩, s)

/-- The steps that touch no slot and commit nothing. -/
def TransactionObject.proceed (env : Environment) (t : OutputTransaction) (s : System) :
    Phase → TransactionObject × System
  | .inspecting goal => part (OutputTransaction.inspect env) (.comparing goal) t s
  | .comparing .staging [] => (⟨t, .naming OutputTransaction.ATTEMPTS⟩, s)
  | .comparing (.replacing temporary) [] => (⟨t, .replacing temporary⟩, s)
  | .comparing goal (input :: rest) =>
    part (OutputTransaction.compareInputs env [input]) (fun _ => .comparing goal rest) t s
  | .naming 0 => part (OutputTransaction.stage env 0) (fun _ => .idle (.ok ())) t s
  | .naming (attempts + 1) => part (OutputTransaction.next_candidate env) (.creating attempts) t s
  | .creating attempts path =>
    part (OutputTransaction.open_candidate env path)
      (fun opened => if opened then .tracking 0 else .looking attempts path) t s
  | .looking attempts path =>
    part (OutputTransaction.is_taken env path) (fun taken => .naming (if taken then attempts else 0)) t s
  | .copying => part (OutputTransaction.copyPermissions env) (fun _ => .idle (.ok ())) t s
  | .closing temporary => part OutputTransaction.close_staged (fun _ => .syncing temporary) t s
  | .syncing temporary =>
    part (OutputTransaction.sync_staged env temporary)
      (fun synced => if synced then .inspecting (.replacing temporary)
        else .idle (.error ⟨.io_error, "Failed to flush output file"⟩)) t s
  | .clearing => part (OutputTransaction.release env) (fun _ => .idle (.ok ())) t s
  | .removing =>
    match t.temporary_ with
    | some temporary => (⟨t, .forgetting⟩, s.remove env temporary)
    | none => (⟨t, .forgetting⟩, s)
  | phase => (⟨t, phase⟩, s)

/-- `committed` lists every name that a rename has replaced, with the file it
    brought there; nothing looks at it. -/
structure Registry (ι : Type) where
  objects : ι → Option TransactionObject := fun _ => none
  staged_paths : List (Option ι) := List.replicate 16 none
  system : System
  committed : List (Name × Node) := []

/-- What a caller does with the object `i`, a step of the method it is in, and
    a signal. -/
inductive Action (ι : Type)
  | construct (i : ι)
  | open_ (i : ι) (destination : Path) (inputs : List Path)
  | write (i : ι) (chunk : List UInt8)
  | commit (i : ι)
  | destroy (i : ι)
  | advance (i : ι)
  | discard_all_staged

namespace Registry

variable {ι : Type}

/-- The staged path of a transaction. -/
def staged (r : Registry ι) (i : ι) : Option Path := (r.objects i).bind (·.transaction.temporary_)

/-- The slot of a transaction. -/
def slot (r : Registry ι) (i : ι) : Option Nat := (r.objects i).bind (·.transaction.slot_)

/-- The path that a slot points at is unlinked. -/
def unlink_slot (env : Environment) (r : Registry ι) (s : System) (slot : Option ι) : System :=
  match slot.bind r.staged with
  | some path => s.unlink env path
  | none => s

def discard_all_staged (env : Environment) (r : Registry ι) : Registry ι :=
  { r with system := r.staged_paths.foldl (r.unlink_slot env) r.system }

variable [DecidableEq ι]

def put (r : Registry ι) (i : ι) (o : Option TransactionObject) : Registry ι :=
  { r with objects := Function.update r.objects i o }

def resume (r : Registry ι) (i : ι) (next : TransactionObject × System) : Registry ι :=
  { (r.put i (some next.1)) with system := next.2 }

/-- The next `compare_exchange_strong` of `track`. -/
def claim (r : Registry ι) (i : ι) (t : OutputTransaction) (k : Nat) : Registry ι :=
  match r.staged_paths[k]? with
  | none => r.put i (some ⟨t, .copying⟩)
  | some none => { (r.put i (some ⟨{ t with slot_ := some k }, .copying⟩)) with staged_paths := r.staged_paths.set k (some i) }
  | some (some _) => r.put i (some ⟨t, .tracking (k + 1)⟩)

/-- The slots after `untrack`. -/
def untracked (r : Registry ι) (t : OutputTransaction) : List (Option ι) :=
  match t.slot_ with
  | some k => r.staged_paths.set k none
  | none => r.staged_paths

/-- The rename of a commit. -/
def replace (env : Environment) (r : Registry ι) (i : ι) (t : OutputTransaction) (temporary : Path) : Registry ι :=
  match OutputTransaction.replace env temporary (t, r.system) with
  | .error e (t, s) => { (r.put i (some ⟨t, .idle (.error e)⟩)) with system := s }
  | .ok () (t, s) =>
    { (r.put i (some ⟨t, .releasing⟩)) with
      system := s
      committed := r.committed ++
        ((r.system.fs.names (env.locate temporary)).map (env.locate t.destination_, ·)).toList }

def advance (env : Environment) (r : Registry ι) (i : ι) : Registry ι :=
  match r.objects i with
  | none => r
  | some ⟨t, .tracking k⟩ => r.claim i t k
  | some ⟨t, .replacing temporary⟩ => r.replace env i t temporary
  | some ⟨t, .releasing⟩ =>
    { (r.put i (some ⟨{ t with slot_ := none }, .clearing⟩)) with staged_paths := r.untracked t }
  | some ⟨t, .forgetting⟩ => { (r.put i none) with staged_paths := r.untracked t }
  | some ⟨t, phase⟩ => r.resume i (TransactionObject.proceed env t r.system phase)

/-- A method is called while the transaction is in none. -/
def call (r : Registry ι) (i : ι) (method : OutputTransaction → System → TransactionObject × System) : Registry ι :=
  match r.objects i with
  | some ⟨t, .idle _⟩ => r.resume i (method t r.system)
  | _ => r

def step (env : Environment) (r : Registry ι) : Action ι → Registry ι
  | .construct i => if (r.objects i).isSome then r else r.put i (some {})
  | .open_ i destination inputs =>
    r.call i (TransactionObject.part (OutputTransaction.accept destination inputs) (fun _ => .inspecting .staging))
  | .write i chunk =>
    r.call i fun t s => (⟨{ t with file_ := (t.file_.write_chunk chunk).2 }, .idle (.ok ())⟩, s)
  | .commit i =>
    r.call i fun t s => match t.temporary_ with
      | none => (⟨t, .idle (.error ⟨.invalid_argument, "No staged output"⟩)⟩, s)
      | some temporary => (⟨t, .closing temporary⟩, s)
  | .destroy i => r.call i (TransactionObject.part OutputTransaction.close_file (fun _ => .removing))
  | .advance i => r.advance env i
  | .discard_all_staged => r.discard_all_staged env

/-- The registry after these actions, in a process that has just started. -/
def run (env : Environment) (system : System) (actions : List (Action ι)) : Registry ι :=
  actions.foldl (step env) { system }

end Registry

end Roll
