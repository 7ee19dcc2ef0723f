import Roll.Format
import Roll.FileSystem

/-!
`OutputTransaction`: output is staged beside its destination and replaces it
by a rename.

The state of a method is the transaction and the system; a method that returns
an unexpected value fails with it, in the state it leaves.
-/
namespace Roll

/-- An empty `temporary_` is `none`. `inode_` is the file behind `file_`. -/
structure OutputTransaction where
  destination_ : Path := { parent := "", filename := "" }
  temporary_ : Option Path := none
  inputs_ : List Path := []
  file_ : FileIo := {}
  slot_ : Option Nat := none
  inode_ : Nat := 0

abbrev OutputM := EStateM DeltaError (OutputTransaction × System)

namespace OutputTransaction

/-- How many names `open` tries. -/
def ATTEMPTS : Nat := 32

def track : OutputM Unit := fun (t, s) =>
  match s.staged_paths.findIdx? (·.isNone) with
  | some i => .ok () ({ t with slot_ := some i }, { s with staged_paths := s.staged_paths.set i t.temporary_ })
  | none => .ok () (t, s)

def untrack : OutputM Unit := fun (t, s) =>
  match t.slot_ with
  | some i => .ok () ({ t with slot_ := none }, { s with staged_paths := s.staged_paths.set i none })
  | none => .ok () (t, s)

/-- The inputs that an existing destination is compared with. -/
def compareInputs (env : Environment) : List Path → OutputM Unit
  | [] => pure ()
  | input :: rest => fun (t, s) =>
    match s.equivalent env t.destination_ input with
    | (.error message, s) => .error ⟨.io_error, "Cannot compare output and input: " ++ message⟩ (t, s)
    | (.ok true, s) => .error ⟨.invalid_argument, "Output path aliases input: " ++ input.string⟩ (t, s)
    | (.ok false, s) => compareInputs env rest (t, s)

def validateDestination (env : Environment) : OutputM Unit := fun (t, s) =>
  match s.status env t.destination_ with
  | (.error message, s) => .error ⟨.io_error, "Cannot inspect output: " ++ message⟩ (t, s)
  | (.ok none, s) => .ok () (t, s)
  | (.ok (some node), s) =>
    if System.is_regular node then compareInputs env t.inputs_ (t, s)
    else .error ⟨.invalid_argument, "Output must name a regular file"⟩ (t, s)

/-- The permissions of an existing destination go to the staged file. That one of
    them is missing is not an error. -/
def copyPermissions (env : Environment) : OutputM Unit := fun (t, s) =>
  match s.status env t.destination_, t.temporary_ with
  | (.error message, s), _ => .error ⟨.io_error, "Cannot copy output permissions: " ++ message⟩ (t, s)
  | (.ok (some (.file inode)), s), some temporary =>
    match s.permissions env temporary (s.fs.permissions inode) with
    | (.error message, s) => .error ⟨.io_error, "Cannot copy output permissions: " ++ message⟩ (t, s)
    | (.ok _, s) => .ok () (t, s)
  | (.ok _, s), _ => .ok () (t, s)

/-- The name of a staged file, from two draws and the counter. -/
def candidate (destination : Path) (a b c : Nat) : Path :=
  { parent := destination.parent
    filename := ".rolling_hash-" ++ toString a ++ "-" ++ toString b ++ "-" ++ toString c }

/-- The next candidate. -/
def next_candidate (env : Environment) : OutputM Path := fun (t, s) =>
  -- The source does not say which of the two is drawn first; either can be any number.
  let (a, s) := s.draw env
  let (b, s) := s.draw env
  .ok (candidate t.destination_ a b s.counter) (t, { s with counter := s.counter + 1 })

/-- Open the handle on a candidate; whether that succeeded. -/
def open_candidate (env : Environment) (path : Path) : OutputM Bool := fun (t, s) =>
  match FileIo.open_exclusive env path s with
  | (some inode, file, s) => .ok true ({ t with file_ := file, temporary_ := some path, inode_ := inode }, s)
  | (none, file, s) => .ok false ({ t with file_ := file }, s)

def is_taken (env : Environment) (path : Path) : OutputM Bool := fun (t, s) =>
  let (taken, s) := s.exists_ env path
  .ok taken (t, s)

/-- The attempts that are left. -/
def stage (env : Environment) : Nat → OutputM Unit
  | 0 => fun (t, s) =>
    .error ⟨.io_error, "Cannot create temporary output beside: " ++ t.destination_.string⟩ (t, s)
  | attempts + 1 => do
    let path ← next_candidate env
    if ← open_candidate env path then
      track
      copyPermissions env
    else if ← is_taken env path then stage env attempts
    else stage env 0

/-- The transaction is for this destination. -/
def aim (destination : Path) (inputs : List Path) : OutputM Unit := fun (t, s) =>
  if t.destination_.empty then .ok () ({ t with destination_ := destination, inputs_ := inputs }, s)
  else .error ⟨.invalid_argument, "Output transaction already opened"⟩ (t, s)

def open_ (env : Environment) (destination : Path) (inputs : List Path) : OutputM Unit := do
  aim destination inputs
  if destination.filename = "" then throw ⟨.invalid_argument, "Empty output filename"⟩
  else
    validateDestination env
    stage env ATTEMPTS

/-- Close the handle; only then the bytes of the file are determined. -/
def close_file : OutputM Bool := fun (t, s) =>
  let (closed, file) := t.file_.close
  if closed && t.file_.is_open then
    .ok true ({ t with file_ := file }, s.set (s.fs.store t.inode_ (.bytes file.f_.data)))
  else .ok closed ({ t with file_ := file }, s)

/-- `sync_file`: the file is opened for reading or else for writing, flushed
    and closed. -/
def sync_file (env : Environment) : OutputM Bool := fun (t, s) =>
  let (cannot_read, s) := s.call env
  let (cannot_open, s) := if cannot_read.isSome then s.call env else (none, s)
  if cannot_open.isSome then .ok false (t, s)
  else
    let (flush_fault, s) := s.call env
    let (close_fault, s) := s.call env
    .ok (close_fault.isNone && flush_fault.isNone) (t, s)

def flush (env : Environment) : OutputM Unit := do
  let closed ← close_file
  let (t, _) ← get
  if !closed || t.file_.has_error then throw ⟨.io_error, "Failed to flush output file"⟩
  else
    let synced ← sync_file env
    if synced then pure () else throw ⟨.io_error, "Failed to flush output file"⟩

/-- The rename of a commit. -/
def replace (env : Environment) (temporary : Path) : OutputM Unit := fun (t, s) =>
  match s.rename env temporary t.destination_ with
  | (some message, s) => .error ⟨.io_error, "Failed to replace output: " ++ message⟩ (t, s)
  | (none, s) => .ok () (t, s)

/-- `temporary_.clear()`, and the directory is synchronised. -/
def release (env : Environment) : OutputM Unit := fun (t, s) =>
  .ok () ({ t with temporary_ := none }, (s.call env).2)

def commit (env : Environment) : OutputM Unit := do
  let (t, _) ← get
  match t.temporary_ with
  | none => throw ⟨.invalid_argument, "No staged output"⟩
  | some temporary =>
    flush env
    validateDestination env
    replace env temporary
    untrack
    release env

/-- `~OutputTransaction`. -/
def destroy (env : Environment) (t : OutputTransaction) (s : System) : System :=
  let s := (EStateM.run close_file (t, s) |> fun
    | .ok _ (_, s) => s
    | .error _ (_, s) => s)
  let s := match t.temporary_ with
    | some temporary => s.remove env temporary
    | none => s
  match t.slot_ with
  | some i => { s with staged_paths := s.staged_paths.set i none }
  | none => s

end OutputTransaction

end Roll
