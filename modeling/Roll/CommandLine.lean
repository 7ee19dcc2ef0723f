import Roll.Apply
import Roll.Delta
import Roll.Main
import Roll.RkFinger
import Roll.ViewerOutput

/-!
The command line: from the arguments to the exit status and the texts on the
console.

An exception ends the program in `main`; no modelled function throws one.
-/
namespace Roll.Main

def RH_VERSION_MAJOR : Nat := 0
def RH_VERSION_MINOR : Nat := 3
def RH_VERSION_REV : Nat := 0

def print_version (prog : String) : String :=
  prog ++ " v" ++ toString RH_VERSION_MAJOR ++ "." ++ toString RH_VERSION_MINOR ++ "." ++ toString RH_VERSION_REV ++ "\n"

def print_usage (prog : String) : String :=
  "Usage:\n" ++
  "  " ++ prog ++ " create <oldfile> <newfile> <delta>\n" ++
  "  " ++ prog ++ " apply  [--max-output SIZE] <oldfile> <delta> <outfile>\n" ++
  "  " ++ prog ++ " view   <delta>\n" ++
  "  " ++ prog ++ " --version\n" ++
  "  " ++ prog ++ " --help\n" ++
  "\n" ++
  "SIZE is a byte count with an optional K, M, G or T (binary) suffix.\n"

/-- A failure category as an exit status: bad input the user can act on is told
    from an environment or I/O problem. -/
def exit_status_for : DeltaErrc → Nat
  | .corrupt_delta => 1
  | .integrity_mismatch => 1
  | .invalid_argument => 1
  | .limit_exceeded => 1
  | .io_error => 2
  | .internal_error => 2

def to_string : DeltaErrc → String
  | .io_error => "I/O error"
  | .corrupt_delta => "corrupt delta"
  | .integrity_mismatch => "integrity mismatch"
  | .invalid_argument => "invalid argument"
  | .limit_exceeded => "limit exceeded"
  | .internal_error => "internal error"

def report (action : String) (error : DeltaError) : Console :=
  { cerr := "Error " ++ action ++ ": " ++ error.message ++ " (" ++ to_string error.code ++ ")\n" }

section
variable (env : Environment) (worker : Nat → Option String) (U : StrongHash) (path : String → Path)

/-- The old file is signed on a worker thread, whose system calls meet the
    faults `worker` in whatever order they come. -/
def run_create (old_path new_path delta_path : String) (s : System) : Nat × Console × System :=
  let (old_ok, old_signature, _) :=
    Signature.generate_signatures_path RKFinger.rolling U { env with faults := worker } (path old_path) .Skip {} s
  let (new_ok, new_signature, s) :=
    Signature.generate_signatures_path RKFinger.rolling U env (path new_path) .Compute {} s
  if !old_ok then (2, { cerr := "Failed to read old file: " ++ old_path ++ "\n" }, s)
  else if !new_ok then (2, { cerr := "Failed to read new file: " ++ new_path ++ "\n" }, s)
  else
    let run := Delta.generate_delta env U old_signature new_signature (path old_path) (path new_path) (path delta_path) s
    match run.result with
    | .error e => (exit_status_for e.code, report "generating delta" e, run.system)
    | .ok _ => (0, {}, run.system)

def run_apply (old_path delta_path out_path : String) (max_output : Nat) (s : System) : Nat × Console × System :=
  let run := Apply.apply_delta env RKFinger.rolling U (path old_path) (path delta_path) (path out_path) max_output s
  match run.result with
  | .error e => (exit_status_for e.code, report "applying delta" e, run.system)
  | .ok stats =>
    (0, { cout := "Applied " ++ toString stats.entries_processed ++ " entries, wrote " ++ toString stats.bytes_written ++
            " bytes to " ++ out_path ++ "\n" }, run.system)

def usage_error (prog : String) (s : System) : Nat × Console × System := (1, { cerr := print_usage prog }, s)

/-- The arguments of `apply`. -/
def apply_command (prog : String) (args : List String) (s : System) : Nat × Console × System :=
  match args with
  | [option, size, old_path, delta_path, out_path] =>
    if option = "--max-output" then
      match parse_size size.toUTF8.toList with
      | none => (1, { cerr := "Invalid --max-output size: " ++ size ++ "\n" }, s)
      | some max_output => run_apply env U path old_path delta_path out_path max_output.toNat s
    else usage_error prog s
  | [old_path, delta_path, out_path] => run_apply env U path old_path delta_path out_path uint64_max.toNat s
  | _ => usage_error prog s

/-- `path` makes a path of an argument. -/
def run (argv : List String) (s : System) : Nat × Console × System :=
  match argv with
  | prog :: command :: args =>
    if command = "--version" ∨ command = "-v" then (0, { cout := print_version prog }, s)
    else if command = "--help" ∨ command = "-h" then (0, { cout := print_usage prog }, s)
    else if command = "create" then
      match args with
      | [old_path, new_path, delta_path] => run_create env worker U path old_path new_path delta_path s
      | _ => usage_error prog s
    else if command = "apply" then apply_command env U path prog args s
    else if command = "view" then
      match args with
      | [delta_path] => DeltaViewer.print_delta env (path delta_path) s
      | _ => usage_error prog s
    else (1, { cerr := "Unknown command: " ++ command ++ "\n" ++ print_usage prog }, s)
  | argv => usage_error (argv.headD "") s

end

end Roll.Main
