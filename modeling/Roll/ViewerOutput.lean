import Roll.DeltaViewer

/-!
What `view_delta` prints.

Each part is printed as it is read, so a delta that is found to be corrupt has
been printed up to there.
-/
namespace Roll

/-- The text on `std::cout` and on `std::cerr`. -/
structure Console where
  cout : String := ""
  cerr : String := ""
deriving DecidableEq, Repr

/-- `std::quoted`, as which a path is printed. -/
def quoted (text : String) : String :=
  "\"" ++ String.ofList (text.toList.flatMap fun c => if c = '"' ∨ c = '\\' then ['\\', c] else [c]) ++ "\""

namespace DeltaViewer
open DeltaReader

/-- A failure is the message that `std::cerr` gets. -/
abbrev PrintM := EStateM String (DeltaReader × Console)

/-- A method of the reader; `message` makes the message of its failures. -/
def reading {α : Type} (m : ReadM α) (message : String → String) : PrintM α := fun (r, c) =>
  match m r with
  | .ok a r => .ok a (r, c)
  | .error e r => .error (message e) (r, c)

def print (text : String) : PrintM Unit := fun (r, c) => .ok () (r, { c with cout := c.cout ++ text })

/-! ### Texts -/

def entryTypeToString : EntryType → String
  | .ORIGINAL_CHUNK => "ORIGINAL"
  | .ADDED_CHUNK => "ADDED"
  | .MODIFIED_CHUNK => "MODIFIED"

/-- `std::isprint` in the C locale. -/
def isprint (byte : UInt8) : Bool := 0x20 ≤ byte && byte < 0x7F

def printableByte (byte : UInt8) : String :=
  if byte = 0x0A then "\\n"
  else if byte = 0x0D then "\\r"
  else if byte = 0x09 then "\\t"
  else if isprint byte then String.singleton (Char.ofNat byte.toNat)
  else "."

def bytePreview (data : List UInt8) (limit : Nat) : String :=
  String.join ((data.take limit).map printableByte) ++ if data.length > limit then "..." else ""

/-- Two hexadecimal digits. -/
def hexDigits (byte : UInt8) : String :=
  String.ofList [Nat.digitChar (byte.toNat / 16), Nat.digitChar (byte.toNat % 16)]

def hexByte (byte : UInt8) : String := "0x" ++ hexDigits byte

def hex (data : List UInt8) : String := String.join (data.map hexDigits)

/-- How many bytes of an opcode are printed. -/
def maxBytes : Nat := 12

def inlineBytes (data : List UInt8) : String :=
  "\"" ++ bytePreview data maxBytes ++ "\"" ++
    if data = [] then ""
    else " [" ++ String.intercalate " " ((data.take maxBytes).map hexByte) ++
      (if data.length > maxBytes then " ..." else "") ++ "]"

/-- How many opcodes of a diff are printed. -/
def maxPrintedOps : Nat := 10

def opcodeLine (opcode : DiffOpcode) : String :=
  if opcode.op = OP_DELETE then
    "        Delete " ++ toString opcode.delete_length.toNat ++ " byte(s) at position " ++ toString opcode.pos.toNat ++ "\n"
  else
    "        " ++ (if opcode.op = OP_REPLACE then "Replace" else "Insert") ++ " " ++ toString opcode.bytes.length ++
      " byte(s) at position " ++ toString opcode.pos.toNat ++ ": " ++ inlineBytes opcode.bytes ++ "\n"

def moreOpcodes (opCount : Nat) : String :=
  if opCount > maxPrintedOps then "        ... and " ++ toString (opCount - maxPrintedOps) ++ " more diff opcodes\n" else ""

def entryLines (chunkNum : Nat) (header : DeltaEntryHeader) : String :=
  "Chunk #" ++ toString chunkNum ++ ":\n" ++
    "  Type: " ++ entryTypeToString header.type ++ " (" ++ toString header.type.toByte.toNat ++ ")\n" ++
    (if header.type.references_old then "  Source: old chunk #" ++ toString header.old_index.toNat ++ "\n" else "") ++
    (if header.type ≠ .ORIGINAL_CHUNK then "  Output Size: " ++ toString header.out_size.toNat ++ " bytes\n" else "") ++
    "  Digest: " ++ hex header.digest ++ "\n"

def addedLine (rawData : List UInt8) : String := "  Added Data (first 50 chars): \"" ++ bytePreview rawData 50 ++ "\"\n"

def diffLines (diffSize opCount : Nat) : String :=
  "  Diff Data Size: " ++ toString diffSize ++ " bytes\n" ++ "  Diff Opcode Count: " ++ toString opCount ++ "\n"

def rule : String := "========================================\n"

def heading (delta_file : Path) : String :=
  "Delta File Viewer - Analyzing: " ++ quoted delta_file.string ++ "\n" ++ rule ++ "\n"

def versionLine : String := "Format version: " ++ toString DELTA_FORMAT_VERSION.toNat ++ "\n\n"

def trailerLine (trailer : List UInt8) : String := "Whole-file hash: " ++ hex trailer ++ "\n"

def footing (chunkNum : Nat) : String := rule ++ "Total chunks processed: " ++ toString chunkNum ++ "\n"

/-! ### Printing what is read -/

def in_chunk (chunkNum : Nat) (message : String) : String := message ++ " in chunk #" ++ toString chunkNum

/-- `parseDiffData`, with what it prints. -/
def printDiffData (chunkNum : Nat) : Nat → Nat → Nat → PrintM (Nat × Nat)
  | 0, _, _ => throw ""
  | fuel + 1, diffSize, opCount => do
    if ← reading at_diff_opcode id then
      let opcode ← reading read_diff_opcode (in_chunk chunkNum)
      if opCount < maxPrintedOps then print (opcodeLine opcode) else pure ()
      printDiffData chunkNum fuel (diffSize + opcode_size opcode) (opCount + 1)
    else
      print (moreOpcodes opCount)
      reading (finish_diff opCount) (in_chunk chunkNum)
      pure (diffSize, opCount)

def print_chunk (fuel chunkNum : Nat) (header : DeltaEntryHeader) : PrintM Unit := do
  print (entryLines chunkNum header)
  match header.type with
  | .ORIGINAL_CHUNK => pure ()
  | .ADDED_CHUNK =>
    let rawData ← reading (read_payload header.out_size.toNat)
      (fun _ => "Truncated ADDED payload in chunk #" ++ toString chunkNum)
    print (addedLine rawData)
  | .MODIFIED_CHUNK =>
    print "  Diff Operations:\n"
    let (diffSize, opCount) ← printDiffData chunkNum fuel 0 0
    print (diffLines diffSize opCount)
  print "\n"

def print_items (fuel : Nat) : Nat → Nat → PrintM (Nat × Bool)
  | 0, _ => throw ""
  | left + 1, chunkNum => do
    match ← reading next_item id with
    | .End => pure (chunkNum, false)
    | .Trailer =>
      let trailer ← reading read_trailer id
      print (trailerLine trailer)
      pure (chunkNum, true)
    | .Entry =>
      let header ← reading read_entry_header (in_chunk (chunkNum + 1))
      print_chunk fuel (chunkNum + 1) header
      print_items fuel left (chunkNum + 1)

def print_stream (fuel : Nat) : PrintM Nat := do
  reading read_header id
  print versionLine
  let (chunkNum, saw_trailer) ← print_items fuel fuel 0
  reading (finish saw_trailer) id
  print (footing chunkNum)
  pure chunkNum

/-- The exit status, and what is on the console. -/
def report_result : EStateM.Result String (DeltaReader × Console) Nat → Nat × Console
  | .ok _ (_, c) => (0, c)
  | .error message (r, c) =>
    (if r.io_error then 2 else 1, { c with cerr := c.cerr ++ "Error: " ++ message ++ "\n" })

/-- `view_delta`, with what it prints. -/
def print_delta (env : Environment) (delta_file : Path) (s : System) : Nat × Console × System :=
  match FileIo.open_in env delta_file s with
  | (false, _, s) => (2, { cerr := "Error: Cannot open file " ++ quoted delta_file.string ++ "\n" }, s)
  | (true, file, s) =>
    let (status, console) :=
      report_result (print_stream (file.f_.reach + 1) (reader file, { cout := heading delta_file }))
    (status, console, s)

end DeltaViewer

end Roll
