import Roll.FileIo

/-!
The file system behind the handles: names, the files they lead to, and the
system calls.

Directories do not change during a run, so a path is a directory, given by
the text of its parent, and a filename in it. An environment decides which
system calls fail, what the random device yields and what happens to the
files that are opened.
-/
namespace Roll

/-- `parent_path()` and `filename()`. -/
structure Path where
  parent : String
  filename : String
deriving DecidableEq, Repr

def Path.empty (p : Path) : Bool := p.parent = "" && p.filename = ""

def Path.string (p : Path) : String := if p.parent = "" then p.filename else p.parent ++ "/" ++ p.filename

/-- A directory and a filename in it. -/
abbrev Name := Nat × String

/-- What a file holds; a file that is open for writing holds bytes that are
    not determined before it is closed. -/
inductive FileData
  | writing
  | bytes (content : List UInt8)
deriving DecidableEq, Repr

inductive Node
  | file (inode : Nat)
  | directory
  | other
  | link (target : Name)
deriving DecidableEq, Repr

/-- The names and the files; inodes from `next` on are unused. -/
structure FileSystem where
  names : Name → Option Node
  data : Nat → FileData
  permissions : Nat → Nat
  next : Nat
  used : ∀ name i, names name = some (.file i) → i < next

namespace FileSystem

/-- A file system of these files. -/
def holding (files : List (Name × List UInt8)) : FileSystem where
  names := fun n => (files.findIdx? (fun file => file.1 = n)).map .file
  data := fun i => .bytes ((files[i]?.map (·.2)).getD [])
  permissions := fun _ => 0
  next := files.length
  used := by
    intro n i named
    obtain ⟨j, found, same⟩ := Option.map_eq_some_iff.mp named
    obtain rfl : j = i := by simpa using same
    exact (List.findIdx?_eq_some_iff_getElem.mp found).1

/-- What a path leads to. -/
inductive Found
  | missing
  | looping
  | at (node : Node)
deriving DecidableEq, Repr

/-- The longest chain of symbolic links that is followed. -/
def LINK_MAX : Nat := 40

def follow (fs : FileSystem) : Nat → Name → Found
  | 0, _ => .looping
  | fuel + 1, name =>
    match fs.names name with
    | none => .missing
    | some (.link target) => fs.follow fuel target
    | some node => .at node

def lookup (fs : FileSystem) (name : Name) : Found := fs.follow LINK_MAX name

/-- A new file at a name. -/
def create (fs : FileSystem) (name : Name) : FileSystem where
  names := fun n => if n = name then some (.file fs.next) else fs.names n
  data := fun i => if i = fs.next then .writing else fs.data i
  permissions := fs.permissions
  next := fs.next + 1
  used := by
    intro n i named
    split at named
    · obtain rfl : fs.next = i := by simpa using named
      omega
    · have := fs.used n i named
      omega

def store (fs : FileSystem) (inode : Nat) (content : FileData) : FileSystem :=
  { fs with data := fun i => if i = inode then content else fs.data i }

def chmod (fs : FileSystem) (inode mode : Nat) : FileSystem :=
  { fs with permissions := fun i => if i = inode then mode else fs.permissions i }

def remove (fs : FileSystem) (name : Name) : FileSystem where
  names := fun n => if n = name then none else fs.names n
  data := fs.data
  permissions := fs.permissions
  next := fs.next
  used := by
    intro n i named
    split at named
    · cases named
    · exact fs.used n i named

/-- `rename`; two names of one file stay as they are. -/
def rename (fs : FileSystem) (source target : Name) : FileSystem :=
  if fs.names source = fs.names target then fs
  else
    { fs with
      names := fun n => if n = target then fs.names source else if n = source then none else fs.names n
      used := by
        intro n i named
        split at named
        · exact fs.used source i named
        · split at named
          · cases named
          · exact fs.used n i named }

end FileSystem

/-- What happens to a file that is opened: where it cannot be read, and what
    each operation of the stream meets. -/
structure Medium where
  badFrom : Option Nat := none
  handsOver : Bool := true
  events : List Event := []
deriving DecidableEq, Repr

/-- `faults` gives the message of each system call that fails for another reason
    than a missing file, which the names tell. `random` gives the values of the
    random device in the order in which they stand in the names of staged files,
    since the order of the two draws for a name is not specified. `noreplace` says
    whether `std::ios::noreplace` is there. -/
structure Environment where
  faults : Nat → Option String := fun _ => none
  random : Nat → Nat := fun n => n
  media : Path → Medium := fun _ => {}
  noreplace : Bool := true
  directory : String → Nat := fun _ => 0

def Environment.locate (env : Environment) (p : Path) : Name := (env.directory p.parent, p.filename)

/-- The file system with what the process keeps across transactions: the
    draws from the random device, the counter of staged names and the paths
    that a signal handler removes. `moments` lists every state the file system
    went through; nothing looks at it. -/
structure System where
  fs : FileSystem
  moments : List FileSystem := []
  clock : Nat := 0
  draws : Nat := 0
  counter : Nat := 0
  staged_paths : List (Option Path) := List.replicate 16 none

namespace System

/-- The file system changes. -/
def set (s : System) (fs : FileSystem) : System := { s with fs := fs, moments := s.moments ++ [fs] }

/-- A system call: the message it fails with, if it fails. -/
def call (env : Environment) (s : System) : Option String × System := (env.faults s.clock, { s with clock := s.clock + 1 })

/-- `std::random_device`. -/
def draw (env : Environment) (s : System) : Nat × System := (env.random s.draws, { s with draws := s.draws + 1 })

/-- `std::filesystem::status`; an error is given by its message. -/
def status (env : Environment) (p : Path) (s : System) : Except String (Option Node) × System :=
  match s.call env with
  | (some message, s) => (.error message, s)
  | (none, s) =>
    match s.fs.lookup (env.locate p) with
    | .missing => (.ok none, s)
    | .looping => (.error "Too many levels of symbolic links", s)
    | .at node => (.ok (some node), s)

/-- `std::filesystem::exists` with an error code: `false` on an error. -/
def exists_ (env : Environment) (p : Path) (s : System) : Bool × System :=
  match s.status env p with
  | (.ok node, s) => (node.isSome, s)
  | (.error _, s) => (false, s)

/-- `std::filesystem::equivalent`: both lead to one file. -/
def equivalent (env : Environment) (p q : Path) (s : System) : Except String Bool × System :=
  match s.call env with
  | (some message, s) => (.error message, s)
  | (none, s) =>
    match s.fs.lookup (env.locate p), s.fs.lookup (env.locate q) with
    | .at a, .at b => (.ok (a = b), s)
    | _, _ => (.error "No such file or directory", s)

/-- `std::filesystem::rename`; the message of a failure. -/
def rename (env : Environment) (p q : Path) (s : System) : Option String × System :=
  match s.call env with
  | (some message, s) => (some message, s)
  | (none, s) =>
    match s.fs.names (env.locate p), s.fs.names (env.locate q) with
    | none, _ => (some "No such file or directory", s)
    | some _, some .directory => (some "Is a directory", s)
    | some _, _ => (none, s.set (s.fs.rename (env.locate p) (env.locate q)))

/-- `std::filesystem::remove` with an error code. -/
def remove (env : Environment) (p : Path) (s : System) : System :=
  match s.call env with
  | (some _, s) => s
  | (none, s) => if (s.fs.names (env.locate p)).isSome then s.set (s.fs.remove (env.locate p)) else s

/-- `std::filesystem::permissions` of what a path leads to: whether there was
    something; another error is given by its message. -/
def permissions (env : Environment) (p : Path) (mode : Nat) (s : System) : Except String Bool × System :=
  match s.call env with
  | (some message, s) => (.error message, s)
  | (none, s) =>
    match s.fs.lookup (env.locate p) with
    | .missing => (.ok false, s)
    | .looping => (.error "Too many levels of symbolic links", s)
    | .at (.file inode) => (.ok true, s.set (s.fs.chmod inode mode))
    | .at _ => (.ok true, s)

def is_regular : Node → Bool
  | .file _ => true
  | _ => false

end System

namespace FileIo

/-- `open` with `FileMode::IN`. -/
def open_in (env : Environment) (p : Path) (s : System) : Bool × FileIo × System :=
  let f : FileIo := { readable_ := true }
  match s.status env p with
  | (.ok (some (.file inode)), s) =>
    match s.call env with
    | (some _, s) => (false, { f with io_error_ := true }, s)
    | (none, s) =>
      let medium := env.media p
      let content := match s.fs.data inode with
        | .bytes content => content
        | .writing => []
      let stream : FStream := { opened := true, data := content, badFrom := medium.badFrom,
                                handsOver := medium.handsOver, events := medium.events }
      -- `file_size` follows, and the file may be replaced before it.
      let (e, stream) := stream.tick
      if e.fault.isSome then (false, { f with f_ := { stream with opened := false }, io_error_ := true }, s)
      else (true, { f with f_ := stream, size_ := stream.data.length }, s)
  | (_, s) => (false, { f with io_error_ := true }, s)

/-- `open` with `FileMode::INOUT`: what the mode adds to `FileMode::IN` is that
    the stream may be written to. -/
def open_inout (env : Environment) (p : Path) (s : System) : Bool × FileIo × System := open_in env p s

/-- A stream that writes to the new file of a path. -/
def created (env : Environment) (p : Path) : FileIo :=
  { f_ := { opened := true, events := (env.media p).events } }

/-- The exclusive creation of a file: its inode, or none when the call fails
    or the name is there. -/
def create (env : Environment) (p : Path) (s : System) : Option Nat × System :=
  match s.call env with
  | (some _, s) => (none, s)
  | (none, s) =>
    if (s.fs.names (env.locate p)).isSome then (none, s)
    else (some s.fs.next, s.set (s.fs.create (env.locate p)))

/-- `open` with `FileMode::EXCLUSIVE_OUT`, and the inode of the file. Without
    `std::ios::noreplace` the file is created first and reopened. -/
def open_exclusive (env : Environment) (p : Path) (s : System) : Option Nat × FileIo × System :=
  match create env p s with
  | (none, s) => (none, { io_error_ := true }, s)
  | (some inode, s) =>
    if env.noreplace then (some inode, created env p, s)
    else
      match s.call env with
      | (some _, s) => (none, { io_error_ := true }, s)
      | (none, s) =>
        match s.call env with
        | (some _, s) => (none, { io_error_ := true }, s)
        | (none, s) => (some inode, created env p, s)

end FileIo

end Roll
