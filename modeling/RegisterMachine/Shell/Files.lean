-- File access: what a command may do with files, and a small file system in
-- which it can be done without the outside world.
import RegisterMachine.Shell.Path

namespace RegisterMachine

/-- Why a file cannot be read or written. -/
inductive FileError where
  | notFound
  | notDirectory
  | isDirectory
  | nameTooLong
  /-- A path with a NUL in it, which no system call can be given. -/
  | nulInName
  | notText
  /-- Any other reason of the system. -/
  | other (reason : String)
  deriving DecidableEq, Repr, Inhabited

def FileError.message : FileError → String
  | .notFound => "No such file or directory (os error 2)"
  | .notDirectory => "Not a directory (os error 20)"
  | .isDirectory => "Is a directory (os error 21)"
  | .nameTooLong => "File name too long (os error 36)"
  | .nulInName => "file name contained an unexpected NUL byte"
  | .notText => "stream did not contain valid UTF-8"
  | .other reason => reason

/-- The ways of a command to the files. -/
structure FileAccess (m : Type → Type) where
  isPresent : String → m Bool
  read : String → m (Except FileError (List UInt8))
  write : String → List UInt8 → m (Except FileError Unit)

/-- Bytes as text. -/
def textOfBytes (bytes : List UInt8) : Except FileError String :=
  match String.fromUTF8? ⟨bytes.toArray⟩ with
  | some text => .ok text
  | none => .error .notText

/-- Reads a file as text. -/
def FileAccess.readText {m : Type → Type} [Monad m] (access : FileAccess m) (path : String) :
    m (Except FileError String) := do
  return (← access.read path).bind textOfBytes

/-! ## A file system -/

/-- A tree of files and directories. Each of them is found by the names that
lead to it from the root. -/
structure Files where
  /-- The working directory, in which relative paths start. -/
  home : List String
  files : List (List String × List UInt8) := []
  directories : List (List String) := []
  deriving DecidableEq, Repr, Inhabited

/-- What stands at a place of the tree. -/
inductive Node where
  | file (content : List UInt8)
  | directory
  deriving DecidableEq, Repr, Inhabited

/-- The end of a path: its last part, and the directory that the parts before
it lead to. -/
structure Target where
  directory : List String
  last : String
  /-- Whether a slash stands behind the last part. -/
  slashed : Bool
  deriving DecidableEq, Repr, Inhabited

namespace Target

/-- Whether the last part is a directory by its name alone. -/
def isDots (target : Target) : Bool := target.last = "." || target.last = ".."

/-- The place of the last part, when it is a name. -/
def place (target : Target) : List String := target.directory ++ [target.last]

end Target

namespace Files

/-- The most bytes of a path. -/
def maxPathSize : Nat := 4095

/-- The most bytes of a name in a directory. -/
def maxNameSize : Nat := 255

/-- A tree with the given files and directories in the working directory. -/
def make (home : List String) (files : List (String × List UInt8)) (directories : List String) :
    Files :=
  { home
    files := files.map fun (path, content) => (home ++ Path.parts path, content)
    directories := directories.map fun path => home ++ Path.parts path }

/-! ### Looking up -/

/-- The working directory, the directories that were made, and all that lie on
the way to one of them or to a file. -/
def isDirectory (files : Files) (place : List String) : Bool :=
  place.isPrefixOf files.home || files.directories.any (place.isPrefixOf ·) ||
    files.files.any fun (name, _) => name != place && place.isPrefixOf name

def content? (files : Files) (place : List String) : Option (List UInt8) :=
  (files.files.find? (·.1 == place)).map (·.2)

def node? (files : Files) (place : List String) : Option Node :=
  if files.isDirectory place then some .directory else (files.content? place).map .file

/-- What stands at the place of a name, unless the name is too long. -/
def lookUp (files : Files) (directory : List String) (name : String) :
    Except FileError (Option Node) :=
  if maxNameSize < name.utf8ByteSize then .error .nameTooLong
  else .ok (files.node? (directory ++ [name]))

/-- Goes from a directory into the one that a part of a path names. Above the
root there is the root. -/
def enter (files : Files) (here : List String) (part : String) :
    Except FileError (List String) := do
  if part = "." then return here
  if part = ".." then return here.dropLast
  match ← files.lookUp here part with
  | some .directory => return here ++ [part]
  | some (.file _) => throw .notDirectory
  | none => throw .notFound

/-- Goes through directories one after the other. -/
def follow (files : Files) (here : List String) : List String → Except FileError (List String)
  | [] => .ok here
  | part :: rest => do files.follow (← files.enter here part) rest

/-- Where a path leads. Only the last part of it may be missing, or be
something else than a directory. -/
def target (files : Files) (path : String) : Except FileError Target := do
  if path.toList.contains '\x00' then throw .nulInName
  if path = "" then throw .notFound
  if maxPathSize < path.utf8ByteSize then throw .nameTooLong
  let parts := Path.parts path
  let start := if Path.isAbsolute path then [] else files.home
  let directory ← files.follow start parts.dropLast
  return ⟨directory, parts.getLast?.getD ".", Path.endsInSlash path⟩

/-! ### Reading and writing -/

/-- What stands at a path. A slash behind a name asks for a directory. -/
def find (files : Files) (path : String) : Except FileError Node := do
  let target ← files.target path
  if target.isDots then return .directory
  match ← files.lookUp target.directory target.last with
  | some (.file content) => if target.slashed then throw .notDirectory else return .file content
  | some .directory => return .directory
  | none => throw .notFound

def isPresent (files : Files) (path : String) : Bool := (files.find path).isOk

def read (files : Files) (path : String) : Except FileError (List UInt8) := do
  match ← files.find path with
  | .file content => return content
  | .directory => throw .isDirectory

def put (files : Files) (place : List String) (content : List UInt8) : Files :=
  { files with files := files.files.filter (·.1 != place) ++ [(place, content)] }

/-- Writes a file, and makes it when there is none. A path with a slash behind
it is taken for a directory before it is looked up. -/
def write (files : Files) (path : String) (content : List UInt8) : Except FileError Files := do
  let target ← files.target path
  if target.isDots || target.slashed then throw .isDirectory
  match ← files.lookUp target.directory target.last with
  | some .directory => throw .isDirectory
  | _ => return files.put target.place content

/-- The files in the working directory that are new or have another content
than in `before`, by their paths. -/
def changedSince (files before : Files) : List (String × List UInt8) :=
  (files.files.filter fun (name, content) =>
    files.home.isPrefixOf name && before.content? name != some content).map
    fun (name, content) => ("/".intercalate (name.drop files.home.length), content)

/-- Access to the files of a state. -/
def access : FileAccess (StateM Files) where
  isPresent path := do return (← get).isPresent path
  read path := do return (← get).read path
  write path content := do
    match (← get).write path content with
    | .ok files => set files; return .ok ()
    | .error reason => return .error reason

end Files

end RegisterMachine
