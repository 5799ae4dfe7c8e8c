/-
RecordQuery.Files.Basic — a tree of files and directories.

Files are held under their places: the names on the way from the root. There are
no links: no symbolic link leads a path elsewhere, and no hard link makes two
places share their bytes. So what is said of files here is said of file systems
without links; with links, what is written under one name may change what is
found under another.

A path is walked name by name; every place on the way has to be a directory, two
dots lead back up, and the last name may be new. What stands in the way is told
as a `FileFault`.

Main definitions:
* `Files`, `Files.node?`, `Files.put`, `Files.erase`;
* `FileFault`;
* `Files.target` — where a path leads;
* `Files.read`, `Files.contains`, `Files.listing`;
* `Files.makeDirectory`, `Files.makeDirectories`, `Files.write`, `Files.rename`, `Files.remove`.
-/
import RecordQuery.Files.Path

namespace RecordQuery

/-- The names from the root to a file or directory. -/
abbrev Location := List String

-- Contents are compared as the core library compares byte arrays, whatever else is imported.
attribute [scoped instance (high)] ByteArray.instDecidableEq

/-- A file with bytes of its own, or a directory. There are no links. -/
inductive FileNode where
  | file (content : ByteArray)
  | directory
  deriving DecidableEq

/-- All files and directories, and the directory in which relative paths begin. Every place holds its
own node: there are no symbolic and no hard links. -/
structure Files where
  current : Location
  nodes : List (Location × FileNode)
  deriving DecidableEq

/-- Why a file operation failed. -/
inductive FileFault where
  | notFound
  | busy
  | alreadyExists
  | notDirectory
  | isDirectory
  | nameTooLong
  | zeroInName
  | notText
  | other (text : String)
  deriving DecidableEq

/-- A failure as the system reports it. -/
def FileFault.message : FileFault → String
  | .notFound => "No such file or directory (os error 2)"
  | .busy => "Device or resource busy (os error 16)"
  | .alreadyExists => "File exists (os error 17)"
  | .notDirectory => "Not a directory (os error 20)"
  | .isDirectory => "Is a directory (os error 21)"
  | .nameTooLong => "File name too long (os error 36)"
  | .zeroInName => "file name contained an unexpected NUL byte"
  | .notText => "stream did not contain valid UTF-8"
  | .other text => text

namespace Files

/-! ## Places -/

/-- What is at a place. The root is always there. -/
def node? (files : Files) (place : Location) : Option FileNode :=
  if place.isEmpty then some .directory else files.nodes.lookup place

/-- The files with another node at a place. -/
def put (files : Files) (place : Location) (node : FileNode) : Files :=
  { files with nodes := (place, node) :: files.nodes.filter fun entry => entry.1 != place }

/-- The files without the node at a place. -/
def erase (files : Files) (place : Location) : Files :=
  { files with nodes := files.nodes.filter fun entry => entry.1 != place }

/-- The names in a directory. -/
def namesIn (files : Files) (place : Location) : List String :=
  files.nodes.filterMap fun entry =>
    if entry.1.dropLast = place then entry.1.getLast? else none

/-! ## Paths -/

/-- The longest name and the longest path, in bytes. -/
def maxNameBytes : Nat := 255
def maxPathBytes : Nat := 4095

/-- Where the names lead from a directory on, if all are directories. -/
def enter (files : Files) : (here : Location) → (names : List String) → Except FileFault Location
  | here, [] => .ok here
  | here, name :: names =>
    if name = "." then files.enter here names
    else if name = ".." then files.enter here.dropLast names
    else if maxNameBytes < name.utf8ByteSize then .error .nameTooLong
    else
      match files.node? (here ++ [name]) with
      | none => .error .notFound
      | some (.file _) => .error .notDirectory
      | some .directory => files.enter (here ++ [name]) names

/-- Where a path leads. -/
inductive Target where
  /-- To a directory that was entered on the way. -/
  | entered (place : Location)
  /-- To a place in a directory; with a slash at the end it has to be a directory itself. -/
  | entry (place : Location) (slash : Bool)
  deriving DecidableEq

/-- Where a path leads: all but its last name are entered. -/
def target (files : Files) (path : Path) : Except FileFault Target :=
  if '\x00' ∈ path.text.toList then .error .zeroInName
  else if path.text.isEmpty then .error .notFound
  else if maxPathBytes < path.text.utf8ByteSize then .error .nameTooLong
  else do
    let here ← files.enter (if path.isAbsolute then [] else files.current) path.names.dropLast
    match path.names.getLast? with
    | none => .ok (.entered here)
    | some name =>
      if name = "." then .ok (.entered here)
      else if name = ".." then .ok (.entered here.dropLast)
      else if maxNameBytes < name.utf8ByteSize then .error .nameTooLong
      else .ok (.entry (here ++ [name]) path.endsInSlash)

/-- What a path names. -/
def find (files : Files) (path : Path) : Except FileFault FileNode := do
  match ← files.target path with
  | .entered _ => .ok .directory
  | .entry place slash =>
    match files.node? place with
    | none => .error .notFound
    | some .directory => .ok .directory
    | some (.file content) => if slash then .error .notDirectory else .ok (.file content)

/-! ## Reading -/

/-- The bytes of a file. -/
def read (files : Files) (path : Path) : Except FileFault ByteArray := do
  match ← files.find path with
  | .file content => .ok content
  | .directory => .error .isDirectory

/-- The path names a file or directory. -/
def contains (files : Files) (path : Path) : Bool := (files.find path).isOk

/-- The path names a directory. -/
def isDirectory (files : Files) (path : Path) : Bool :=
  match files.find path with
  | .ok .directory => true
  | _ => false

/-- The names in a directory in order; none if there is no such directory. -/
def listing (files : Files) (path : Path) : List String :=
  match files.target path, files.isDirectory path with
  | .ok (.entered place), true | .ok (.entry place _), true =>
    (files.namesIn place).mergeSort fun a b => decide (a ≤ b)
  | _, _ => []

/-! ## Changes -/

/-- One new directory. -/
def makeDirectory (files : Files) (path : Path) : Except FileFault Files := do
  match ← files.target path with
  | .entered _ => .error .alreadyExists
  | .entry place _ =>
    match files.node? place with
    | some _ => .error .alreadyExists
    | none => .ok (files.put place .directory)

/-- A directory that is new or was there before. -/
def ensureDirectory (files : Files) (path : Path) : Except FileFault Files :=
  match files.makeDirectory path with
  | .ok files => .ok files
  | .error fault => if files.isDirectory path then .ok files else .error fault

/-- The first of some paths as a directory. Where a directory above it is missing, the next path
is made first; what was made stays there when a later step fails. -/
def makeFirst : List Path → Files → Except FileFault Unit × Files
  | [], files => (.ok (), files)
  | path :: above, files =>
    if path.text.isEmpty then (.ok (), files)
    else
      match files.makeDirectory path with
      | .ok files => (.ok (), files)
      | .error .notFound =>
        match makeFirst above files with
        | (.error fault, files) => (.error fault, files)
        | (.ok (), files) =>
          match files.ensureDirectory path with
          | .ok files => (.ok (), files)
          | .error fault => (.error fault, files)
      | .error fault => if files.isDirectory path then (.ok (), files) else (.error fault, files)

/-- A directory and all that are missing above it. -/
def makeDirectories (files : Files) (path : Path) : Except FileFault Unit × Files :=
  makeFirst path.ancestors files

/-- A file with new content. -/
def write (files : Files) (path : Path) (content : ByteArray) : Except FileFault Files := do
  match ← files.target path with
  | .entered _ => .error .isDirectory
  | .entry place slash =>
    if slash then .error .isDirectory
    else
      match files.node? place with
      | some .directory => .error .isDirectory
      | _ => .ok (files.put place (.file content))

/-- A file under a new path; a file that was there is replaced. A directory is refused here, although
systems can move one: what is renamed in this library is a file that was written just before. -/
def rename (files : Files) (source path : Path) : Except FileFault Files := do
  match ← files.target source, ← files.target path with
  | .entered _, _ | _, .entered _ => .error .busy
  | .entry old oldSlash, .entry new newSlash =>
    match files.node? old with
    | none => .error .notFound
    | some .directory => .error .isDirectory
    | some (.file content) =>
      if oldSlash || newSlash then .error .notDirectory
      else
        match files.node? new with
        | some .directory => .error .isDirectory
        | _ => .ok ((files.erase old).put new (.file content))

/-- The files without a file. -/
def remove (files : Files) (path : Path) : Except FileFault Files := do
  match ← files.target path with
  | .entered _ => .error .isDirectory
  | .entry place slash =>
    match files.node? place with
    | none => .error .notFound
    | some .directory => .error .isDirectory
    | some (.file _) => if slash then .error .notDirectory else .ok (files.erase place)

end Files

end RecordQuery
