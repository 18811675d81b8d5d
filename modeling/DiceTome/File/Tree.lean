import DiceTome.File.Path
import DiceTome.Text.Lines
import DiceTome.Text.Utf8

/-!
# File trees

The files and directories that a session can see, and the operations on them with the errors they
raise. Reading a text file unifies its line breaks; writing stores the text as it is. Nothing is said
here of a write that breaks off, for want of room say, when it has emptied the file.

* `FileTree.locate` follows a path through existing directories.
* `FileTree.readText`, `FileTree.writeText` and `FileTree.makeDirectories` are the operations.
-/

namespace DiceTome

/-- What a file holds: text, or bytes that are no text. -/
inductive Content where
  | text (s : String)
  | bytes (bytes : List Nat)
  deriving Repr, DecidableEq

/-- The content of a file that holds some bytes. -/
def Content.ofBytes (bytes : ByteArray) : Content :=
  match String.fromUTF8? bytes with
  | some s => .text s
  | none => .bytes (bytes.toList.map UInt8.toNat)

/-- A file or a directory. -/
inductive Entry where
  | file (content : Content)
  | directory
  deriving Repr, DecidableEq

/-- Directories that are always there: the current one, those above it, and the root. -/
inductive Anchor where
  | above (levels : Nat)
  | root
  deriving Repr, DecidableEq

/-- A place in the tree: the names on the way from an anchor. -/
structure Place where
  anchor : Anchor := .above 0
  names : List String := []
  deriving Repr, DecidableEq

/-- The directory that a place lies in. -/
def Place.parent (p : Place) : Place :=
  match p.names, p.anchor with
  | [], .above levels => ⟨.above (levels + 1), []⟩
  | [], .root => p
  | names, _ => { p with names := names.dropLast }

/-- A path that leads to a place. -/
def Place.path (p : Place) : Path :=
  match p.anchor with
  | .above levels => { parts := List.replicate levels ".." ++ p.names }
  | .root => { root := "/", parts := p.names }

/-- The place that a name leads to. -/
def Place.step (p : Place) (name : String) : Place :=
  if name = ".." then p.parent else { p with names := p.names ++ [name] }

/-- The place that a path starts from. -/
def Place.origin (path : Path) : Place :=
  ⟨if path.root = "" then .above 0 else .root, []⟩

/-- What goes wrong with a file. -/
inductive FileError where
  | notFound (path : Path)
  | alreadyExists (path : Path)
  | notADirectory (path : Path)
  | isADirectory (path : Path)
  | nameTooLong (path : Path)
  | embeddedNull
  | undecodable (cause : Text.Utf8Error)
  deriving Repr, DecidableEq

/-- The text of the error. -/
def FileError.message : FileError → String
  | notFound path => s!"[Errno 2] No such file or directory: {Text.quoted path.text}"
  | alreadyExists path => s!"[Errno 17] File exists: {Text.quoted path.text}"
  | notADirectory path => s!"[Errno 20] Not a directory: {Text.quoted path.text}"
  | isADirectory path => s!"[Errno 21] Is a directory: {Text.quoted path.text}"
  | nameTooLong path => s!"[Errno 36] File name too long: {Text.quoted path.text}"
  | embeddedNull => "embedded null byte"
  | undecodable cause => cause.message

/-- Whether the file system reports the error, and not the text of a path or of a file. -/
def FileError.isReportedBySystem : FileError → Bool
  | embeddedNull | undecodable _ => false
  | _ => true

/-- The most bytes that a name in a directory may have. -/
def maxNameBytes : Nat := 255

/-- The most bytes that a path may have. -/
def maxPathBytes : Nat := 4095

/-- Files and directories by their places. -/
structure FileTree where
  entries : List (Place × Entry) := []
  deriving Repr, DecidableEq

namespace FileTree

/-- What stands at a place; anchors are directories. -/
def entry? (t : FileTree) (p : Place) : Option Entry :=
  if p.names = [] then some .directory else t.entries.lookup p

/-- Puts something at a place, instead of what was there. -/
def insert (t : FileTree) (p : Place) (e : Entry) : FileTree :=
  ⟨t.entries.filter (fun entry => entry.1 ≠ p) ++ [(p, e)]⟩

/-- Puts something at a place below the current directory, and directories on the way there. -/
def plant (t : FileTree) (names : List String) (e : Entry) : FileTree :=
  let parents := (List.range names.length).drop 1 |>.map fun n => (⟨.above 0, names.take n⟩ : Place)
  (parents.foldl (fun t p => t.insert p .directory) t).insert ⟨.above 0, names⟩ e

/-- The files below the current directory with their names. -/
def regularFiles (t : FileTree) : List (List String × Content) :=
  t.entries.filterMap fun
    | (⟨.above 0, names⟩, .file content) => some (names, content)
    | _ => none

/-- Fails unless a directory stands at a place; `path` is the path that leads there. -/
def requireDirectory (t : FileTree) (path : Path) (p : Place) : Except FileError Unit :=
  match t.entry? p with
  | some .directory => .ok ()
  | some (.file _) => .error (.notADirectory path)
  | none => .error (.notFound path)

/-- Follows names from a place. Every place that the way leads through has to be a directory. -/
def locateFrom (t : FileTree) (path : Path) : Place → List String → Except FileError Place
  | here, [] => .ok here
  | here, name :: rest => do
    t.requireDirectory path here
    if maxNameBytes < name.utf8ByteSize then throw (.nameTooLong path)
    locateFrom t path (here.step name) rest

/-- The place that a path leads to. -/
def locate (t : FileTree) (path : Path) : Except FileError Place := do
  if path.text.toList.contains '\x00' then throw .embeddedNull
  if maxPathBytes < path.text.utf8ByteSize then throw (.nameTooLong path)
  t.locateFrom path (Place.origin path) path.parts

/-- What a path leads to, if anything. -/
def find? (t : FileTree) (path : Path) : Option Entry :=
  match t.locate path with
  | .ok p => t.entry? p
  | .error _ => none

/-- Whether a path leads to a file or directory; a name that is too long is an error. -/
def pathExists (t : FileTree) (path : Path) : Except FileError Bool :=
  match t.locate path with
  | .ok p => .ok (t.entry? p).isSome
  | .error (.nameTooLong path) => .error (.nameTooLong path)
  | .error _ => .ok false

/-- Whether a path leads to a directory. -/
def isDirectory (t : FileTree) (path : Path) : Bool :=
  t.find? path = some .directory

/-- The content of a file. -/
def content (t : FileTree) (path : Path) : Except FileError Content := do
  match t.entry? (← t.locate path) with
  | none => throw (.notFound path)
  | some .directory => throw (.isADirectory path)
  | some (.file content) => return content

/-- The text of a file, with its line breaks unified. -/
def readText (t : FileTree) (path : Path) : Except FileError String := do
  match ← t.content path with
  | .text s => return String.ofList (Text.unifyNewlines s.toList)
  | .bytes bytes =>
    match Text.utf8Error? bytes with
    | some cause => throw (.undecodable cause)
    | none => return ""

/-- Writes a text into a file, which is made if need be. A write that has been started is taken to
succeed. -/
def writeText (t : FileTree) (path : Path) (s : String) : Except FileError FileTree := do
  let p ← t.locate path
  if t.entry? p = some .directory then throw (.isADirectory path)
  return t.insert p (.file (.text s))

/-- Makes one directory, in a directory that exists. -/
def makeDirectory (t : FileTree) (path : Path) : Except FileError FileTree := do
  let p ← t.locate path
  if (t.entry? p).isSome then throw (.alreadyExists path)
  return t.insert p .directory

/-- Makes a directory that may exist already. -/
def ensureDirectory (t : FileTree) (path : Path) : Except FileError FileTree :=
  match t.makeDirectory path with
  | .error (.notFound p) => .error (.notFound p)
  | .error e => if t.isDirectory path then .ok t else .error e
  | .ok t => .ok t

/-- The tree that an operation leaves, which is the old one if it fails, and whether it has failed. -/
def settle (t : FileTree) : Except FileError FileTree → FileTree × Except FileError Unit
  | .ok t => (t, .ok ())
  | .error e => (t, .error e)

/-- Makes a directory and those above it as far as they are missing; at most `depth` of them. The
directories that have been made stay if a later one cannot be made. -/
def makeDirectoriesTo : Nat → FileTree → Path → FileTree × Except FileError Unit
  | 0, t, path => t.settle (t.ensureDirectory path)
  | depth + 1, t, path =>
    match t.ensureDirectory path with
    | .error (.notFound p) =>
      if path.parent = path then (t, .error (.notFound p))
      else
        match makeDirectoriesTo depth t path.parent with
        | (t, .ok ()) => t.settle (t.ensureDirectory path)
        | failed => failed
    | result => t.settle result

/-- Makes a directory and those above it as far as they are missing. -/
def makeDirectories (t : FileTree) (path : Path) : FileTree × Except FileError Unit :=
  makeDirectoriesTo path.parts.length t path

end FileTree

end DiceTome
