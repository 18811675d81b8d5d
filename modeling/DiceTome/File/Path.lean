/-!
# Paths

A path is an optional root and the names on the way. Empty names and `.` are dropped when a path is
read, `..` is kept. A first name that starts with `~` stands for a home directory.
-/

namespace DiceTome

/-- A path of a file or directory. -/
structure Path where
  root : String := ""
  parts : List String := []
  deriving Repr, DecidableEq, Inhabited

/-- What the surroundings of the program fail to provide. -/
inductive PlaceError where
  | noHome
  | noDataDirectory
  deriving Repr, DecidableEq

/-- The text of the error. -/
def PlaceError.message : PlaceError → String
  | noHome => "Could not determine home directory."
  | noDataDirectory => "no data directory: set HOME or data_dir in the config"

/-- The surroundings of the program: variables, the account of the user, and the home directories
that the system keeps for accounts. -/
structure Environment where
  entries : List (String × String) := []
  account : String := "root"
  homes : List (String × String) := [("root", "/root"), ("nobody", "/nonexistent")]
  deriving Repr, DecidableEq

/-- The value of a variable, if it is set. -/
def Environment.get? (env : Environment) (name : String) : Option String :=
  env.entries.lookup name

/-- The value of a variable, if it is set and not empty. -/
def Environment.nonempty? (env : Environment) (name : String) : Option String :=
  (env.get? name).filter fun value => !value.isEmpty

/-- The home directory of the user: the one that a variable names, or else the one that the system
keeps. -/
def Environment.home? (env : Environment) : Option String :=
  (env.get? "HOME").or (env.homes.lookup env.account)

namespace Path

/-- The pieces of a text between slashes. -/
def pieces : List Char → List (List Char)
  | [] => [[]]
  | c :: cs =>
    if c == '/' then [] :: pieces cs
    else
      match pieces cs with
      | [] => [[c]]
      | piece :: rest => (c :: piece) :: rest

/-- The root of an absolute path: exactly two slashes in front are kept, others are one. -/
def rootOf (cs : List Char) : String :=
  match (cs.takeWhile (· == '/')).length with
  | 0 => ""
  | 2 => "//"
  | _ => "/"

/-- The path that a text spells. -/
def ofString (s : String) : Path where
  root := rootOf s.toList
  parts := ((pieces s.toList).map String.ofList).filter fun part => part ≠ "" ∧ part ≠ "."

/-- The path as text; the empty path is the current directory. -/
def text (p : Path) : String :=
  if p.root = "" ∧ p.parts = [] then "." else p.root ++ "/".intercalate p.parts

/-- The path below another one, unless it has a root of its own. -/
def join (p q : Path) : Path :=
  if q.root = "" then ⟨p.root, p.parts ++ q.parts⟩ else q

/-- A name in the directory of a path. -/
def child (p : Path) (name : String) : Path :=
  p.join (ofString name)

/-- The path without its last name. -/
def parent (p : Path) : Path :=
  { p with parts := p.parts.dropLast }

/-- A text without slashes at its end. -/
def dropTrailingSlashes (s : String) : String :=
  String.ofList (s.toList.reverse.dropWhile (· == '/')).reverse

/-- The path of a home directory. -/
def ofHome : Option String → Except PlaceError Path
  | none => .error .noHome
  | some directory =>
    let directory := dropTrailingSlashes directory
    if directory.startsWith "~" then .error .noHome
    else .ok (ofString (if directory.isEmpty then "/" else directory))

/-- The home directory of the user. -/
def home (env : Environment) : Except PlaceError Path :=
  ofHome env.home?

/-- The path with a leading `~` replaced by the home directory of the user, or of the account whose
name follows it. -/
def expandUser (env : Environment) (p : Path) : Except PlaceError Path :=
  match p.parts with
  | first :: rest =>
    if p.root = "" ∧ first.startsWith "~" then do
      let account := String.ofList (first.toList.drop 1)
      let directory ← if account.isEmpty then home env else ofHome (env.homes.lookup account)
      return ⟨directory.root, directory.parts ++ rest⟩
    else .ok p
  | [] => .ok p

end Path

end DiceTome
