import DiceTome.Settings

/-!
# Save targets

A tome is saved at a path, under a title in the data directory, or under a name that is made up so
that no file is in its place.

* `SaveTarget.resolve` gives the path of a target.
-/

namespace DiceTome

/-- Where to save or load a tome. -/
inductive SaveTarget where
  | generated
  | title (title : String)
  | path (path : Path)
  deriving Repr, DecidableEq

/-- The directory that tomes are kept in. -/
def dataDirectory (env : Environment) (s : Settings) : Except PlaceError Path :=
  match s.dataDir, env.nonempty? "XDG_DATA_HOME", env.nonempty? "HOME",
      env.nonempty? "LOCALAPPDATA" with
  | some path, _, _, _ => .ok path
  | none, some base, _, _ => .ok ((Path.ofString base).child "spells")
  | none, none, some base, _ =>
    .ok ((((Path.ofString base).child ".local").child "share").child "spells")
  | none, none, none, some base => .ok ((Path.ofString base).child "spells")
  | none, none, none, none => .error .noDataDirectory

/-- Why a target has no path. -/
inductive TargetError where
  | place (cause : PlaceError)
  | file (cause : FileError)
  deriving Repr, DecidableEq

namespace SaveTarget

/-- The made-up name with an index. -/
def generatedName (index : Nat) : String :=
  if index = 0 then "untitled" else s!"untitled{index}"

/-- The path of a title in a directory. -/
def titlePath (directory : Path) (title : String) : Path :=
  directory.child (title ++ ".tome")

/-- The path of a made-up name in a directory. -/
def generatedPath (directory : Path) (index : Nat) : Path :=
  titlePath directory (generatedName index)

/-- The first index from the given one on whose made-up name is free, or the last one after `tries`
of them. -/
def freeIndexFrom (files : FileTree) (directory : Path) : Nat → Nat → Except FileError Nat
  | 0, index => .ok index
  | tries + 1, index => do
    if ← files.pathExists (generatedPath directory index) then
      freeIndexFrom files directory tries (index + 1)
    else return index

/-- The first index whose made-up name is free. There are no more names in use than entries in the
tree, so that one of the first ones is free. -/
def freeIndex (files : FileTree) (directory : Path) : Except FileError Nat :=
  freeIndexFrom files directory (files.entries.length + 1) 0

/-- The target that a text spells: a path if it looks like one, else a title. -/
def ofString (env : Environment) (s : String) : Except PlaceError SaveTarget :=
  if s.toList.contains '.' || s.toList.contains '/' then
    ((Path.ofString s).expandUser env).map path
  else .ok (title s)

/-- The path of a target. -/
def resolve (env : Environment) (s : Settings) (files : FileTree) :
    SaveTarget → Except TargetError Path
  | path p => .ok p
  | title t => do
    let directory ← (dataDirectory env s).mapError .place
    return titlePath directory t
  | generated => do
    let directory ← (dataDirectory env s).mapError .place
    return generatedPath directory (← (freeIndex files directory).mapError .file)

end SaveTarget

end DiceTome
