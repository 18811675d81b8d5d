import DiceTome.File.Tree
import DiceTome.Settings.Document
import DiceTome.Settings.Layout
import DiceTome.Text.Uppercase

/-!
# Settings

The settings of the program and the document they are kept in. The document is looked for at a given
path, at the path that a variable names, or at the usual place; only the usual place may be empty.

* `Settings.ofPairs` checks the settings of a document.
* `Settings.load` and `Settings.save` read and write the document.
-/

namespace DiceTome

/-- What fixes the dice: a number, or a truth value that counts as 0 or 1. A seed that was dropped
fixes nothing, and no dice can be made from it. -/
inductive Seed where
  | number (n : Int)
  | flag (b : Bool)
  | dropped
  deriving Repr, DecidableEq

/-- The natural number that the generator is seeded with. -/
def Seed.magnitude : Seed → Nat
  | number n => n.natAbs
  | flag b => if b then 1 else 0
  | dropped => 0

/-- The seed as a datum. -/
def Seed.datum : Seed → Datum
  | number n => .int n
  | flag b => .bool b
  | dropped => .list []

/-- The settings of the program: where tomes are kept, whether new sessions know the default
definitions, what fixes the dice, how much is logged, and the prompt. -/
structure Settings where
  dataDir : Option Path := none
  loadDefaults : Bool := true
  seed : Option Seed := none
  logLevel : String := "WARNING"
  prompt : Datum := .text "> "
  deriving Repr

/-- What is wrong with a settings document. -/
inductive SettingsError where
  | unknownKeys (keys : List String)
  | keyNotText (found : Datum)
  | keysNotComparable (a b : Datum)
  | notAPath (found : Datum)
  | seedNotInteger (found : Datum)
  | defaultsNotBool (found : Datum)
  | notShowable
  | notAMapping (path : Path)
  | missing (path : Path)
  | document (path : Path) (cause : DocumentError)
  | file (cause : FileError)
  | place (cause : PlaceError)
  deriving Repr

/-- The text of the error. -/
def SettingsError.message : SettingsError → String
  | unknownKeys keys => "unknown configuration keys: " ++ ", ".intercalate keys
  | keysNotComparable a b =>
    let (left, right) := (a.fullKindName, b.fullKindName)
    s!"'<' not supported between instances of '{left}' and '{right}'"
  | keyNotText found => s!"sequence item 0: expected str instance, {found.fullKindName} found"
  | notAPath found => s!"expected str, bytes or os.PathLike object, not {found.kindName}"
  | seedNotInteger found => s!"seed must be an integer, got {found.shown}"
  | defaultsNotBool found => s!"load_defaults must be true or false, got {found.shown}"
  | notShowable => Datum.notShowable
  | notAMapping path => s!"{path.text}: expected a mapping at the top level"
  | missing path => s!"config not found: {path.text}"
  | document path cause => cause.message path.text
  | file cause => cause.message
  | place cause => cause.message

namespace Settings

/-- The keys of the settings, in the order of the document. -/
def keys : List String :=
  ["data_dir", "load_defaults", "seed", "log_level", "prompt"]

/-- An error about a datum that it shows, if it can. -/
def complaint (error : Datum → SettingsError) (d : Datum) : SettingsError :=
  if d.isShowable then error d else .notShowable

/-- The path that a datum spells, with the home directory filled in. -/
def pathOf (env : Environment) : Datum → Except SettingsError (Option Path)
  | .null => .ok none
  | .text s => ((Path.ofString s).expandUser env |>.mapError .place).map some
  | d => .error (.notAPath d)

/-- The seed that a datum spells. -/
def seedOf : Datum → Except SettingsError (Option Seed)
  | .null => .ok none
  | .int n => .ok (some (.number n))
  | .bool b => .ok (some (.flag b))
  | d => .error (complaint .seedNotInteger d)

/-- Fails at the first key that cannot be compared with the one before it. -/
def requireComparable : List Datum → Except SettingsError Unit
  | a :: b :: keys =>
    if a.isComparable b then requireComparable (b :: keys) else .error (.keysNotComparable b a)
  | _ => .ok ()

/-- Fails unless all keys are known. They are named in order, which only texts can be; numbers are
put in order before all other keys. -/
def checkKeys (found : List Datum) : Except SettingsError Unit := do
  let isKnown (d : Datum) := keys.any fun key => Datum.sameKey (.text key) d
  let unknown := found.filter fun d => !isKnown d
  requireComparable (unknown.filter Datum.isNumber ++ unknown.filter fun d => !d.isNumber)
  match unknown.mergeSort Datum.precedes with
  | [] => return
  | first :: rest =>
    if !first.isText then throw (.keyNotText first)
    throw (.unknownKeys ((first :: rest).map Datum.plainText))

/-- The settings that a document gives; whatever it leaves out has its default. -/
def ofPairs (env : Environment) (pairs : List (Datum × Datum)) :
    Except SettingsError Settings := do
  checkKeys (pairs.map Prod.fst)
  let value (key : String) (default : Datum) := (Datum.lookup? pairs key).getD default
  let dataDir ← pathOf env (value "data_dir" .null)
  let seed ← seedOf (value "seed" .null)
  let loadDefaults ← match value "load_defaults" (.bool true) with
    | .bool b => pure b
    | d => throw (complaint .defaultsNotBool d)
  let logLevel := value "log_level" (.text "WARNING")
  if !logLevel.isShowable then throw .notShowable
  return {
    dataDir, loadDefaults, seed
    logLevel := Text.upper logLevel.plainText
    prompt := value "prompt" (.text "> ") }

/-- The settings by their keys, in the order of the document. -/
def toPairs (s : Settings) : List (String × Datum) :=
  [("data_dir", (s.dataDir.map fun p => Datum.text p.text).getD .null),
   ("load_defaults", .bool s.loadDefaults),
   ("seed", (s.seed.map Seed.datum).getD .null),
   ("log_level", .text s.logLevel),
   ("prompt", s.prompt)]

/-- The settings as a document. -/
def document (s : Settings) : String :=
  Layout.document (s.toPairs.map fun p => (.text p.1, p.2))

/-- The settings as the log shows them. -/
def shown (s : Settings) : String :=
  let dataDir := (s.dataDir.map fun p => s!"PosixPath({Text.quoted p.text})").getD "None"
  let seed := ((s.seed.map Seed.datum).getD .null).shown
  let loadDefaults := (Datum.bool s.loadDefaults).shown
  s!"SpellsConfig(data_dir={dataDir}, load_defaults={loadDefaults}, seed={seed}, " ++
    s!"log_level={Text.quoted s.logLevel}, prompt={s.prompt.shown})"

/-! ## Files -/

/-- The usual place of the document. -/
def defaultPath (env : Environment) : Except PlaceError Path := do
  let base ← match env.nonempty? "XDG_CONFIG_HOME" with
    | some base => pure (Path.ofString base)
    | none => pure ((← Path.home env).child ".config")
  return (base.child "spells").child "config.yaml"

/-- Where the document is looked for. -/
def documentPath (env : Environment) (given : Option String) : Except PlaceError Path := do
  let path ← match given, env.nonempty? "SPELLS_CONFIG" with
    | some path, _ => pure (Path.ofString path)
    | none, some path => pure (Path.ofString path)
    | none, none => defaultPath env
  path.expandUser env

/-- The settings of the document at a given path or at one of the other places. -/
def load (env : Environment) (files : FileTree) (given : Option String) :
    Except SettingsError Settings := do
  let path ← (documentPath env given).mapError .place
  if ← (files.pathExists path).mapError .file then
    let source := Inflow.ofContent (← (files.content path).mapError .file)
    let datum ← (Document.read source).mapError (.document path)
    if datum.isVoid then ofPairs env []
    else
      match datum with
      | .map pairs => ofPairs env pairs
      | _ => throw (.notAMapping path)
  else if given.isSome || (env.get? "SPELLS_CONFIG").isSome then throw (.missing path)
  else return {}

/-- Writes the document to a given path or to the usual place, and gives the path. -/
def save (env : Environment) (files : FileTree) (s : Settings) (given : Option String) :
    Except SettingsError (Path × FileTree) := do
  let path ← match given with
    | some path => ((Path.ofString path).expandUser env).mapError .place
    | none => (defaultPath env).mapError .place
  let (files, made) := files.makeDirectories path.parent
  made.mapError .file
  let files ← (files.writeText path s.document).mapError .file
  return (path, files)

end Settings

end DiceTome
