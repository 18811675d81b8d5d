import DiceTome.SaveTarget
import DiceTome.Text.Blank
import DiceTome.Text.Words
import DiceTome.Tome

/-!
# Interactive sessions

A session reads lines: an expression is evaluated and its outcome printed, and a line that starts
with a point is a command to save, load or leave. The session remembers the tome it last saved or
loaded in a cache, which is a tome itself, so that the next session can pick it up.

* `Session.handleLine` takes one line and tells whether the session goes on.
* `Session.restore` picks up the tome of the session before.
* `Session.run` takes input until the session ends or the input is used up.
-/

namespace DiceTome

/-- What is wrong with a command. -/
inductive CommandError where
  | words (cause : Text.WordsError)
  | noCommand
  | unknownCommand (name : String)
  | tooManyArguments
  | loadUsage
  | exitUsage
  deriving Repr, DecidableEq

/-- The text of the error. -/
def CommandError.message : CommandError → String
  | words cause => cause.message
  | noCommand => "command syntax: .<command> [argument ...]"
  | unknownCommand name => s!"not a command: {name}"
  | tooManyArguments => "expected at most one argument"
  | loadUsage => "usage: .load TITLE|PATH"
  | exitUsage => "usage: .exit [nosave]"

/-- What goes wrong in a session. -/
inductive SessionError where
  | source (cause : Error)
  | command (cause : CommandError)
  | file (cause : FileError)
  | place (cause : PlaceError)
  | unusableSeed
  | unusablePrompt
  deriving Repr

namespace SessionError

/-- The error of a target without a path. -/
def ofTarget : TargetError → SessionError
  | .place cause => place cause
  | .file cause => file cause

/-- The text of the error. -/
def message : SessionError → String
  | source cause => cause.text
  | command cause => cause.message
  | file cause => cause.message
  | place cause => cause.message
  | unusableSeed =>
    "The only supported seed types are: None,\nint, float, str, bytes, and bytearray."
  | unusablePrompt => Datum.notShowable

/-- Whether a session goes on after the error: every error but a number that is too large, a seed
that fixes no dice and a prompt that cannot be shown. -/
def isReported : SessionError → Bool
  | source cause => !cause.isOverflow
  | unusableSeed | unusablePrompt => false
  | _ => true

/-- Whether the error says that a tome is missing or wrong, and not that its text or its path is no
text. -/
def isTomeFault : SessionError → Bool
  | source cause => cause.isDiagnosed
  | file cause => cause.isReportedBySystem
  | _ => false

/-- Whether the error says that a file or its place cannot be used. -/
def isFileFault : SessionError → Bool
  | file cause => cause.isReportedBySystem
  | place _ => true
  | _ => false

end SessionError

/-- A session: the world with its dice, the cache and the dice for it, and the surroundings. -/
structure Session (σ : Type) where
  world : World σ
  cache : Context := {}
  cacheDice : σ
  settings : Settings := {}
  environment : Environment := {}
  files : FileTree := {}
  interrupted : Bool := false

/-- A step over a session that may fail and keeps the session either way. -/
abbrev Deed (σ : Type) := ExceptT SessionError (StateM (Session σ))

namespace Session

/-- An act in the world of the session. -/
def inWorld (act : Act σ α) : Deed σ α := fun s =>
  let (result, world) := act.run s.world
  (result.mapError .source, { s with world })

/-- An act in the world of the session, but on the cache and with the dice for it. -/
def inCache (act : Act σ α) : Deed σ α := fun s =>
  let (result, world) := act.run { s.world with context := s.cache, dice := s.cacheDice }
  let s := { s with
    cache := world.context
    cacheDice := world.dice
    world := { world with context := s.world.context, dice := s.world.dice } }
  (result.mapError .source, s)

/-- Prints a line. -/
def printLine (line : String) : Deed σ Unit :=
  inWorld (World.printLine line).act

/-- Enters an event into the journal. -/
def record (e : Event) : Deed σ Unit :=
  inWorld (World.record e).act

/-- An answer that may be an error. -/
def check (wrap : ε → SessionError) (answer : Except ε α) : Deed σ α :=
  ExceptT.mk (pure (answer.mapError wrap))

/-! ## Saving and loading -/

/-- The name of the variable in the cache that holds the path of the last tome. -/
def savePathName : String := "SAVE_PATH"

/-- The target of the cache. -/
def cacheTarget : SaveTarget := .title "_cache"

/-- The path of the tome that was last saved or loaded. -/
def savePath? (s : Session σ) : Option Path :=
  match s.cache.rootScope.find? savePathName with
  | some (.value (.string path)) => some (Path.ofString path)
  | _ => none

/-- Remembers the path of a tome. -/
def rememberPath (path : Path) : Deed σ Unit :=
  modify fun s => { s with
    cache := s.cache.bind Context.root savePathName (.value (.string path.text)) }

/-- The path of a target. -/
def resolve (target : SaveTarget) : Deed σ Path := do
  let s ← get
  check .ofTarget (target.resolve s.environment s.settings s.files)

/-- Writes a context to a target and gives the path. The directories that it makes on the way stay if
it fails. -/
def saveContext (context : Context) (target : SaveTarget) : Deed σ Path := do
  let path ← resolve target
  let (files, made) := (← get).files.makeDirectories path.parent
  modify fun s => { s with files }
  check .file made
  context.dumpEvents.forM record
  let files ← check .file ((← get).files.writeText path context.dump)
  modify fun s => { s with files }
  record (.saved path.text)
  return path

/-- The text of the tome at a target, and its path. -/
def readTome (target : SaveTarget) : Deed σ (String × Path) := do
  let path ← resolve target
  let text ← check .file ((← get).files.readText path)
  return (text, path)

/-- Replaces the context of the world by that of a tome, unless the tome fails. -/
def replaceContext [DiceSource σ] (text : String) : Deed σ Unit := do
  let before := (← get).world.context
  try
    inWorld do
      modify fun w => { w with context := {} }
      let _ ← World.evalTome text
  catch e =>
    modify fun s => { s with world.context := before }
    throw e

/-- Evaluates the tome of the cache into a fresh cache, unless it fails. -/
def replaceCache [DiceSource σ] (text : String) : Deed σ Unit := do
  let before := (← get).cache
  try
    inCache do
      modify fun w => { w with context := {} }
      let _ ← World.evalTome text
  catch e =>
    modify fun s => { s with cache := before }
    throw e

/-- Reads the cache of the session before, if there is one. -/
def loadCache [DiceSource σ] : Deed σ Unit := do
  let path ← resolve cacheTarget
  if ← check .file ((← get).files.pathExists path) then
    let (text, path) ← readTome cacheTarget
    replaceCache text
    record (.loaded path.text)
  else
    modify fun s => { s with cache := {} }

/-- Writes the cache; that its file cannot be written is only recorded. -/
def writeCache : Deed σ Unit := do
  try
    let _ ← saveContext (← get).cache cacheTarget
  catch e =>
    if e.isFileFault then record (.unwritableCache e.message) else throw e

/-! ## Commands -/

/-- The target that the arguments of a command name: one of them at most, or else the last tome, or
else a made-up name. -/
def target (args : List String) : Deed σ SaveTarget := do
  match args with
  | [] =>
    match (← get).savePath? with
    | some path => return .path path
    | none => return .generated
  | [arg] => check .place (SaveTarget.ofString (← get).environment arg)
  | _ => throw (.command .tooManyArguments)

/-- Saves the definitions of the session. -/
def saveCommand (args : List String) : Deed σ Unit := do
  let target ← target args
  let path ← saveContext (← get).world.context target
  rememberPath path
  printLine s!"Saved to {path.text}"

/-- Replaces the session by a saved tome. -/
def loadCommand [DiceSource σ] (args : List String) : Deed σ Unit := do
  let target ← target args
  if target = .generated then throw (.command .loadUsage)
  let (text, path) ← readTome target
  replaceContext text
  record (.loaded path.text)
  rememberPath path
  printLine s!"Loaded {path.text}"

/-- Whether the arguments of the exit command ask for no saving; `none` if they are wrong. -/
def exitWithoutSaving? : List String → Option Bool
  | [] => some false
  | [arg] => if arg = "!" ∨ arg = "nosave" then some true else none
  | _ => none

/-- Leaves the session, after saving unless told otherwise. -/
def exitCommand (args : List String) : Deed σ Unit := do
  match exitWithoutSaving? args with
  | none => throw (.command .exitUsage)
  | some nosave =>
    if !nosave then saveCommand []
    writeCache

/-- Runs a command, given without its point, and tells whether the session goes on. -/
def runCommand [DiceSource σ] (cs : List Char) : Deed σ Bool := do
  match ← check (fun e => .command (.words e)) (Text.splitWords cs) with
  | [] => throw (.command .noCommand)
  | "save" :: args => do saveCommand args; return true
  | "load" :: args => do loadCommand args; return true
  | "exit" :: args => do exitCommand args; return false
  | name :: _ => throw (.command (.unknownCommand name))

/-- Evaluates a line and prints its outcome. -/
def evalLine [DiceSource σ] (line : String) : Deed σ Unit := do
  let outcome ← inWorld (World.evalSource line)
  if !outcome.text.isEmpty then printLine outcome.text

/-- Takes a line that is not blank and tells whether the session goes on. -/
def dispatch [DiceSource σ] (line : String) : Deed σ Bool := do
  match Text.trim line.toList with
  | '.' :: command => runCommand command
  | _ => do evalLine line; return true

/-- Takes a line and tells whether the session goes on. Errors are printed, except those that end
the session. -/
def handleLine [DiceSource σ] (line : String) : Deed σ Bool := do
  modify fun s => { s with interrupted := false }
  if (Text.trim line.toList).isEmpty then return true
  try
    dispatch line
  catch e =>
    if e.isReported then
      printLine e.message
      return true
    else throw e

/-! ## Whole sessions -/

/-- Loads the tome that the cache names, if it names one; a missing or wrong tome is reported. -/
def reloadTome [DiceSource σ] : Deed σ Unit := do
  match (← get).savePath? with
  | none => return ()
  | some path =>
    try
      loadCommand []
    catch e =>
      if e.isTomeFault then printLine s!"Error loading {path.text}: {e.message}"
      else throw e

/-- Whether an error while reading the cache is recorded and passed over. -/
def isCacheFault : SessionError → Bool
  | .place _ => true
  | e => e.isTomeFault

/-- Picks up the tome of the session before. -/
def restore [DiceSource σ] : Deed σ Unit := do
  let restored ← try
      loadCache
      pure true
    catch e =>
      if isCacheFault e then
        record (.unreadableCache e.message)
        pure false
      else throw e
  if restored then reloadTome

/-- What a session can read. -/
inductive Input where
  | line (text : String)
  | interrupt
  | endOfInput
  deriving Repr, DecidableEq

/-- How a session ends: it was left, its input was used up, or an error ended it. -/
inductive Ending where
  | left
  | usedUp
  | failed (cause : SessionError)
  deriving Repr

/-- Prints the prompt. -/
def showPrompt (prompt : String) : Deed σ Unit :=
  modify fun s => { s with world.output := s.world.output ++ prompt }

/-- Takes one input and tells whether the session goes on. The second interrupt in a row leaves the
session without saving; the end of the input stands for the exit command. -/
def handleInput [DiceSource σ] : Input → Deed σ Bool
  | .line text => handleLine text
  | .endOfInput => do
    printLine ""
    handleLine ".exit"
  | .interrupt => do
    if (← get).interrupted then return false
    modify fun s => { s with interrupted := true }
    printLine "\nCtrl-C again to exit without saving."
    return true

/-- Takes input after input, each after the prompt, until the session ends. -/
def run [DiceSource σ] (prompt : String) : List Input → Session σ → Ending × Session σ
  | [], s => (.usedUp, s)
  | input :: inputs, s =>
    let step : Deed σ Bool := do
      showPrompt prompt
      handleInput input
    match step.run s with
    | (.error e, s) => (.failed e, s)
    | (.ok false, s) => (.left, s)
    | (.ok true, s) => run prompt inputs s

end Session

end DiceTome
