import DiceTome.Report

/-!
# The program

The outer layer of the program. It looks at the files that a step may need, takes the step, and puts
what the step has printed and written where it belongs.
-/

namespace DiceTome.Outer

/-- The variables of the surroundings that matter. -/
def variableNames : List String :=
  ["HOME", "XDG_CONFIG_HOME", "XDG_DATA_HOME", "SPELLS_CONFIG", "LOCALAPPDATA"]

/-- The variables that are set. -/
def readEnvironment : IO Environment := do
  let entries ← variableNames.filterMapM fun name => do
    return (← IO.getEnv name).map fun value => (name, value)
  return { entries }

/-- A number that nobody foresees. -/
def readChance : IO Nat := do
  return (← IO.getRandomBytes 8).toList.foldl (fun n b => 256 * n + b.toNat) 0

/-! ## Files -/

/-- Enters into a tree what stands at a place. -/
def lookAt (t : FileTree) (p : Place) : IO FileTree := do
  if p.names.isEmpty then return t
  let file := (← IO.currentDir) / p.path.text
  if ← file.isDir then return t.insert p .directory
  else if ← file.pathExists then return t.insert p (.file (.ofBytes (← IO.FS.readBinFile file)))
  else return ⟨t.entries.filter fun entry => entry.1 ≠ p⟩

/-- Enters into a tree what stands on the way along some names. -/
def lookAlong (t : FileTree) (here : Place) : List String → IO FileTree
  | [] => return t
  | name :: rest => do
    let next := here.step name
    lookAlong (← lookAt t next) next rest

/-- Enters into a tree what stands along a path. -/
def lookUp (t : FileTree) (path : Path) : IO FileTree :=
  lookAlong t (Place.origin path) path.parts

/-- Enters into a tree what stands in a directory. -/
def lookInto (t : FileTree) (path : Path) : IO FileTree := do
  let directory := (← IO.currentDir) / path.text
  let t ← lookUp t path
  if ← directory.isDir then
    (← directory.readDir).foldlM (fun t entry => lookUp t (path.child entry.fileName)) t
  else return t

/-- Brings the files up to date with a tree, where it differs from the one before. -/
def writeBack (before after : FileTree) : IO Unit :=
  after.entries.forM fun (p, entry) => do
    if before.entry? p ≠ some entry then
      let file := (← IO.currentDir) / p.path.text
      match entry with
      | .directory => IO.FS.createDirAll file
      | .file (.text s) => IO.FS.writeFile file s
      | .file (.bytes _) => return ()

/-! ## Reports -/

/-- How to ask for something. -/
def usageLine : String :=
  "usage: [-h] [-c FILE] [--seed SEED] [--no-defaults] [-v] " ++
    "[eval EXPRESSION ... | run FILE | repl]"

/-- Prints a report and gives the code to leave with. -/
def deliver (report : Report) : IO UInt32 := do
  (← IO.getStdout).putStr report.output
  (← IO.getStderr).putStr report.errors
  match report.status with
  | .usage .help =>
    IO.println usageLine
    return 0
  | .usage .wrong =>
    IO.eprintln usageLine
    return 2
  | .exit code => return code.toUInt32
  | .failed cause =>
    IO.eprintln cause.message
    return 1
  | .endless => return 0

/-! ## Sessions -/

/-- The paths that a line may lead to. -/
def pathsFor (s : Session Twister) (line : String) : List Path :=
  match Text.splitWords line.toList with
  | .error _ => []
  | .ok words => words.filterMap fun word =>
    match SaveTarget.ofString s.environment word with
    | .ok (.path path) => some path
    | _ => none

/-- Looks at the files that the next step may need. -/
def prepare (s : Session Twister) (line : String) : IO (Session Twister) := do
  let files ← match dataDirectory s.environment s.settings with
    | .ok directory => lookInto s.files directory
    | .error _ => pure s.files
  let files ← (s.savePath?.toList ++ pathsFor s line).foldlM lookUp files
  return { s with files }

/-- Prints what a step has printed and recorded, and writes its files. -/
def settle (t : Threshold) (before after : Session Twister) : IO (Session Twister) := do
  (← IO.getStderr).putStr (t.journalText after.world.journal)
  (← IO.getStdout).putStr after.world.output
  writeBack before.files after.files
  return { after with world.output := "", world.journal := #[] }

/-- Reads lines and takes them one by one until the session ends. -/
partial def converse (t : Threshold) (prompt : String) (s : Session Twister) : IO UInt32 := do
  let output ← IO.getStdout
  output.putStr prompt
  output.flush
  let line ← (← IO.getStdin).getLine
  let input : Session.Input :=
    match Session.inputLines line.toList with
    | [] => .endOfInput
    | first :: _ => .line (String.ofList first)
  let s ← prepare s line
  let (ending, after) := Session.run "" [input] s
  let s ← settle t s after
  match ending with
  | .left => return 0
  | .usedUp => converse t prompt s
  | .failed cause => deliver { status := .failed (.session cause) }

/-- Holds a session. The start is tried once beforehand, to learn which tome it asks for. -/
def holdSession (t : Threshold) (s : Session Twister) : IO UInt32 := do
  let s ← prepare s ""
  let (_, trial) := Session.start.run s
  let files ← trial.savePath?.toList.foldlM lookUp s.files
  let s := { s with files }
  let begin : Deed Twister String := do
    Session.start
    Session.promptText
  let (started, after) := begin.run s
  let s ← settle t s after
  match started with
  | .ok prompt => converse t prompt s
  | .error cause => deliver { status := .failed (.session cause) }

/-- Does what a command line asks for. -/
def serve (r : CommandLine.Request) : IO UInt32 := do
  let environment ← readEnvironment
  let files ← match r.configPath with
    | .ok given =>
      match Settings.documentPath environment given with
      | .ok path => lookUp {} path
      | .error _ => pure {}
    | .error _ => pure {}
  let files ← match r.action with
    | .run file => lookUp files (Path.ofString file)
    | _ => pure files
  let around : Surroundings := { environment, files, chance := ← readChance }
  match r.action, Report.begun r around with
  | .repl, .ok (t, s) => holdSession t s
  | _, _ => deliver (Report.ofRequest r around)

end DiceTome.Outer

open DiceTome in
/-- Runs the program. -/
def main (args : List String) : IO UInt32 :=
  match CommandLine.parse args with
  | .error reason => Outer.deliver { status := .usage reason }
  | .ok r => Outer.serve r
