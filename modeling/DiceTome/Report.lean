import DiceTome.CommandLine
import DiceTome.Dice.Twister
import DiceTome.Journal
import DiceTome.Session

/-!
# Runs of the program

A run takes a command line and its surroundings and leaves a report: how it ended, what it wrote to
the output and to the error output, and the files.

* `Report.ofRun` is a whole run with all of its input given.
-/

namespace DiceTome

/-- What a run finds: its variables, files and input, and a number to start unseeded dice from. -/
structure Surroundings where
  environment : Environment := {}
  files : FileTree := {}
  input : String := ""
  chance : Nat := 0

/-- What ends a run other than by leaving with a code. -/
inductive Failure where
  | settings (cause : SettingsError)
  | unknownLevel (name : String)
  | session (cause : SessionError)
  deriving Repr

/-- The text of the failure. -/
def Failure.message : Failure → String
  | settings cause => cause.message
  | unknownLevel name => s!"Unknown level: {Text.quoted name}"
  | session cause => cause.message

/-- How a run ends. It goes on for ever if the end of the input does not end its session. -/
inductive Status where
  | usage (reason : CommandLine.Usage)
  | exit (code : Nat)
  | failed (cause : Failure)
  | endless
  deriving Repr

/-- What a run leaves. -/
structure Report where
  status : Status
  output : String := ""
  errors : String := ""
  files : FileTree := {}

/-! ## Settings -/

/-- Whether a run reports an error of the settings and leaves. -/
def SettingsError.isReported : SettingsError → Bool
  | notAPath _ | keyNotText _ | keysNotComparable _ _ | place _ => false
  | document _ cause => cause.isValueFault
  | _ => true

/-- The path of the settings document that a command line names. -/
def CommandLine.Request.configPath (r : CommandLine.Request) :
    Except SettingsError (Option String) :=
  match r.config with
  | none => .ok none
  | some (.text path) => .ok (some path)
  | some .dropped => .error (.notAPath (.list []))

/-- The seed that a command line names. -/
def CommandLine.SeedValue.seed : CommandLine.SeedValue → Seed
  | number n => .number n
  | dropped => .dropped

/-- The settings with what the command line says about them. -/
def Settings.withRequest (s : Settings) (r : CommandLine.Request) : Settings :=
  { s with
    seed := (r.seed.map CommandLine.SeedValue.seed).orElse fun _ => s.seed
    loadDefaults := s.loadDefaults && !r.noDefaults }

/-- How much of the journal a run shows. -/
def Settings.threshold (s : Settings) (r : CommandLine.Request) : Except Failure Threshold :=
  if r.verbose then .ok .everything
  else
    match Threshold.ofName? s.logLevel with
    | some t => .ok t
    | none => .error (.unknownLevel s.logLevel)

/-- The dice of a run. -/
def Settings.dice (s : Settings) (chance : Nat) : Twister :=
  Twister.ofSeed ((s.seed.map Seed.magnitude).getD chance)

/-- The session that a run starts with. -/
def Session.ofSettings (s : Settings) (around : Surroundings) : Session Twister :=
  { world := { dice := s.dice around.chance, journal := #[.configured s.shown] }
    cacheDice := Twister.ofSeed around.chance
    settings := s
    environment := around.environment
    files := around.files }

/-! ## Actions -/

namespace Session

/-- How an action ends: with a code, with an error that is reported, or endlessly. -/
inductive Conclusion where
  | done
  | refused (message : String)
  | endless
  deriving Repr, DecidableEq

/-- Prints an outcome, unless its text is empty. -/
def printOutcome (o : Outcome) : Deed σ Unit :=
  if o.text.isEmpty then return () else printLine o.text

/-- Gives the text of an error of the language instead of failing with it. -/
def refusing (deed : Deed σ α) : Deed σ (Except String α) := fun s =>
  match deed.run s with
  | (.ok a, s) => (.ok (.ok a), s)
  | (.error e, s) =>
    match e with
    | .source cause => (if cause.isDiagnosed then .ok (.error cause.text) else .error e, s)
    | e => (.error e, s)

/-- Evaluates expressions one after another and prints their outcomes. -/
def evalAll [DiceSource σ] : List String → Deed σ Unit
  | [] => return ()
  | expression :: rest => do
    printOutcome (← inWorld (World.evalSource expression))
    evalAll rest

/-- Throws the rolls at the top of outcomes and prints them. -/
def printAll [DiceSource σ] : List Outcome → Deed σ Unit
  | [] => return ()
  | outcome :: rest => do
    printOutcome (← inWorld (Run.act (World.onDice outcome.resolved)))
    printAll rest

/-- Starts from fresh scopes, which needs dice. -/
def freshWorld [DiceSource σ] : Deed σ Unit := do
  let settings := (← get).settings
  if settings.seed = some .dropped then throw .unusableSeed
  inWorld (World.create settings.loadDefaults)

/-- Runs a tome and prints its outcomes; an error of the language is refused only while the tome is
evaluated. -/
def runTome [DiceSource σ] (path : Path) : Deed σ Conclusion := do
  let s ← get
  if !(← check .file (s.files.pathExists path)) then
    return .refused s!"Error: File not found: {path.text}"
  freshWorld
  let text ← check .file (s.files.readText path)
  match ← refusing (inWorld (World.evalTome text)) with
  | .ok outcomes =>
    printAll outcomes
    return .done
  | .error message => return .refused message

/-- The lines of the input, which end with newlines. -/
def inputLines : List Char → List (List Char)
  | [] => []
  | c :: cs =>
    if c == '\n' then [] :: inputLines cs
    else
      match inputLines cs with
      | [] => [[c]]
      | line :: rest => (c :: line) :: rest

/-- What a session reads from a text. -/
def inputsOf (text : String) : List Input :=
  (inputLines text.toList).map (fun line => .line (String.ofList line)) ++ [.endOfInput]

/-- Starts a session: fresh scopes, and then the tome of the session before. -/
def start [DiceSource σ] : Deed σ Unit := do
  freshWorld
  restore

/-- The text of the prompt, which has to have one. -/
def promptText : Deed σ String := do
  let prompt := (← get).settings.prompt
  if !prompt.isShowable then throw .unusablePrompt
  return prompt.plainText

/-- Holds a session from its start to its end. -/
def converse [DiceSource σ] (text : String) : Deed σ Conclusion := do
  start
  let (ending, s) := run (← promptText) (inputsOf text) (← get)
  set s
  match ending with
  | .left => return .done
  | .usedUp => return .endless
  | .failed e => throw e

/-- Does what a command line asks for. -/
def perform [DiceSource σ] (input : String) : CommandLine.Action → Deed σ Conclusion
  | .eval expressions => do
    freshWorld
    match ← refusing (evalAll expressions) with
    | .ok () => return .done
    | .error message => return .refused message
  | .run file => runTome (Path.ofString file)
  | .repl => converse input

end Session

/-! ## Whole runs -/

namespace Report

/-- The report of a session that has ended. -/
def ofSession (t : Threshold) (result : Except SessionError Session.Conclusion)
    (s : Session σ) : Report :=
  let journal := t.journalText s.world.journal
  let report (status : Status) (errors : String) : Report :=
    { status, output := s.world.output, errors := journal ++ errors, files := s.files }
  match result with
  | .ok .done => report (.exit 0) ""
  | .ok (.refused message) => report (.exit 1) (message ++ "\n")
  | .ok .endless => report .endless ""
  | .error e => report (.failed (.session e)) ""

/-- What a run that was understood starts with, or its report if its settings stand in the way. -/
def begun (r : CommandLine.Request) (around : Surroundings) :
    Except Report (Threshold × Session Twister) :=
  let files := around.files
  match r.configPath.bind (Settings.load around.environment files) with
  | .error e =>
    if e.isReported then .error { status := .exit 1, errors := s!"Error: {e.message}\n", files }
    else .error { status := .failed (.settings e), files }
  | .ok settings =>
    let settings := settings.withRequest r
    match settings.threshold r with
    | .error e => .error { status := .failed e, files }
    | .ok t => .ok (t, .ofSettings settings around)

/-- The report of a run that was understood. -/
def ofRequest (r : CommandLine.Request) (around : Surroundings) : Report :=
  match begun r around with
  | .error report => report
  | .ok (t, s) =>
    let (result, s) := (Session.perform around.input r.action).run s
    ofSession t result s

/-- The report of a run. -/
def ofRun (args : List String) (around : Surroundings) : Report :=
  match CommandLine.parse args with
  | .error reason => { status := .usage reason, files := around.files }
  | .ok r => ofRequest r around

end Report

end DiceTome
