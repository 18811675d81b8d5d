import DiceTome.CommandLine.Word
import DiceTome.Text.Integer

/-!
# Command lines

A command line has options and then an action with arguments of its own: to evaluate expressions,
to run a tome or to open a session. Without an action a session is opened.

* `CommandLine.parse` reads a command line.
-/

namespace DiceTome.CommandLine

/-- What the program is asked to do. -/
inductive Action where
  | eval (expressions : List String)
  | run (file : String)
  | repl
  deriving Repr, DecidableEq

/-- The value of the option for the seed: a number, or nothing if it was dropped. -/
inductive SeedValue where
  | number (n : Int)
  | dropped
  deriving Repr, DecidableEq

/-- A command line that was understood. -/
structure Request where
  config : Option OptionValue := none
  seed : Option SeedValue := none
  noDefaults : Bool := false
  verbose : Bool := false
  action : Action := .repl
  deriving Repr, DecidableEq

/-! ## Options -/

/-- The request with one more option. -/
def Request.take (r : Request) (m : Mention) : Except Usage Request :=
  match m.flag with
  | .help => .error .help
  | .config => .ok { r with config := m.value }
  | .seed =>
    match m.value with
    | some (.text s) =>
      match Text.integer? s.toList with
      | some n => .ok { r with seed := some (.number n) }
      | none => .error .wrong
    | some .dropped => .ok { r with seed := some .dropped }
    | none => .error .wrong
  | .noDefaults => .ok { r with noDefaults := true }
  | .verbose => .ok { r with verbose := true }

/-- The request with more options. -/
def Request.takeAll (r : Request) : List Mention → Except Usage Request
  | [] => .ok r
  | m :: ms => do (← r.take m).takeAll ms

/-- Whether an argument can be the value of an option. -/
def isValue (arg : String) : Bool :=
  arg ≠ separator ∧ Word.read Flag.all arg.toList = .value

/-! ## Actions -/

/-- Fails unless all arguments are values, at a request for help with it. -/
def requireValues : List String → Except Usage Unit
  | [] => .ok ()
  | arg :: rest =>
    let known := [Flag.help]
    match Word.read known arg.toList with
    | .value => requireValues rest
    | .unknown | .ambiguous => do
      requireValues rest
      .error .wrong
    | word => do
      let _ ← word.cluster known
      .error .help

/-- The values among the arguments of an action: all but the first separator. -/
def operands (args : List String) : Except Usage (List String) := do
  let front := args.takeWhile (· ≠ separator)
  requireValues front
  return front ++ (args.dropWhile (· ≠ separator)).drop 1

/-- The action with a name and arguments. -/
def Action.read (name : String) (args : List String) : Except Usage Action :=
  match name with
  | "eval" => do
    let expressions ← operands args
    if expressions.isEmpty then .error .wrong else .ok (.eval expressions)
  | "run" => do
    match ← operands args with
    | [file] => .ok (.run file)
    | _ => .error .wrong
  | "repl" => do
    let _ ← operands args
    if args.isEmpty then .ok .repl else .error .wrong
  | _ => .error .wrong

/-! ## Whole command lines -/

/-- Reads options up to the action, which takes the rest. An unknown option is wrong, but only after
the rest has been read, which may ask for help. -/
def parseFrom (r : Request) : List String → Except Usage Request
  | [] => .ok r
  | arg :: rest =>
    if arg = separator then .error .wrong
    else
      match Word.read Flag.all arg.toList with
      | .value => do return { r with action := ← Action.read arg rest }
      | .ambiguous => .error .wrong
      | .unknown => do
        let _ ← parseFrom r rest
        .error .wrong
      | word => do
        let cluster ← word.cluster Flag.all
        if cluster.needsValue then
          match rest with
          | next :: rest =>
            if isValue next then parseFrom (← r.takeAll (cluster.withValue next)) rest
            else .error .wrong
          | [] => .error .wrong
        else parseFrom (← r.takeAll cluster) rest

/-- What a command line asks for. A short name that fits several options is wrong wherever it
stands. -/
def parse (args : List String) : Except Usage Request :=
  let isAmbiguous (arg : String) := Word.read Flag.all arg.toList = .ambiguous
  if (args.takeWhile (· ≠ separator)).any isAmbiguous then .error .wrong else parseFrom {} args

end DiceTome.CommandLine
