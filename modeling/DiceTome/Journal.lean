import DiceTome.World

/-!
# Reading the journal

The journal of a run is shown down to some severity, one line for each event.
-/

namespace DiceTome

/-- The name of a severity in the journal. -/
def Severity.name : Severity → String
  | debug => "DEBUG"
  | info => "INFO"
  | warning => "WARNING"

/-- An event as a line of the journal. -/
def Event.line (e : Event) : String :=
  s!"{e.severity.name} {e.origin}: {e.message}"

/-- How much of the journal is shown. -/
inductive Threshold where
  | everything
  | information
  | warnings
  | nothing
  deriving Repr, DecidableEq

namespace Threshold

/-- The threshold with a name. -/
def ofName? (name : String) : Option Threshold :=
  if ["DEBUG", "NOTSET"].contains name then some everything
  else if name = "INFO" then some information
  else if ["WARN", "WARNING"].contains name then some warnings
  else if ["ERROR", "CRITICAL", "FATAL"].contains name then some nothing
  else none

/-- Whether events of a severity are shown. -/
def shows : Threshold → Severity → Bool
  | everything, _ => true
  | information, severity => severity != .debug
  | warnings, severity => severity == .warning
  | nothing, _ => false

/-- The lines of the journal that are shown. -/
def journalText (t : Threshold) (journal : Array Event) : String :=
  String.join ((journal.toList.filter fun e => t.shows e.severity).map fun e => e.line ++ "\n")

end Threshold

end DiceTome
