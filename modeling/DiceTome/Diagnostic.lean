import DiceTome.Location

/-!
# Diagnostics

A diagnostic is a numbered message, with the place it is about, the source line it quotes and some
hints where there are any.
-/

namespace DiceTome

/-- A message about a source text. -/
structure Diagnostic where
  code : String
  message : String
  span : Option Span := none
  sourceLine : Option String := none
  hints : List String := []
  deriving Repr, DecidableEq

namespace Diagnostic

/-- The first line: place, code and message. -/
def headline (d : Diagnostic) : String :=
  match d.span with
  | some span => s!"{span.startText}: error[{d.code}]: {d.message}"
  | none => s!"error[{d.code}]: {d.message}"

/-- The number of carets: up to the end of the span, or to the end of the quoted line if the span
goes beyond it, and at least one. -/
def caretCount (span : Span) (line : String) : Nat :=
  let stop := if span.start.line = span.stop.line then span.stop.column else line.length + 1
  max 1 (stop - span.start.column).toNat

/-- A number in a field of three characters, at its right end. -/
def lineNumber (n : Int) : String :=
  let text := toString n
  String.ofList (List.replicate (3 - text.length) ' ') ++ text

/-- The quoted line and the carets below it. -/
def quotation (span : Span) (line : String) : List String :=
  [ "  |",
    s!"{lineNumber span.start.line} | {line}",
    "    | " ++ String.ofList (List.replicate (span.start.column - 1).toNat ' ') ++
      String.ofList (List.replicate (caretCount span line) '^') ]

/-- The whole diagnostic; the source line is left out on request. -/
def format (d : Diagnostic) (showSource : Bool := true) : String :=
  let quoted :=
    match showSource, d.span, d.sourceLine with
    | true, some span, some line => quotation span line
    | _, _, _ => []
  "\n".intercalate (d.headline :: quoted ++ d.hints.map ("    = hint: " ++ ·))

end Diagnostic

end DiceTome
