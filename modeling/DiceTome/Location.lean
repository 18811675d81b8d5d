/-!
# Positions in a source text

A location counts lines and columns from 1 and characters from 0. Only the newline character ends
a line here. Lines and columns are integers, so that a location may also lie in front of the text.
-/

namespace DiceTome

/-- A position in a source text. -/
structure Location where
  line : Int := 1
  column : Int := 1
  offset : Nat := 0
  deriving Repr, DecidableEq

namespace Location

/-- The position after one more character. -/
def next (loc : Location) (c : Char) : Location :=
  if c = '\n' then ⟨loc.line + 1, 1, loc.offset + 1⟩
  else ⟨loc.line, loc.column + 1, loc.offset + 1⟩

/-- The position after some more characters. -/
def advance (loc : Location) (cs : List Char) : Location :=
  cs.foldl next loc

end Location

/-- A range of a source text, and the file it stands in if that has a name. -/
structure Span where
  start : Location
  stop : Location
  file : Option String := none
  deriving Repr, DecidableEq

namespace Span

/-- The number of characters in the range. -/
def length (s : Span) : Int :=
  (s.stop.offset : Int) - s.start.offset

/-- The file name and a colon, or nothing if there is no name. -/
def filePart (s : Span) : String :=
  match s.file with
  | none => ""
  | some file => if file.isEmpty then "" else s!"{file}:"

/-- Where the range starts, as a diagnostic shows it. -/
def startText (s : Span) : String :=
  s!"{s.filePart}{s.start.line}:{s.start.column}"

/-- The whole range as text. -/
def text (s : Span) : String :=
  s!"{s.startText}-{s.stop.line}:{s.stop.column}"

end Span

end DiceTome
