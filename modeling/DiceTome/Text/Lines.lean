/-!
# Lines of a text

Two rules for lines live side by side: positions count the newline character alone, while the
lines quoted in a diagnostic end at every kind of line break. This module holds the second.
-/

namespace DiceTome.Text

/-- A character that ends a quoted line. -/
def isLineBreak (c : Char) : Bool :=
  c == '\n' || c == '\r' || c == '\x0b' || c == '\x0c' || c == '\x1c' || c == '\x1d' ||
    c == '\x1e' || c == '\u0085' || c == '\u2028' || c == '\u2029'

/-- The lines of a text without their line breaks. A carriage return and a newline after it are
one break, and a break at the very end starts no further line. -/
def splitLines : List Char → List (List Char)
  | [] => []
  | '\r' :: '\n' :: rest => [] :: splitLines rest
  | c :: rest =>
    if isLineBreak c then
      [] :: splitLines rest
    else
      match splitLines rest with
      | [] => [[c]]
      | line :: lines => (c :: line) :: lines

/-- The line of a text with the given number, counted from 1. -/
def line? (source : String) (number : Nat) : Option String :=
  if number = 0 then none
  else (splitLines source.toList)[number - 1]?.map String.ofList

/-- A text as a text file gives it: a carriage return, with or without a newline after it, reads
as a newline. -/
def unifyNewlines : List Char → List Char
  | [] => []
  | '\r' :: '\n' :: rest => '\n' :: unifyNewlines rest
  | '\r' :: rest => '\n' :: unifyNewlines rest
  | c :: rest => c :: unifyNewlines rest

end DiceTome.Text
