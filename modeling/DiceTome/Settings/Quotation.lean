import DiceTome.Settings.Cursor
import DiceTome.Settings.Scalar

/-!
# Quoted scalars

A scalar in single quotes writes a quote twice; one in double quotes knows escape sequences. Lines
inside quotes are folded.

* `Quotation.read` reads a scalar in quotes.
-/

namespace DiceTome

/-- What is wrong with a quoted scalar. -/
inductive QuotationFault where
  | unclosed
  | separator
  | unknownEscape (c : Char)
  | notACode (width : Nat) (found : Char)
  | noSuchCharacter
  deriving Repr, DecidableEq

namespace Quotation

/-- The character that a letter stands for after a backslash. -/
def escape? : Char → Option Char
  | '0' => some '\x00'
  | 'a' => some '\x07'
  | 'b' => some '\x08'
  | 't' | '\t' => some '\t'
  | 'n' => some '\n'
  | 'v' => some '\x0b'
  | 'f' => some '\x0c'
  | 'r' => some '\r'
  | 'e' => some '\x1b'
  | ' ' => some ' '
  | '"' => some '"'
  | '/' => some '/'
  | '\\' => some '\\'
  | 'N' => some '\u0085'
  | '_' => some '\u00a0'
  | 'L' => some '\u2028'
  | 'P' => some '\u2029'
  | _ => none

/-- The number of digits of a character code, by the letter in front of it. -/
def codeWidth? : Char → Option Nat
  | 'x' => some 2
  | 'u' => some 4
  | 'U' => some 8
  | _ => none

/-- A blank on a line inside quotes. -/
def isSpace (c : Char) : Bool :=
  c == ' ' || c == '\t'

/-- Text in quotes and the place after it, or a fault and its place. -/
abbrev Result := Except (QuotationFault × Mark) (List Char × Cursor)

/-- The result with text in front. -/
def Result.after (text : List Char) (r : Result) : Result :=
  r.map fun (body, c) => (text ++ body, c)

/-- The character whose code stands at a place, and the place after it. -/
def code (width : Nat) (c : Cursor) : Result :=
  let digits := c.rest.take width
  let found := (digits.find? fun ch => (Scalar.hexValue? ch).isNone).getD '\x00'
  let n := Scalar.valueIn 16 digits
  if digits.length < width ∨ digits.any fun ch => (Scalar.hexValue? ch).isNone then
    .error (.notACode width found, c.mark)
  else if 0x10FFFF < n then .error (.noSuchCharacter, c.mark)
  else .ok ([Char.ofNat n], c.skip width)

/-- Fails at a line that separates documents. -/
def requireNoSeparator (c : Cursor) : Except (QuotationFault × Mark) Unit :=
  if c.atAnySeparator then .error (.separator, c.mark) else .ok ()

/-- An escape sequence from behind its backslash, and the place after it. -/
def escapeSequence (c : Cursor) : Result :=
  let ch := c.peek
  match escape? ch, codeWidth? ch with
  | some e, _ => .ok ([e], c.skip 1)
  | none, some width => code width (c.skip 1)
  | none, none =>
    if Cursor.isBreak ch then do
      let (breaks, length) := emptyLines isSpace (c.rest.drop 1)
      let next := c.skip (1 + length)
      requireNoSeparator next
      return (breaks, next)
    else .error (.unknownEscape ch, c.mark)

/-- The text up to the closing quote and the place after it, for at most `steps` steps. -/
def readWithin (mark : Char) : Nat → Cursor → Result
  | 0, c => .error (.unclosed, c.mark)
  | steps + 1, c =>
    match c.rest with
    | [] => .error (.unclosed, c.mark)
    | ch :: rest =>
      if Cursor.isBlank ch then do
        let gap := foldBlanks isSpace c.rest
        let next := c.skip gap.length
        if gap.crossed then requireNoSeparator next
        (readWithin mark steps next).after gap.text
      else if ch == mark then
        if mark == '\'' && rest.head? == some '\'' then
          (readWithin mark steps (c.skip 2)).after ['\'']
        else .ok ([], c.skip 1)
      else if ch == '\\' && mark == '"' then do
        let (text, next) ← escapeSequence (c.skip 1)
        (readWithin mark steps next).after text
      else (readWithin mark steps (c.skip 1)).after [ch]

/-- The text of the scalar whose opening quote stands at a place, and the place after it. -/
def read (mark : Char) (c : Cursor) : Result :=
  readWithin mark (c.rest.length + 1) (c.skip 1)

end Quotation

end DiceTome
