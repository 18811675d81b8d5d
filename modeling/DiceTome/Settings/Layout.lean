import DiceTome.Settings.Quotation

/-!
# Writing a settings document

A text is written plain where it reads back, in single quotes if all of it can be seen, else in
double quotes. A line that has grown too long is broken at a space. Lists and maps are laid out on
lines, those inside others with more indentation.

* `Layout.document` writes the pairs of a map as a document.
-/

namespace DiceTome.Layout

/-- The number of characters of a line after which a scalar is broken. -/
def width : Nat := 80

/-- A new line with some indentation. -/
def newline (indentation : Nat) : List Char :=
  '\n' :: List.replicate indentation ' '

/-! ## Styles -/

/-- Whether a character needs double quotes. -/
def isSpecial (c : Char) : Bool :=
  c != '\n' && (c.toNat < 0x20 || 0x7E < c.toNat)

/-- Whether a space and a newline stand side by side in a text. -/
def hasBlankAtBreak : List Char → Bool
  | c :: d :: rest =>
    (c == ' ' && d == '\n') || (c == '\n' && d == ' ') || hasBlankAtBreak (d :: rest)
  | _ => false

/-- Whether nothing or a blank comes next. -/
def endsHere (next : Option Char) : Bool :=
  next.all fun c => Cursor.isBlank c || c.toNat == 0

/-- Whether a character, with its neighbours, cannot stand in a plain scalar after its start. -/
def breaksPlain (previous c : Char) (next : Option Char) : Bool :=
  (c == ':' && endsHere next) || (c == '#' && endsHere (some previous))

/-- Whether one of the characters after the first breaks a plain scalar. -/
def anyBreak (previous : Char) : List Char → Bool
  | [] => false
  | c :: cs => breaksPlain previous c cs.head? || anyBreak c cs

/-- Whether the start of a text means something else in a document. -/
def startsSpecially (cs : List Char) : Bool :=
  match cs with
  | [] => true
  | c :: rest =>
    "#,[]\x7b\x7d&*!|>'\"%@`".toList.contains c ||
      ((c == '?' || c == ':' || c == '-') && endsHere rest.head?) ||
      "---".toList.isPrefixOf cs || "...".toList.isPrefixOf cs

/-- How a text is written. -/
inductive Style where
  | plain
  | single
  | double
  deriving Repr, DecidableEq

/-- Whether a text stays what it is when it is written plain. -/
def isPlain (s : String) : Bool :=
  let cs := s.toList
  !startsSpecially cs && !cs.head?.any (· == ' ') && !cs.getLast?.any (· == ' ') &&
    !cs.contains '\n' && !cs.any isSpecial && !anyBreak (cs.headD ' ') (cs.drop 1) &&
    Scalar.isText s

/-- The style of a text. -/
def styleOf (s : String) : Style :=
  let cs := s.toList
  if isPlain s then .plain
  else if cs.any isSpecial || hasBlankAtBreak cs then .double
  else .single

/-! ## Texts -/

/-- A character between single quotes. -/
def singleQuotedChar (c : Char) : List Char :=
  if c == '\'' then ['\'', '\''] else [c]

/-- A text from some column on, whose characters are written by `written`. Behind the width of the
line, a space that stands alone between others becomes a new line, unless the text has to stay on
its line; a newline becomes a new line and an empty one in front. -/
def folded (written : Char → List Char) (stays : Bool) (indentation : Nat) :
    Option Char → Nat → List Char → List Char
  | _, _, [] => []
  | previous, column, c :: rest =>
    let isAlone := previous.any (· != ' ') && rest.head?.any (· != ' ')
    let next (column : Nat) := folded written stays indentation (some c) column rest
    if c == ' ' && isAlone && width < column && !stays then newline indentation ++ next indentation
    else if c == '\n' then
      let front := if previous == some '\n' then [] else ['\n']
      let line := if rest.head? == some '\n' then ['\n'] else newline indentation
      front ++ line ++ next indentation
    else written c ++ next (column + (written c).length)

/-- The letter that stands for a character after a backslash. -/
def escapeLetter? (c : Char) : Option Char :=
  ['0', 'a', 'b', 't', 'n', 'v', 'f', 'r', 'e', '"', '\\', 'N', '_', 'L', 'P'].find? fun e =>
    Quotation.escape? e == some c

/-- The escape sequence of a character between double quotes, unless it is written as it is. -/
def escaped? (c : Char) : Option (List Char) :=
  let code (letter : Char) (width : Nat) :=
    '\\' :: letter :: (Text.hexDigits width c.toNat).map Char.toUpper
  match escapeLetter? c with
  | some e => some ['\\', e]
  | none =>
    if !isSpecial c then none
    else if c.toNat < 0x100 then some (code 'x' 2)
    else if c.toNat < 0x10000 then some (code 'u' 4)
    else some (code 'U' 8)

/-- A text between double quotes from some column on. Behind the width of the line, it is broken
after an escape sequence or before a space or the first character after an escape sequence, but not
at its first or last character; a space at the start of a line is escaped. `start` tells that
nothing was written before, `fresh` that an escape sequence was. -/
def foldedDouble (stays : Bool) (indentation : Nat) :
    (start fresh : Bool) → Nat → List Char → List Char
  | _, _, _, [] => []
  | start, fresh, column, c :: rest =>
    let mayBreak := !start && !rest.isEmpty && !stays
    match escaped? c with
    | some e =>
      let after := column + e.length
      if mayBreak && width + 1 < after then
        let guard := if rest.head? == some ' ' then ['\\'] else []
        e ++ '\\' :: newline indentation ++ guard ++
          foldedDouble stays indentation false true (indentation + guard.length) rest
      else e ++ foldedDouble stays indentation false true after rest
    | none =>
      if mayBreak && (c == ' ' || fresh) && width < column then
        let guard := if c == ' ' then ['\\'] else []
        '\\' :: newline indentation ++ guard ++ c ::
          foldedDouble stays indentation false false (indentation + guard.length + 1) rest
      else c :: foldedDouble stays indentation false false (column + 1) rest

/-- A text from some column on; lines after the first have some indentation. -/
def text (stays : Bool) (indentation column : Nat) (s : String) : List Char :=
  match styleOf s with
  | .plain => folded (fun c => [c]) stays indentation none column s.toList
  | .single =>
    '\'' :: folded singleQuotedChar stays indentation none (column + 1) s.toList ++ ['\'']
  | .double =>
    '"' :: foldedDouble stays indentation true false (column + 1) s.toList ++ ['"']

/-! ## Data -/

/-- A number as a scalar; one with an exponent keeps a point. -/
def number (x : Float) : String :=
  if x.isNaN then ".nan"
  else if x.isInf then (if x < 0 then "-.inf" else ".inf")
  else
    let cs := (Decimal.plain x).toList
    if cs.contains 'e' && !cs.contains '.' then
      String.ofList (cs.takeWhile (· != 'e') ++ ['.', '0'] ++ cs.dropWhile (· != 'e'))
    else String.ofList cs

/-- A datum that is neither a text nor a filled collection, on one line. -/
def atom : Datum → String
  | .null => "null"
  | .bool b => if b then "true" else "false"
  | .int n => toString n
  | .float x => number x
  | .text s => s
  | .moment m => m.text
  | .list _ => "[]"
  | .map _ => "\x7b\x7d"

/-- A key that stands on one line in front of its colon. Long keys, empty ones and those with
line breaks do not. -/
def simpleKey? (key : Datum) : Option (List Char) :=
  match key with
  | .text s =>
    let hasBreak := s.toList.any fun c => c != '\r' && Cursor.isBreak c
    if s.isEmpty || hasBreak || 122 < s.length then none else some (text true 0 0 s)
  | key => some (atom key).toList

/-- Entries of a collection on lines with some indentation. -/
def lines (indentation : Nat) (entries : List (List Char)) : List Char :=
  (newline indentation).intercalate entries

mutual

/-- A datum behind the mark in front of it, which ends in some column and belongs to a collection
with some indentation. A collection starts on the same line if it is `compact`; a list that is not
has the same indentation. -/
def behind (compact : Bool) (indentation column : Nat) : Datum → List Char
  | .list (item :: items) =>
    if compact then
      ' ' :: lines (indentation + 2) (itemEntries (indentation + 2) (item :: items))
    else newline indentation ++ lines indentation (itemEntries indentation (item :: items))
  | .map (pair :: pairs) =>
    let entries := lines (indentation + 2) (pairEntries (indentation + 2) (pair :: pairs))
    if compact then ' ' :: entries else newline (indentation + 2) ++ entries
  | .text s => ' ' :: text false (indentation + 2) (column + 1) s
  | d => ' ' :: (atom d).toList

/-- The items of a list. -/
def itemEntries (indentation : Nat) : List Datum → List (List Char)
  | [] => []
  | d :: ds => ('-' :: behind true indentation (indentation + 1) d) :: itemEntries indentation ds

/-- The pairs of a map. A key that cannot stand in front of its colon has a line of its own. -/
def pairEntries (indentation : Nat) : List (Datum × Datum) → List (List Char)
  | [] => []
  | (key, d) :: pairs =>
    let entry :=
      match simpleKey? key with
      | some cs => cs ++ ':' :: behind false indentation (indentation + cs.length + 1) d
      | none =>
        '?' :: behind true indentation (indentation + 1) key ++ newline indentation ++
          ':' :: behind true indentation (indentation + 1) d
    entry :: pairEntries indentation pairs

end

/-- The pairs of a map as a document. -/
def document (pairs : List (Datum × Datum)) : String :=
  String.ofList (lines 0 (pairEntries 0 pairs) ++ ['\n'])

end DiceTome.Layout
