/-!
# Cursors in a document

A cursor is a place in a document with the text that follows. What stands between two pieces of
content is a gap: spaces, line breaks and comments.

* `Cursor.skip` moves over characters and keeps count of lines and columns.
* `Cursor.skipGap` moves to the next content.
* `foldBlanks` tells what the blanks inside a scalar stand for.
-/

namespace DiceTome

/-- The number of characters in front of a place, its line and its column, all counted from zero. -/
structure Mark where
  index : Nat := 0
  line : Nat := 0
  column : Nat := 0
  deriving Repr, DecidableEq

namespace Mark

/-- The mark as messages show it, for a document with a name. -/
def text (m : Mark) (name : String) : String :=
  s!"  in \"{name}\", line {m.line + 1}, column {m.column + 1}"

/-- Whether messages show two marks alike. -/
def looksLike (m n : Mark) : Bool :=
  m.line == n.line && m.column == n.column

end Mark

/-- A place in a document and what follows it. -/
structure Cursor where
  rest : List Char
  mark : Mark := {}
  deriving Repr, DecidableEq

namespace Cursor

/-- A character that ends a line of a document. -/
def isBreak (c : Char) : Bool :=
  c == '\n' || c == '\r' || c == '\u0085' || c == '\u2028' || c == '\u2029'

/-- A character that ends a word of a document. -/
def isBlank (c : Char) : Bool :=
  c == ' ' || c == '\t' || isBreak c

/-- The break that a character stands for: all but the separators of lines and paragraphs are
newlines. -/
def breakOf (c : Char) : Char :=
  if c == '\u2028' || c == '\u2029' then c else '\n'

/-- The mark after a character. -/
def markAfter (m : Mark) (c : Char) : Mark :=
  if isBreak c then ⟨m.index + 1, m.line + 1, 0⟩
  else if c == '\ufeff' then ⟨m.index + 1, m.line, m.column⟩
  else ⟨m.index + 1, m.line, m.column + 1⟩

/-- The cursor after some characters. -/
def skip : Nat → Cursor → Cursor
  | 0, c => c
  | n + 1, c =>
    match c.rest with
    | [] => c
    | ch :: rest => skip n ⟨rest, markAfter c.mark ch⟩

/-- The length of a gap at the front of a text. A comment runs up to the end of its line. -/
def gapLength (inComment : Bool) : List Char → Nat
  | [] => 0
  | c :: rest =>
    if isBreak c then 1 + gapLength false rest
    else if inComment then 1 + gapLength true rest
    else if c == ' ' then 1 + gapLength false rest
    else if c == '#' then 1 + gapLength true rest
    else 0

/-- The cursor at the next content. -/
def skipGap (c : Cursor) : Cursor :=
  c.skip (gapLength false c.rest)

/-- The cursor after characters of some kind. -/
def skipWhile (p : Char → Bool) (c : Cursor) : Cursor :=
  c.skip (c.rest.takeWhile p).length

/-- The character at the cursor; a null character stands for the end. -/
def peek (c : Cursor) : Char :=
  c.rest.head?.getD '\x00'

/-- Whether a mark of the format stands here, with a blank or nothing after it. -/
def atIndicator (c : Cursor) (indicator : Char) : Bool :=
  match c.rest with
  | ch :: rest => ch == indicator && rest.head?.all isBlank
  | [] => false

/-- Whether a line that separates documents stands here, which starts with three times the given
character. -/
def atSeparator (c : Cursor) (sign : Char) : Bool :=
  c.mark.column == 0 && c.rest.take 3 == [sign, sign, sign] && (c.rest.drop 3).head?.all isBlank

/-- Whether a line that separates documents stands here. -/
def atAnySeparator (c : Cursor) : Bool :=
  c.atSeparator '-' || c.atSeparator '.'

end Cursor

/-! ## Folded lines -/

/-- Blanks inside a scalar: what they stand for, how many there are, and whether a line ends among
them. -/
structure Gap where
  text : List Char
  length : Nat
  crossed : Bool := false
  deriving Repr, DecidableEq

/-- The breaks of the empty lines at the front of a text, and the number of characters up to the end
of the blanks after them. -/
def emptyLines (isSpace : Char → Bool) : List Char → List Char × Nat
  | [] => ([], 0)
  | c :: rest =>
    if isSpace c || Cursor.isBreak c then
      let (breaks, length) := emptyLines isSpace rest
      (if isSpace c then breaks else Cursor.breakOf c :: breaks, length + 1)
    else ([], 0)

/-- The blanks at the front of a text. A single newline stands for a space, and of several newlines
the first is dropped. -/
def foldBlanks (isSpace : Char → Bool) (cs : List Char) : Gap :=
  let spaces := cs.takeWhile isSpace
  match cs.dropWhile isSpace with
  | [] => ⟨spaces, spaces.length, false⟩
  | c :: rest =>
    if Cursor.isBreak c then
      let (breaks, length) := emptyLines isSpace rest
      let text :=
        if Cursor.breakOf c != '\n' then Cursor.breakOf c :: breaks
        else if breaks.isEmpty then [' ']
        else breaks
      ⟨text, spaces.length + 1 + length, true⟩
    else ⟨spaces, spaces.length, false⟩

end DiceTome
