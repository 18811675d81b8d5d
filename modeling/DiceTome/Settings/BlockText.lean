import DiceTome.Settings.Cursor

/-!
# Block scalars

A block scalar is a text on indented lines below its mark. Its lines are kept or folded; after the
mark may stand how much they are indented and what happens to the newlines at the end.

* `BlockText.read` reads a block scalar.
-/

namespace DiceTome

/-- What is wrong with a block scalar. -/
inductive BlockFault where
  | zeroIndentation
  | unknownSign (found : Char)
  | trailing (found : Char)
  deriving Repr, DecidableEq

namespace BlockText

/-- What happens to the newlines at the end: one is kept, all are kept or none is. -/
inductive Ending where
  | clip | keep | strip
  deriving Repr, DecidableEq

/-- What stands after the mark of a block scalar: the ending, and the extra indentation if given. -/
structure Header where
  ending : Ending := .clip
  extra : Option Nat := none
  deriving Repr, DecidableEq

/-- A result, or a fault and its place. -/
abbrev Result := Except (BlockFault × Mark)

/-- The ending that a sign stands for. -/
def ending? : Char → Option Ending
  | '+' => some .keep
  | '-' => some .strip
  | _ => none

/-- A header with an ending, if its sign comes next. -/
def readEnding (h : Header) (c : Cursor) : Header × Cursor :=
  match ending? c.peek with
  | some ending => ({ h with ending }, c.skip 1)
  | none => (h, c)

/-- A header with an extra indentation, if its digit comes next. -/
def readExtra (h : Header) (c : Cursor) : Result (Header × Cursor) :=
  if c.peek == '0' then .error (.zeroIndentation, c.mark)
  else if c.peek.isDigit then .ok ({ h with extra := some (c.peek.toNat - '0'.toNat) }, c.skip 1)
  else .ok (h, c)

/-- A character that is no part of a line. -/
def endsLine (c : Char) : Bool :=
  c == '\x00' || Cursor.isBreak c

/-- The place after a line break, if one stands here. -/
def skipBreak (c : Cursor) : Cursor :=
  if Cursor.isBreak c.peek then c.skip 1 else c

/-- The line break that stands at a place, if there is one. -/
def breakAt (c : Cursor) : List Char :=
  if Cursor.isBreak c.peek then [Cursor.breakOf c.peek] else []

/-- The header that stands at a place, and the start of the next line. -/
def header (c : Cursor) : Result (Header × Cursor) := do
  let (h, c) ←
    if (ending? c.peek).isSome then
      let (h, c) := readEnding {} c
      readExtra h c
    else do
      let (h, next) ← readExtra {} c
      pure (if h.extra.isSome then readEnding h next else (h, next))
  if c.peek != ' ' && !endsLine c.peek then throw (.unknownSign c.peek, c.mark)
  let c := c.skipWhile (· == ' ')
  let c := if c.peek == '#' then c.skipWhile fun ch => !Cursor.isBreak ch else c
  if !endsLine c.peek then throw (.trailing c.peek, c.mark)
  return (h, skipBreak c)

/-- The breaks of the lines that hold spaces only, the greatest number of spaces, and the place of
the first other character. -/
def leading : Nat → Nat → Cursor → List Char × Nat × Cursor
  | 0, most, c => ([], most, c)
  | steps + 1, most, c =>
    if c.peek == ' ' then
      let next := c.skip 1
      leading steps (max most next.mark.column) next
    else if Cursor.isBreak c.peek then
      let (breaks, rest) := leading steps most (c.skip 1)
      (Cursor.breakOf c.peek :: breaks, rest)
    else ([], most, c)

/-- The cursor after spaces, up to some column. -/
def indent (column : Nat) (c : Cursor) : Cursor :=
  c.skip ((c.rest.take (column - c.mark.column)).takeWhile (· == ' ')).length

/-- The breaks of the lines that are empty up to some column, and the place after them. -/
def emptyUpTo (column : Nat) : Nat → Cursor → List Char × Cursor
  | 0, c => ([], c)
  | steps + 1, c =>
    let c := indent column c
    if Cursor.isBreak c.peek then
      let (breaks, next) := emptyUpTo column steps (c.skip 1)
      (Cursor.breakOf c.peek :: breaks, next)
    else ([], c)

/-- Whether a line of the scalar starts here. -/
def startsLine (column : Nat) (c : Cursor) : Bool :=
  c.mark.column == column && !c.rest.isEmpty

/-- Whether a line is set off from the text around it by a blank in front. -/
def isSetOff (c : Cursor) : Bool :=
  c.peek == ' ' || c.peek == '\t'

/-- The lines of the scalar from a place on, after some breaks, and the place after them. -/
def body (folded : Bool) (ending : Ending) (column : Nat) :
    Nat → List Char → Cursor → List Char × Cursor
  | 0, _, c => ([], c)
  | steps + 1, breaks, c =>
    let line := c.rest.takeWhile fun ch => !Cursor.isBreak ch
    let stop := c.skip line.length
    let last := breakAt stop
    let (after, next) := emptyUpTo column (stop.rest.length + 1) (skipBreak stop)
    let front := breaks ++ line
    if startsLine column next then
      let joint :=
        if folded && last == ['\n'] && !isSetOff c && !isSetOff next then
          if after.isEmpty then [' '] else []
        else last
      let (rest, stop) := body folded ending column steps after next
      (front ++ joint ++ rest, stop)
    else
      match ending with
      | .clip => (front ++ last, next)
      | .keep => (front ++ last ++ after, next)
      | .strip => (front, next)

/-- The text of the block scalar whose mark stands at a place, and the place after it. Its lines are
indented by at least the given number of spaces. -/
def read (least : Nat) (c : Cursor) : Result (String × Cursor) := do
  let steps := c.rest.length + 1
  let (h, start) ← header (c.skip 1)
  let (column, breaks, first) :=
    match h.extra with
    | none =>
      let (breaks, most, first) := leading steps 0 start
      (max least most, breaks, first)
    | some extra =>
      let column := least + extra - 1
      let (breaks, first) := emptyUpTo column steps start
      (column, breaks, first)
  if startsLine column first then
    let (text, next) := body (c.peek == '>') h.ending column steps breaks first
    return (String.ofList text, next)
  else return (String.ofList (if h.ending == .keep then breaks else []), first)

end BlockText

end DiceTome
