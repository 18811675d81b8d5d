import DiceTome.Settings.Document.Error
import DiceTome.Settings.Document.Token

/-!
# Scanning settings documents

A scanner cuts a document into tokens. The indentation of lines opens and closes collections. A
scalar is a key if a colon follows it on the same line and not too far away; so the tokens that mark
it as a key are put in front of it only once the colon is found.

* `Document.scan` gives the tokens of a document, up to the first fault if there is one.
-/

namespace DiceTome.Document

/-- A place where a key may have begun, before the token with some number. The key is `required` if
nothing else can stand there. -/
structure PossibleKey where
  position : Nat
  required : Bool
  mark : Mark
  deriving Repr, DecidableEq

/-- A scanner at work: its place and the tokens it has found, how many brackets are open, the
indentation of the collection on lines that it is in and of those around it, whether a key may begin
here, and where keys may have begun, by the number of brackets that were open there. -/
structure Scanner where
  cursor : Cursor
  tokens : List Token := []
  brackets : Int := 0
  indentation : Int := -1
  enclosing : List Int := []
  keyAllowed : Bool := true
  keys : List (Int × PossibleKey) := []
  deriving Repr

namespace Scanner

/-- The place of the scanner. -/
def mark (s : Scanner) : Mark := s.cursor.mark

/-- Whether the scanner is between brackets. -/
def inBrackets (s : Scanner) : Bool := s.brackets != 0

/-- The scanner with one more token, over some characters. -/
def emit (s : Scanner) (kind : TokenKind) (length : Nat := 0) : Scanner :=
  let cursor := s.cursor.skip length
  { s with cursor, tokens := s.tokens ++ [⟨kind, s.mark, cursor.mark⟩] }

/-- The scanner with tokens put in front of the token with some number. -/
def insert (s : Scanner) (position : Nat) (kinds : List TokenKind) (mark : Mark) : Scanner :=
  let inserted := kinds.map fun kind => ⟨kind, mark, mark⟩
  { s with tokens := s.tokens.take position ++ inserted ++ s.tokens.drop position }

/-! ## Keys -/

/-- The greatest distance between the start of a key and its colon. -/
def maxKeyDistance : Nat := 1024

/-- Whether a key can no longer have begun at a place. -/
def isStale (s : Scanner) (k : PossibleKey) : Bool :=
  k.mark.line != s.mark.line || maxKeyDistance < s.mark.index - k.mark.index

/-- Gives up the places where a key can no longer have begun. -/
def dropStaleKeys (s : Scanner) : Except DocumentError Scanner :=
  match s.keys.find? fun (_, k) => s.isStale k && k.required with
  | some (_, k) => .error (.missingColon k.mark s.mark)
  | none => .ok { s with keys := s.keys.filter fun (_, k) => !s.isStale k }

/-- The place where a key may have begun between the same brackets. -/
def key? (s : Scanner) : Option PossibleKey :=
  s.keys.lookup s.brackets

/-- Forgets the place where a key may have begun between the same brackets. -/
def forgetKey (s : Scanner) : Scanner :=
  { s with keys := s.keys.filter fun (level, _) => level != s.brackets }

/-- Gives up the place where a key may have begun between the same brackets, which must not be
required. -/
def dropKey (s : Scanner) : Except DocumentError Scanner :=
  match s.key? with
  | some k => if k.required then .error (.missingColon k.mark s.mark) else .ok s.forgetKey
  | none => .ok s

/-- Remembers that a key may begin here, if it may. -/
def rememberKey (s : Scanner) : Except DocumentError Scanner := do
  if s.keyAllowed then
    let s ← s.dropKey
    let required := !s.inBrackets && s.indentation == s.mark.column
    return { s with keys := s.keys ++ [(s.brackets, ⟨s.tokens.length, required, s.mark⟩)] }
  else return s

/-! ## Indentation -/

/-- Closes the collections on lines that are indented more than some column. -/
def closeDeeper (column : Int) : List Int → Scanner → Scanner
  | outer :: outers, s =>
    if s.indentation ≤ column then s
    else
      closeDeeper column outers { s.emit .blockEnd with indentation := outer, enclosing := outers }
  | [], s => s

/-- Closes the collections that end at a column, unless the scanner is between brackets. -/
def unwind (column : Int) (s : Scanner) : Scanner :=
  if s.inBrackets then s else closeDeeper column s.enclosing s

/-- The scanner inside a collection on lines that begins in a column, and whether the collection is
a new one. -/
def deepen (column : Nat) (s : Scanner) : Scanner × Bool :=
  if s.indentation < column then
    ({ s with enclosing := s.indentation :: s.enclosing, indentation := column }, true)
  else (s, false)

/-! ## Signs -/

/-- Takes a sign that opens an entry or a key on a line, or stands between brackets. -/
def takeOpener (kind opening : TokenKind) (fault : Mark → DocumentError) (s : Scanner) :
    Except DocumentError Scanner := do
  if s.inBrackets then return s.emit kind 1
  if !s.keyAllowed then throw (fault s.mark)
  let (s, isNew) := s.deepen s.mark.column
  return (if isNew then s.emit opening else s).emit kind 1

/-- Takes the dash in front of an entry. -/
def takeEntry (s : Scanner) : Except DocumentError Scanner := do
  let t ← s.takeOpener .blockEntry .blockListStart .misplacedEntry
  return { t.forgetKey with keyAllowed := true }

/-- Takes the question mark in front of a key. -/
def takeKey (s : Scanner) : Except DocumentError Scanner := do
  let t ← s.takeOpener .key .blockMapStart .misplacedKey
  return { t.forgetKey with keyAllowed := !s.inBrackets }

/-- Takes the colon between a key and its value. The key may have been found before. -/
def takeValue (s : Scanner) : Except DocumentError Scanner :=
  match s.key? with
  | some k =>
    let (t, isNew) := if s.inBrackets then (s, false) else s.deepen k.mark.column
    let marks := if isNew then [.blockMapStart, .key] else [.key]
    .ok { (t.forgetKey.insert k.position marks k.mark).emit .value 1 with keyAllowed := false }
  | none => do
    let t ← s.takeOpener .value .blockMapStart .misplacedValue
    return { t with keyAllowed := !s.inBrackets }

/-- Takes a bracket or a comma. -/
def takeBracket (kind : TokenKind) (s : Scanner) : Except DocumentError Scanner := do
  match kind with
  | .flowListStart | .flowMapStart =>
    let s ← s.rememberKey
    return { s.emit kind 1 with brackets := s.brackets + 1, keyAllowed := true }
  | .flowListEnd | .flowMapEnd =>
    let s ← s.dropKey
    return { s.emit kind 1 with brackets := s.brackets - 1, keyAllowed := false }
  | _ =>
    let s ← s.dropKey
    return { s.emit kind 1 with keyAllowed := true }

/-- Takes a line that separates documents. -/
def takeSeparator (kind : TokenKind) (s : Scanner) : Except DocumentError Scanner := do
  let s ← (s.unwind (-1)).dropKey
  return { s.emit kind 3 with keyAllowed := false }

/-- Takes the end of the document. -/
def takeEnd (s : Scanner) : Except DocumentError Scanner := do
  let s ← (s.unwind (-1)).dropKey
  return { s.emit .streamEnd with keyAllowed := false, keys := [] }

/-! ## Scalars -/

/-- The scanner after a scalar. -/
def takeScalar (s : Scanner) (text : String) (isPlain : Bool) (next : Cursor) : Scanner :=
  { s with
    cursor := next
    tokens := s.tokens ++ [⟨.scalar text isPlain, s.mark, next.mark⟩] }

/-- The characters that part scalars between brackets. -/
def flowMarks : List Char := ",[]\x7b\x7d".toList

/-- Whether the text after a colon makes it the end of a key. -/
def endsKey (inBrackets : Bool) (rest : List Char) : Bool :=
  rest.head?.all fun c => Cursor.isBlank c || (inBrackets && flowMarks.contains c)

/-- A word of a plain scalar. -/
def plainWord (inBrackets : Bool) : List Char → List Char
  | [] => []
  | c :: rest =>
    if Cursor.isBlank c || (c == ':' && endsKey inBrackets rest) ||
        (inBrackets && (c == '?' || flowMarks.contains c)) then []
    else c :: plainWord inBrackets rest

/-- The words of a plain scalar with what parts them, the place after them and the blanks that
follow them, and whether a line ends among these. The lines after the first have at least the given
indentation. -/
def plainText (inBrackets : Bool) (least : Int) : Nat → Cursor → List Char × Cursor × Bool
  | 0, c => ([], c, false)
  | steps + 1, c =>
    let word := plainWord inBrackets c.rest
    let gap := foldBlanks (· == ' ') (c.rest.drop word.length)
    let next := c.skip (word.length + gap.length)
    if gap.text.isEmpty || next.peek == '#' || (!inBrackets && next.mark.column < least) ||
        (gap.crossed && next.atAnySeparator) || (plainWord inBrackets next.rest).isEmpty then
      (word, next, gap.crossed)
    else
      let (text, stop) := plainText inBrackets least steps next
      (word ++ gap.text ++ text, stop)

/-- Takes a plain scalar. -/
def takePlain (s : Scanner) : Except DocumentError Scanner := do
  let s ← s.rememberKey
  let (text, next, crossed) :=
    plainText s.inBrackets (s.indentation + 1) s.cursor.rest.length s.cursor
  return { s.takeScalar (String.ofList text) true next with keyAllowed := crossed }

/-- Takes a scalar in quotes. -/
def takeQuoted (s : Scanner) : Except DocumentError Scanner := do
  let s ← s.rememberKey
  match Quotation.read s.cursor.peek s.cursor with
  | .ok (text, next) =>
    return { s.takeScalar (String.ofList text) false next with keyAllowed := false }
  | .error (fault, mark) => throw (.quotation fault s.mark mark)

/-- Takes a block scalar. -/
def takeBlock (s : Scanner) : Except DocumentError Scanner := do
  let s ← s.dropKey
  match BlockText.read (max 1 (s.indentation + 1).toNat) s.cursor with
  | .ok (text, next) => return { s.takeScalar text false next with keyAllowed := true }
  | .error (fault, mark) => throw (.block fault s.mark mark)

/-- Whether a plain scalar can start here. -/
def startsPlain (s : Scanner) : Bool :=
  match s.cursor.rest with
  | [] => false
  | c :: rest =>
    (!Cursor.isBlank c && !"-?:,[]\x7b\x7d#&*!|>'\"%@`".toList.contains c) ||
      (rest.head?.any (fun next => !Cursor.isBlank next) &&
        (c == '-' || (!s.inBrackets && (c == '?' || c == ':'))))

/-! ## All tokens -/

/-- Whether a sign stands here that needs a blank after it only outside of brackets. -/
def atSign (s : Scanner) (sign : Char) : Bool :=
  s.cursor.peek == sign && (s.inBrackets || s.cursor.atIndicator sign)

/-- Takes what stands here. -/
def take (s : Scanner) : Except DocumentError Scanner :=
  let ch := s.cursor.peek
  if s.cursor.rest.isEmpty then s.takeEnd
  else if s.cursor.atSeparator '-' then s.takeSeparator .documentStart
  else if s.cursor.atSeparator '.' then s.takeSeparator .documentEnd
  else
    match TokenKind.ofBracket? ch with
    | some kind => s.takeBracket kind
    | none =>
      if s.cursor.atIndicator '-' then s.takeEntry
      else if s.atSign '?' then s.takeKey
      else if s.atSign ':' then s.takeValue
      else if !s.inBrackets && (ch == '|' || ch == '>') then s.takeBlock
      else if ch == '\'' || ch == '"' then s.takeQuoted
      else if s.startsPlain then s.takePlain
      else if "&*!".toList.contains ch || (ch == '%' && s.mark.column == 0) then
        .error (.unsupported ch s.mark)
      else .error (.noToken ch s.mark)

/-- Moves to the next content. A key may begin on a new line. -/
def moveOn (s : Scanner) : Scanner :=
  let cursor := s.cursor.skipGap
  { s with
    cursor
    keyAllowed := s.keyAllowed || (!s.inBrackets && cursor.mark.line != s.mark.line) }

/-- Whether the whole document was scanned. -/
def isDone (s : Scanner) : Bool :=
  s.tokens.getLast?.any fun t => t.kind == .streamEnd

/-- The tokens that are certain: those before the first place where a key may have begun. -/
def certain (s : Scanner) : List Token :=
  s.tokens.take (s.keys.foldl (fun n (_, k) => min n k.position) s.tokens.length)

end Scanner

/-- The tokens of a document or those before a fault, and the fault. -/
structure Scanned where
  tokens : List Token
  fault : Option DocumentError := none
  deriving Repr

/-- The scanner after the next content, with the tokens of the collections that end before it. -/
def Scanner.step (s : Scanner) : Except DocumentError Scanner := do
  let s ← s.moveOn.dropStaleKeys
  let s ← (s.unwind s.mark.column).take
  if s.isDone then return s else s.dropStaleKeys

/-- What is wrong after the text, if a scanner that looked at the character with some index has
asked for more. -/
def Scanner.interruption (s : Scanner) (wrong : Option DocumentError) (reach : Option Nat) :
    Option DocumentError :=
  let stop := s.mark.index + s.cursor.rest.length
  wrong.filter fun _ => reach.any fun index => stop ≤ index

/-- Scans on for at most `steps` pieces of content. If something is wrong after the text, scanning
ends with that once it asks for more. -/
def scanFrom (wrong : Option DocumentError) : Nat → Scanner → Scanned
  | 0, s => ⟨s.tokens, none⟩
  | steps + 1, s =>
    match s.step with
    | .error e => ⟨s.certain, some ((s.interruption wrong e.reach?).getD e)⟩
    | .ok t =>
      match s.interruption wrong t.mark.index with
      | some e => ⟨s.certain, some e⟩
      | none => if t.isDone then ⟨t.tokens, none⟩ else scanFrom wrong steps t

/-- The tokens of a document, up to the first fault if there is one. Something may be wrong after
the text. -/
def scan (cs : List Char) (wrong : Option DocumentError) : Scanned :=
  scanFrom wrong (cs.length + 1) { cursor := { rest := cs } }

end DiceTome.Document
