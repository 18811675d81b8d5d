import DiceTome.Diagnostic
import DiceTome.Text.Digit
import DiceTome.Text.Lines
import DiceTome.Token

/-!
# Scanning

Source text is cut into tokens from left to right. The letters `a`, `d`, `k` and `s` are operators
only directly after a roll, or after the count of a keep, and only if no name goes on with them;
the scanner therefore remembers what stood right before the current position.

* `scanPiece` reads the piece of text at one position.
* `scanFrom` cuts a whole text; each piece takes at least one character, so it ends.
* `scan` starts at the beginning of a text.
-/

namespace DiceTome

/-- Why a well-formed number literal is refused. -/
inductive NumberLimit where
  | natural
  | decimal
  deriving Repr, DecidableEq

/-- What makes a source text impossible to cut into tokens. The last two arise where a run of
digits holds one without a decimal value. -/
inductive ScanError where
  | unexpectedCharacter (c : Char) (span : Span)
  | unterminatedString (span : Span)
  | invalidEscape (c : Char) (span : Span)
  | invalidNumber (text : String) (limit : Option NumberLimit) (span : Span)
  | unreadableNatural (digits : String)
  | unreadableDecimal (text : String)
  deriving Repr, DecidableEq

namespace Token

/-- The largest natural, roll quantity or number of faces that a literal may spell out. -/
def maxNatural : Nat := Nat.pow 2 64 - 1

/-- What stood right before the current position. -/
inductive Trail where
  | other
  | roll
  | keep
  deriving Repr, DecidableEq

/-- A piece of text: the number of characters after its first one, the kind of token it is unless
it is to be skipped, and what it leaves behind for the next piece. -/
structure Piece where
  extra : Nat
  kind : Option Kind
  trail : Trail
  deriving Repr, BEq

/-- Where a scan stands. -/
structure Cursor where
  file : Option String
  loc : Location
  deriving Repr, DecidableEq

/-- The span of the given characters at the cursor. -/
def Cursor.span (cur : Cursor) (cs : List Char) : Span :=
  ⟨cur.loc, cur.loc.advance cs, cur.file⟩

/-- The cursor after the given characters. -/
def Cursor.advance (cur : Cursor) (cs : List Char) : Cursor :=
  { cur with loc := cur.loc.advance cs }

/-! ## Strings -/

/-- The character that an escape sequence stands for. -/
def unescape? : Char → Option Char
  | 'n' => some '\n'
  | 't' => some '\t'
  | '\\' => some '\\'
  | '"' => some '"'
  | _ => none

/-- How the text after an opening quote goes on: to its closing quote, to a line or text that ends
before it, or to an escape sequence that stands for nothing. The numbers count the characters read,
up to and including the closing quote, and up to the bad escape sequence. -/
inductive StringEnd where
  | closed (text : List Char) (length : Nat)
  | unterminated (length : Nat)
  | badEscape (c : Char) (length : Nat)
  deriving Repr, DecidableEq

/-- The same after one more character of the string, written with `n` characters. -/
def StringEnd.after (c : Char) (n : Nat) : StringEnd → StringEnd
  | .closed text length => .closed (c :: text) (length + n)
  | .unterminated length => .unterminated (length + n)
  | .badEscape e length => .badEscape e (length + n)

/-- Reads a string from behind its opening quote. -/
def readString : List Char → StringEnd
  | [] => .unterminated 0
  | '"' :: _ => .closed [] 1
  | '\n' :: _ => .unterminated 0
  | ['\\'] => .unterminated 1
  | '\\' :: e :: rest =>
    match unescape? e with
    | none => .badEscape e 0
    | some c => (readString rest).after c 2
  | c :: rest => (readString rest).after c 1

/-- The string token whose opening quote stands at the cursor, before `cs`. -/
def scanString (cur : Cursor) (cs : List Char) : Except ScanError Piece :=
  match readString cs with
  | .closed text length => .ok ⟨length, some (.string (String.ofList text)), .other⟩
  | .unterminated length => .error (.unterminatedString (cur.span ('"' :: cs.take length)))
  | .badEscape c length =>
    .error (.invalidEscape c ((cur.advance ('"' :: cs.take length)).span ['\\', c]))

/-! ## Numbers -/

/-- The malformed literal that starts here, as far as names and points go on. -/
def invalidNumber (cur : Cursor) (cs : List Char) (limit : Option NumberLimit) : ScanError :=
  let text := cs.takeWhile fun c => Text.isWordChar c || c == '.'
  .invalidNumber (String.ofList text) limit (cur.span text)

/-- The number that a run of digits spells; the literal it belongs to starts at the cursor. -/
def readNatural (cur : Cursor) (cs digits : List Char) : Except ScanError Nat :=
  let significant := digits.dropWhile (· == '0')
  if 20 < significant.length then .error (invalidNumber cur cs (some .natural))
  else
    match Text.digitsValue? significant with
    | none => .error (.unreadableNatural (String.ofList significant))
    | some n =>
      if maxNatural < n then .error (invalidNumber cur cs (some .natural)) else .ok n

/-- The faces of a roll literal, behind its `d`. -/
def readFaces (cur : Cursor) (cs behind : List Char) : Except ScanError (Nat × List Char) :=
  let faces := behind.takeWhile Text.isDigit
  let rest := behind.dropWhile Text.isDigit
  if faces.isEmpty || rest.head? == some '.' then .error (invalidNumber cur cs none)
  else (readNatural cur cs faces).map (·, faces)

/-- The value of a decimal literal with the given digits before and after its point. -/
def readDecimal (cur : Cursor) (cs whole fraction : List Char) : Except ScanError Float :=
  match Text.digitsValue? (whole ++ fraction) with
  | none =>
    let part (digits : List Char) := if digits.isEmpty then ['0'] else digits
    .error (.unreadableDecimal (String.ofList (part whole ++ '.' :: part fraction)))
  | some n =>
    let x := Decimal.ofDigits n fraction.length
    if x.isFinite then .ok x else .error (invalidNumber cur cs (some .decimal))

/-- The natural, decimal or roll literal at the cursor, which starts with a digit or a point. A
natural directly after a keep is its count, so that a roll operator may follow it. -/
def scanNumber (cur : Cursor) (trail : Trail) (cs : List Char) : Except ScanError Piece :=
  let whole := cs.takeWhile Text.isDigit
  match cs.dropWhile Text.isDigit with
  | 'd' :: behind => do
    let quantity ← readNatural cur cs whole
    let (die, faces) ← readFaces cur cs behind
    return ⟨whole.length + faces.length, some (.roll quantity die), .roll⟩
  | '.' :: behind => do
    let fraction := behind.takeWhile Text.isDigit
    let next := (behind.dropWhile Text.isDigit).head?
    if (whole.isEmpty && fraction.isEmpty) || next == some '.' || next == some 'd' then
      throw (invalidNumber cur cs none)
    let x ← readDecimal cur cs whole fraction
    return ⟨whole.length + fraction.length, some (.decimal x), .other⟩
  | _ => do
    let n ← readNatural cur cs whole
    return ⟨whole.length - 1, some (.natural n), if trail = .keep then .roll else .other⟩

/-! ## Names and operators -/

/-- The name that starts with `c`, or the roll of one die if it reads `d` and a digit. -/
def scanName (cur : Cursor) (c : Char) (cs : List Char) : Except ScanError Piece :=
  if c == 'd' && cs.head?.any Text.isDigit then do
    let (die, faces) ← readFaces cur (c :: cs) cs
    return ⟨faces.length, some (.roll 1 die), .roll⟩
  else
    let more := cs.takeWhile Text.isWordChar
    .ok ⟨more.length, some (.identifier (String.ofList (c :: more))), .other⟩

/-- The roll operator that `c` spells if it stands directly after a roll and no name goes on. -/
def suffix? (trail : Trail) (c : Char) (cs : List Char) : Option Operator :=
  if trail ≠ .roll then none
  else
    match Operator.suffixes.lookup c, cs.head? with
    | none, _ => none
    | some op, none => some op
    | some op, some follow =>
      if Text.isDigit follow then (if c == 'd' then none else some op)
      else if Text.isWordChar follow then none else some op

/-- The operator that the text starts with, and the number of characters after its first. -/
def literal? (cs : List Char) : Option (Operator × Nat) :=
  (Operator.literals.find? fun p => p.1.toList.isPrefixOf cs).map fun p => (p.2, p.1.length - 1)

/-! ## Whole texts -/

/-- The characters that separate tokens. -/
def isSeparator (c : Char) : Bool :=
  c == ' ' || c == '\t' || c == '\r' || c == '\n'

/-- The piece of text at the cursor, where `c` stands before `cs`. -/
def scanPiece (cur : Cursor) (trail : Trail) (c : Char) (cs : List Char) : Except ScanError Piece :=
  if isSeparator c then .ok ⟨0, none, .other⟩
  else if c == '#' then .ok ⟨(cs.takeWhile (· != '\n')).length, none, .other⟩
  else
    match suffix? trail c cs with
    | some op => .ok ⟨0, some (.operator op), if op = .binary .keep then .keep else .roll⟩
    | none =>
      if Text.isDigit c || c == '.' then scanNumber cur trail (c :: cs)
      else if Text.isWordStart c then scanName cur c cs
      else if c == '"' then scanString cur cs
      else
        match Delimiter.ofChar? c, literal? (c :: cs) with
        | some d, _ => .ok ⟨0, some (.delimiter d), .other⟩
        | none, some (op, extra) => .ok ⟨extra, some (.operator op), .other⟩
        | none, none => .error (.unexpectedCharacter c (cur.span [c]))

/-- The tokens of the text from the cursor on. -/
def scanFrom (cur : Cursor) (trail : Trail) : List Char → Except ScanError (List Token)
  | [] => .ok []
  | c :: cs => do
    let piece ← scanPiece cur trail c cs
    let lexeme := c :: cs.take piece.extra
    let tokens ← scanFrom (cur.advance lexeme) piece.trail (cs.drop piece.extra)
    match piece.kind with
    | none => return tokens
    | some kind => return ⟨kind, String.ofList lexeme, cur.span lexeme⟩ :: tokens
termination_by cs => cs.length
decreasing_by simp only [List.length_drop, List.length_cons]; omega

/-- The tokens of a text. -/
def scan (source : String) (file : Option String := none) : Except ScanError (List Token) :=
  scanFrom ⟨file, {}⟩ .other source.toList

end Token

/-! ## Diagnostics of the scanner -/

/-- What the limit says. -/
def NumberLimit.hint : NumberLimit → String
  | .natural => s!"numbers are limited to {Token.maxNatural}"
  | .decimal => "decimal literal is too large"

namespace ScanError

/-- The numbered message about a text that cannot be cut; a digit without a value has none. -/
def diagnostic? (source : String) : ScanError → Option Diagnostic
  | unexpectedCharacter c span => some {
      code := "E001"
      message := s!"unexpected character '{c}'"
      span := some span
      sourceLine := Text.line? source span.start.line.toNat }
  | unterminatedString span => some {
      code := "E002"
      message := "unterminated string"
      span := some span
      sourceLine := Text.line? source span.start.line.toNat
      hints := ["string literals must be closed on the line they start"] }
  | invalidEscape c span => some {
      code := "E003"
      message := s!"invalid escape sequence '\\{c}'"
      span := some span
      sourceLine := Text.line? source span.start.line.toNat
      hints := ["valid escape sequences: \\n, \\t, \\\", \\\\"] }
  | invalidNumber text limit span =>
    let roll := text.toList.contains '.' && text.toList.contains 'd'
    some {
      code := "E004"
      message := s!"invalid number literal '{text}'"
      span := some span
      sourceLine := Text.line? source span.start.line.toNat
      hints := limit.toList.map NumberLimit.hint ++
        if roll then ["a roll literal cannot contain a decimal point"] else [] }
  | unreadableNatural _ => none
  | unreadableDecimal _ => none

/-- The text of the error, with its place in the source if it has one. -/
def text (source : String) (e : ScanError) : String :=
  match e.diagnostic? source, e with
  | some d, _ => d.format
  | none, unreadableNatural digits =>
    s!"invalid literal for int() with base 10: {Text.quoted digits}"
  | none, unreadableDecimal literal => s!"could not convert string to float: {Text.quoted literal}"
  | none, _ => ""

end ScanError

end DiceTome
