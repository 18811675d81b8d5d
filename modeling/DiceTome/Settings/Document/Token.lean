import DiceTome.Settings.Cursor

/-!
# Tokens of settings documents

A document is a sequence of tokens: scalars, the signs around them, and tokens without characters of
their own that tell where a collection on lines begins and ends.
-/

namespace DiceTome.Document

/-- What a token is. -/
inductive TokenKind where
  | documentStart
  | documentEnd
  | streamEnd
  | blockListStart
  | blockMapStart
  | blockEnd
  | flowListStart
  | flowListEnd
  | flowMapStart
  | flowMapEnd
  | flowEntry
  | blockEntry
  | key
  | value
  | scalar (text : String) (isPlain : Bool)
  deriving Repr, DecidableEq

/-- A token with the places where it starts and ends. -/
structure Token where
  kind : TokenKind
  start : Mark
  stop : Mark
  deriving Repr, DecidableEq

/-- The name of a token in messages. -/
def TokenKind.name : TokenKind → String
  | documentStart => "<document start>"
  | documentEnd => "<document end>"
  | streamEnd => "<stream end>"
  | blockListStart => "<block sequence start>"
  | blockMapStart => "<block mapping start>"
  | blockEnd => "<block end>"
  | flowListStart => "["
  | flowListEnd => "]"
  | flowMapStart => "\x7b"
  | flowMapEnd => "\x7d"
  | flowEntry => ","
  | blockEntry => "-"
  | key => "?"
  | value => ":"
  | scalar _ _ => "<scalar>"

/-- The token of a sign between brackets or of the brackets themselves. -/
def TokenKind.ofBracket? : Char → Option TokenKind
  | '[' => some flowListStart
  | ']' => some flowListEnd
  | '\x7b' => some flowMapStart
  | '\x7d' => some flowMapEnd
  | ',' => some flowEntry
  | _ => none

end DiceTome.Document
