import DiceTome.Decimal.Text
import DiceTome.Location
import DiceTome.Operator
import DiceTome.Text.Quoted

/-!
# Tokens

A token is a piece of source text with what it stands for and where it stands. Keywords are plain
identifiers here; the grammar gives them their meaning.
-/

namespace DiceTome

/-- The brackets and the comma. -/
inductive Delimiter where
  | parenOpen | parenClose | bracketOpen | bracketClose | comma
  deriving Repr, DecidableEq

namespace Delimiter

def char : Delimiter → Char
  | parenOpen => '('
  | parenClose => ')'
  | bracketOpen => '['
  | bracketClose => ']'
  | comma => ','

/-- The delimiter that a character spells. -/
def ofChar? : Char → Option Delimiter
  | '(' => some parenOpen
  | ')' => some parenClose
  | '[' => some bracketOpen
  | ']' => some bracketClose
  | ',' => some comma
  | _ => none

/-- Whether the delimiter closes a pair. -/
def isCloser : Delimiter → Bool
  | parenClose | bracketClose => true
  | _ => false

end Delimiter

namespace Token

/-- What a token stands for. -/
inductive Kind where
  | natural (value : Nat)
  | decimal (value : Float)
  | roll (quantity die : Nat)
  | string (value : String)
  | identifier (name : String)
  | operator (op : Operator)
  | delimiter (d : Delimiter)
  deriving Repr, BEq

end Token

/-- A token of a source text. -/
structure Token where
  kind : Token.Kind
  lexeme : String
  span : Span
  deriving Repr, BEq

/-- The token as listings show it, without what its delimiter or operator is called. -/
def Token.Kind.valueText : Token.Kind → String
  | .natural n => toString n
  | .decimal x => Decimal.plain x
  | .roll quantity die => s!"({quantity}, {die})"
  | .string s => Text.quoted s
  | .identifier name => Text.quoted name
  | .operator op => Text.quoted op.symbol
  | .delimiter d => String.singleton d.char

end DiceTome
