import DiceTome.Expr
import DiceTome.Text.Digit

/-!
# Printing expressions

`Expr.render` writes an expression as source text with no more parentheses than the grammar needs.
What an operand binds with decides whether it is put in parentheses.
-/

namespace DiceTome

/-- How tightly an expression holds together: conditionals least, then operators by their rank, and
whatever needs no parentheses most. -/
inductive Strength where
  | conditional
  | rank (precedence : Nat)
  | atom
  deriving Repr, DecidableEq

namespace Strength

/-- Whether the expression holds together less tightly than an operator of the given rank. -/
def below (s : Strength) (precedence : Nat) : Bool :=
  match s with
  | conditional => true
  | rank p => p < precedence
  | atom => false

/-- Whether the expression holds together exactly as tightly as an operator of the given rank. -/
def equals (s : Strength) (precedence : Nat) : Bool :=
  s = rank precedence

end Strength

namespace Expr

/-- A literal that starts with a minus sign binds like a negation. -/
def strength : Expr → Strength
  | binary op _ _ => .rank op.precedence
  | unary op _ => .rank op.precedence
  | ifThen _ _ | ifElse _ _ _ => .conditional
  | literal l => if l.value.render.startsWith '-' then .rank UnaryOp.neg.precedence else .atom
  | name _ | list _ | call _ _ => .atom

/-- Whether the outermost operator stands after its operand. -/
def isPostfix : Expr → Bool
  | unary op _ => op.isPostfix
  | _ => false

/-- Whether the expression is a conditional without an alternative. -/
def isOpenConditional : Expr → Bool
  | ifThen _ _ => true
  | _ => false

/-- Whether the expression is a literal that starts with a digit. -/
def startsWithDigit : Expr → Bool
  | literal l => l.value.render.toList.head?.any Text.isDigit
  | _ => false

/-- The left operand of a keep stands bare if it is an atom, a postfix operation or another keep. -/
def barelyKept (e : Expr) : Bool :=
  e.isPostfix || !e.strength.below BinaryOp.keep.precedence

/-- Whether the left operand of an operator needs parentheses. -/
def wrapsLeft (op : BinaryOp) (lhs : Expr) : Bool :=
  match op with
  | .keep => !lhs.barelyKept
  | _ => lhs.strength.below op.precedence ||
      (lhs.strength.equals op.precedence && !op.leftAssociative)

/-- Whether the right operand of an operator needs parentheses; the count of a keep does unless it
starts with a digit. -/
def wrapsRight (op : BinaryOp) (rhs : Expr) : Bool :=
  match op with
  | .keep => !rhs.startsWithDigit
  | _ => rhs.strength.below op.precedence ||
      (rhs.strength.equals op.precedence && op.leftAssociative)

/-- Whether the operand of an operator of one operand needs parentheses. -/
def wrapsOperand (op : UnaryOp) (operand : Expr) : Bool :=
  operand.strength.below op.precedence ||
    (!op.isPostfix && operand.strength.equals op.precedence && operand.isPostfix)

/-- Text in parentheses if they are needed. -/
def wrapped (text : String) (wrap : Bool) : String :=
  if wrap then "(" ++ text ++ ")" else text

/-- The text between the operands of an operator. -/
def separator : BinaryOp → String
  | .keep => "k"
  | .discard => "; "
  | op => " " ++ op.symbol ++ " "

mutual

/-- The expression as source text. -/
def render : Expr → String
  | literal l => l.value.render
  | name n => n
  | list items => "[" ++ ", ".intercalate (renderAll items) ++ "]"
  | call callee args => callee ++ "(" ++ ", ".intercalate (renderAll args) ++ ")"
  | binary op lhs rhs =>
    wrapped lhs.render (wrapsLeft op lhs) ++ separator op ++ wrapped rhs.render (wrapsRight op rhs)
  | unary op operand =>
    let text := wrapped operand.render (wrapsOperand op operand)
    if op.isPostfix then text ++ op.symbol else op.symbol ++ text
  | ifThen condition consequent =>
    "if " ++ wrapped condition.render (condition.strength = .conditional) ++
      " then " ++ consequent.render
  | ifElse condition consequent alternative =>
    "if " ++ wrapped condition.render (condition.strength = .conditional) ++
      " then " ++ wrapped consequent.render consequent.isOpenConditional ++
      " else " ++ alternative.render

/-- The expressions as source text, one by one. -/
def renderAll : List Expr → List String
  | [] => []
  | e :: es => e.render :: renderAll es

end

end Expr

end DiceTome
