/-!
# Operators

Every operator has a symbol, a precedence rank (a higher one binds tighter), an associativity and a
fixity. `Operator.reducesBefore` is the whole rule by which a parser with an operator stack decides
between reducing and shifting.
-/

namespace DiceTome

/-- The operators that stand between two operands. -/
inductive BinaryOp where
  | discard | assign | and | or | equal | greater | less | greaterEqual | lessEqual
  | add | sub | mul | div | pow | keep
  deriving Repr, DecidableEq

/-- The operators of one operand: `not` and `neg` stand before it, the others after it. -/
inductive UnaryOp where
  | not | neg | advantage | disadvantage | sort
  deriving Repr, DecidableEq

/-- An entry of the operator stack: an operator, or the floor below which nothing is reduced. -/
inductive Operator where
  | floor
  | binary (op : BinaryOp)
  | unary (op : UnaryOp)
  deriving Repr, DecidableEq

namespace BinaryOp

def symbol : BinaryOp → String
  | discard => ";"
  | assign => "="
  | and => "&"
  | or => "|"
  | equal => "=="
  | greater => ">"
  | less => "<"
  | greaterEqual => ">="
  | lessEqual => "<="
  | add => "+"
  | sub => "-"
  | mul => "*"
  | div => "/"
  | pow => "^"
  | keep => "k"

def precedence : BinaryOp → Nat
  | discard => 1
  | assign => 2
  | and | or => 3
  | equal | greater | less | greaterEqual | lessEqual => 4
  | add | sub => 5
  | mul | div => 6
  | pow => 8
  | keep => 9

/-- Assignment and powers group to the right, all others to the left. -/
def leftAssociative : BinaryOp → Bool
  | assign | pow => false
  | _ => true

end BinaryOp

namespace UnaryOp

def symbol : UnaryOp → String
  | not => "!"
  | neg => "-"
  | advantage => "a"
  | disadvantage => "d"
  | sort => "s"

/-- All operators of one operand have the same rank, between products and powers. -/
def precedence : UnaryOp → Nat := fun _ => 7

/-- Whether the operator stands after its operand. -/
def isPostfix : UnaryOp → Bool
  | not | neg => false
  | advantage | disadvantage | sort => true

end UnaryOp

namespace Operator

def symbol : Operator → String
  | floor => "@"
  | binary op => op.symbol
  | unary op => op.symbol

def precedence : Operator → Nat
  | floor => 0
  | binary op => op.precedence
  | unary op => op.precedence

def leftAssociative : Operator → Bool
  | binary op => op.leftAssociative
  | _ => false

def isBinary : Operator → Bool
  | binary _ => true
  | _ => false

def isUnary : Operator → Bool
  | unary _ => true
  | _ => false

def isUnaryPrefix : Operator → Bool
  | unary op => !op.isPostfix
  | _ => false

def isUnaryPostfix : Operator → Bool
  | unary op => op.isPostfix
  | _ => false

/-- Whether an operator on the stack is reduced before `next` is taken up. Of two binary operators
the one of higher rank goes first, and of equal rank the earlier one if it groups to the left. An
operator of one operand goes before a binary operator, and any operator before a postfix one, unless
its rank is lower. The floor is never reduced. -/
def reducesBefore (top next : Operator) : Bool :=
  match top, next with
  | binary a, binary b =>
    if a.precedence = b.precedence then a.leftAssociative else b.precedence < a.precedence
  | unary a, binary b => b.precedence ≤ a.precedence
  | binary a, unary b => b.isPostfix && b.precedence ≤ a.precedence
  | unary a, unary b => b.isPostfix && b.precedence ≤ a.precedence
  | _, _ => false

/-- Every operator, in the order of the reference. -/
def all : List Operator :=
  [floor, binary .discard, binary .assign, binary .and, binary .or, unary .not, binary .equal,
   binary .greater, binary .less, binary .greaterEqual, binary .lessEqual, binary .add, binary .sub,
   binary .mul, binary .div, binary .pow, unary .neg, binary .keep, unary .advantage,
   unary .disadvantage, unary .sort]

/-- The operators spelled the same everywhere, in the order in which they are tried: the longer
spellings first, so that `>=` wins over `>` and `==` over `=`. -/
def literals : List (String × Operator) :=
  let spelled := all.filter fun op =>
    match op with
    | floor | binary .keep | unary .neg => false
    | _ => !op.isUnaryPostfix
  let pairs := spelled.map fun op => (op.symbol, op)
  pairs.filter (fun p => p.1.length = 2) ++ pairs.filter (fun p => p.1.length = 1)

/-- The letters that are operators directly after a roll. -/
def suffixes : List (Char × Operator) :=
  [('a', unary .advantage), ('d', unary .disadvantage), ('k', binary .keep), ('s', unary .sort)]

end Operator

end DiceTome
