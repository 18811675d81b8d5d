import DiceTome.Value

/-!
# Expressions

The syntax trees of the language. A statement is an expression too: assignment and sequencing are
operators.
-/

namespace DiceTome

/-- A value that source text can spell out. -/
inductive Literal where
  | bool (b : Bool)
  | decimal (x : Float)
  | natural (n : Nat)
  | roll (quantity die : Nat)
  | string (s : String)
  deriving Repr, BEq

/-- The value of a literal. -/
def Literal.value : Literal → Value
  | bool b => .bool b
  | decimal x => .decimal x
  | natural n => .natural n
  | roll quantity die => .roll ⟨quantity, die, false, false⟩
  | string s => .string s

/-- An expression. -/
inductive Expr where
  | literal (l : Literal)
  | name (n : String)
  | list (items : List Expr)
  | call (callee : String) (args : List Expr)
  | binary (op : BinaryOp) (lhs rhs : Expr)
  | unary (op : UnaryOp) (operand : Expr)
  | ifThen (condition consequent : Expr)
  | ifElse (condition consequent alternative : Expr)
  deriving Repr, Inhabited

namespace Expr

mutual

/-- The number of nodes of the tree. -/
def size : Expr → Nat
  | literal _ | name _ => 1
  | list items => sizeAll items + 1
  | call _ args => sizeAll args + 1
  | binary _ lhs rhs => lhs.size + rhs.size + 1
  | unary _ operand => operand.size + 1
  | ifThen condition consequent => condition.size + consequent.size + 1
  | ifElse condition consequent alternative =>
    condition.size + consequent.size + alternative.size + 1

/-- The number of nodes of some trees. -/
def sizeAll : List Expr → Nat
  | [] => 0
  | e :: es => e.size + sizeAll es

end

end Expr

end DiceTome
