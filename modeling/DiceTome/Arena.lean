import DiceTome.Expr.Printer
import DiceTome.Index

/-!
# Arenas

An arena lists the nodes of an expression, each after its parts, which it names by their index; the
last node is the whole expression. The parser builds arenas, and `Arena.tree?` reads the expression
back.

* `Arena.tree?` is the expression at an index.
* `Arena.subtree?` copies the part of an arena that an index stands for.
-/

namespace DiceTome

/-- A node of an expression with its parts given by index. -/
inductive Node where
  | literal (l : Literal)
  | name (n : String)
  | list (items : List Nat)
  | call (callee : String) (args : List Nat)
  | binary (op : BinaryOp) (lhs rhs : Nat)
  | unary (op : UnaryOp) (operand : Nat)
  | conditional (condition consequent : Nat) (alternative : Option Nat)
  deriving Repr, BEq, Inhabited

/-- A list of nodes that only grows at its end. -/
structure Arena where
  nodes : Array Node := #[]
  deriving Repr, BEq, Inhabited

namespace Arena

def size (a : Arena) : Nat :=
  a.nodes.size

/-- The arena with one more node. -/
def push (a : Arena) (node : Node) : Arena :=
  ⟨a.nodes.push node⟩

/-- The index of the whole expression. -/
def root (a : Arena) : Nat :=
  a.size - 1

/-- The expression at an index, or `none` if a node is missing or names one that does not come
before it. -/
def tree? (a : Arena) (i : Nat) : Option Expr :=
  match a.nodes[i]? with
  | none => none
  | some (.literal l) => some (.literal l)
  | some (.name n) => some (.name n)
  | some (.list items) => do
    return .list (← items.mapM fun c => if _h : c < i then tree? a c else none)
  | some (.call callee args) => do
    return .call callee (← args.mapM fun c => if _h : c < i then tree? a c else none)
  | some (.binary op lhs rhs) => do
    let lhs ← if _h : lhs < i then tree? a lhs else none
    let rhs ← if _h : rhs < i then tree? a rhs else none
    return .binary op lhs rhs
  | some (.unary op operand) => do
    let operand ← if _h : operand < i then tree? a operand else none
    return .unary op operand
  | some (.conditional condition consequent none) => do
    let condition ← if _h : condition < i then tree? a condition else none
    let consequent ← if _h : consequent < i then tree? a consequent else none
    return .ifThen condition consequent
  | some (.conditional condition consequent (some alternative)) => do
    let condition ← if _h : condition < i then tree? a condition else none
    let consequent ← if _h : consequent < i then tree? a consequent else none
    let alternative ← if _h : alternative < i then tree? a alternative else none
    return .ifElse condition consequent alternative
termination_by i

/-- The whole expression; an empty arena has none. -/
def expr? (a : Arena) : Option Expr :=
  a.tree? a.root

/-- The whole expression as source text. -/
def render (a : Arena) : String :=
  (a.expr?.map Expr.render).getD ""

/-- Appends a node to the copy that is being made and gives its index there. -/
def append (node : Node) : StateT Arena Option Nat := fun dest =>
  some (dest.size, dest.push node)

/-- Copies everything that the node at an index is made of to the end of another arena, the parts
of a node before the node itself. -/
def copy (a : Arena) (i : Nat) : StateT Arena Option Nat := do
  match a.nodes[i]? with
  | none => failure
  | some (.literal l) => append (.literal l)
  | some (.name n) => append (.name n)
  | some (.list items) =>
    append (.list (← items.mapM fun c => if _h : c < i then copy a c else failure))
  | some (.call callee args) =>
    append (.call callee (← args.mapM fun c => if _h : c < i then copy a c else failure))
  | some (.binary op lhs rhs) =>
    let lhs ← if _h : lhs < i then copy a lhs else failure
    let rhs ← if _h : rhs < i then copy a rhs else failure
    append (.binary op lhs rhs)
  | some (.unary op operand) =>
    let operand ← if _h : operand < i then copy a operand else failure
    append (.unary op operand)
  | some (.conditional condition consequent none) =>
    let condition ← if _h : condition < i then copy a condition else failure
    let consequent ← if _h : consequent < i then copy a consequent else failure
    append (.conditional condition consequent none)
  | some (.conditional condition consequent (some alternative)) =>
    let condition ← if _h : condition < i then copy a condition else failure
    let consequent ← if _h : consequent < i then copy a consequent else failure
    let alternative ← if _h : alternative < i then copy a alternative else failure
    append (.conditional condition consequent (some alternative))
termination_by i

/-- The part of the arena that an index stands for, as an arena of its own. -/
def subtree? (a : Arena) (i : Nat) : Option Arena :=
  ((a.copy i).run {}).map Prod.snd

/-- The position of a node that an index stands for. -/
def position? (a : Arena) (i : Index) : Option Nat :=
  Index.position? a.size i

end Arena

end DiceTome
