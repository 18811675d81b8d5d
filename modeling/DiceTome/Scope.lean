import DiceTome.Expr.Printer
import DiceTome.Index

/-!
# Scopes

A scope binds names to values and functions, in the order in which the names were first bound. The
scopes of a context form a chain from each scope to the root; a scope also lists the scopes opened
below it, under names that no expression can spell.
-/

namespace DiceTome

/-- A function defined by the user. Its body is evaluated in a child of the scope it was defined in;
the declaration number orders functions by age. -/
structure Function where
  name : String
  body : Expr
  parameters : List String
  scope : Index
  declaration : Nat
  deriving Repr, Inhabited

/-- The definition as source text; a sequence is put in parentheses. -/
def Function.render (f : Function) : String :=
  let body :=
    match f.body with
    | .binary .discard _ _ => "(" ++ f.body.render ++ ")"
    | _ => f.body.render
  f.name ++ "(" ++ ", ".intercalate f.parameters ++ ") = " ++ body

/-- What a name is bound to. -/
inductive Binding where
  | value (v : Value)
  | function (f : Function)
  | child (scope : Nat)
  deriving Repr, Inhabited

/-- The bindings of a scope, the name of the scope and the scope it lies in. -/
structure Scope where
  parent : Option Index := none
  name : String := "root"
  bindings : List (String × Binding) := []
  deriving Repr, Inhabited

namespace Scope

/-- What a name is bound to in the scope itself. -/
def find? (s : Scope) (name : String) : Option Binding :=
  s.bindings.lookup name

/-- Replaces the binding of a name where it stands, or adds one at the end. -/
def insertInto (name : String) (b : Binding) : List (String × Binding) → List (String × Binding)
  | [] => [(name, b)]
  | (n, old) :: rest => if n = name then (n, b) :: rest else (n, old) :: insertInto name b rest

/-- Binds a name; a name that was bound keeps its place. -/
def insert (s : Scope) (name : String) (b : Binding) : Scope :=
  { s with bindings := insertInto name b s.bindings }

/-- Removes the binding of a name. -/
def erase (s : Scope) (name : String) : Scope :=
  { s with bindings := s.bindings.filter fun p => p.1 ≠ name }

/-- The values bound in the scope itself, in order. -/
def values (s : Scope) : List (String × Value) :=
  s.bindings.filterMap fun
    | (name, .value v) => some (name, v)
    | _ => none

/-- The functions bound in the scope itself, the oldest first. -/
def functions (s : Scope) : List Function :=
  let found := s.bindings.filterMap fun
    | (_, .function f) => some f
    | _ => none
  found.mergeSort fun f g => decide (f.declaration ≤ g.declaration)

/-- The names bound in the scope, in order. -/
def keys (s : Scope) : List String :=
  s.bindings.map Prod.fst

/-- The name under which a scope lists one below it. -/
def childKey (name : String) (index : Nat) : String :=
  s!"<{name}:{index}>"

end Scope

end DiceTome
