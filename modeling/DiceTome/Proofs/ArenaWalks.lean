import DiceTome.Proofs.CallDepth

/-!
# Walking arenas

The nodes of an arena can be printed and evaluated where they stand, following the indices of their
parts. A definition then takes a copy of the part of the arena that is its body, and a call walks
that copy from its root. Copies may be taken of copies, and a node that is a part of several others
is copied once for each of them. None of this can be told from the outside: a walk from an index
does what the tree at that index does, and so does a walk from the root of its copy.

* `Arena.renderAt` and `Arena.evalNode` print and evaluate a node in place.
* `Arena.renderAt_eq` and `Arena.evalNode_eq`: they follow the tree of the node.
* `Arena.subtree?_refines`: a copy has the text and the behaviour of what it is a copy of.
-/

namespace DiceTome

open Step World

/-! ## Printing in place -/

/-- The outside of a node: an expression of its kind, without its parts. -/
def Node.outside : Node → Expr
  | .literal l => .literal l
  | .name n => .name n
  | .list _ => .list []
  | .call callee _ => .call callee []
  | .binary op _ _ => .binary op default default
  | .unary op _ => .unary op default
  | .conditional _ _ none => .ifThen default default
  | .conditional _ _ (some _) => .ifElse default default default

/-- The text of a node, given the texts of its parts and what they are on the outside. -/
def Node.render (part : Nat → Option String) (outside : Nat → Option Expr) : Node → Option String
  | .literal l => some l.value.render
  | .name n => some n
  | .list items => do return "[" ++ ", ".intercalate (← items.mapM part) ++ "]"
  | .call callee args => do return callee ++ "(" ++ ", ".intercalate (← args.mapM part) ++ ")"
  | .binary op lhs rhs => do
    let left := Expr.wrapped (← part lhs) (Expr.wrapsLeft op (← outside lhs))
    let right := Expr.wrapped (← part rhs) (Expr.wrapsRight op (← outside rhs))
    return left ++ Expr.separator op ++ right
  | .unary op operand => do
    let text := Expr.wrapped (← part operand) (Expr.wrapsOperand op (← outside operand))
    return if op.isPostfix then text ++ op.symbol else op.symbol ++ text
  | .conditional condition consequent none => do
    let test := Expr.wrapped (← part condition) ((← outside condition).strength = .conditional)
    return "if " ++ test ++ " then " ++ (← part consequent)
  | .conditional condition consequent (some alternative) => do
    let test := Expr.wrapped (← part condition) ((← outside condition).strength = .conditional)
    let branch := Expr.wrapped (← part consequent) (← outside consequent).isOpenConditional
    return "if " ++ test ++ " then " ++ branch ++ " else " ++ (← part alternative)

namespace Arena

/-- The text of the node at an index. -/
def renderAt (a : Arena) (i : Nat) : Option String :=
  match a.nodes[i]? with
  | none => none
  | some node =>
    node.render (fun c => if _h : c < i then renderAt a c else none)
      fun c => a.nodes[c]?.map Node.outside
termination_by i

variable {a : Arena} {i c : Nat} {e : Expr}

/-- Whether a tree needs parentheses is decided by the outside of its node. -/
theorem NodeTree.outside {tree : Nat → Option Expr} {node : Node} (h : NodeTree tree node e) :
    node.outside.strength = e.strength ∧ node.outside.isPostfix = e.isPostfix ∧
      node.outside.isOpenConditional = e.isOpenConditional ∧
      node.outside.startsWithDigit = e.startsWithDigit := by
  cases h <;> exact ⟨rfl, rfl, rfl, rfl⟩

/-- Parts that are printed one by one. -/
theorem mapM_eq_renderAll {part : Nat → Option String} {partTree : Nat → Option Expr}
    (hpart : ∀ c e, partTree c = some e → part c = some e.render) {items : List Nat}
    {es : List Expr} (h : items.mapM partTree = some es) :
    items.mapM part = some (Expr.renderAll es) := by
  induction items generalizing es with
  | nil =>
    obtain rfl : [] = es := Option.some.inj h
    rfl
  | cons c items ih =>
    obtain ⟨e, es, he, hes, rfl⟩ := mapM_cons_eq_some h
    rw [List.mapM_cons, hpart c e he, ih hes]
    rfl

/-- A node is printed as the tree that it stands for. -/
theorem render_of_nodeTree {part : Nat → Option String} {outside partTree : Nat → Option Expr}
    (hpart : ∀ c e, partTree c = some e → part c = some e.render)
    (houtside : ∀ c e, partTree c = some e → ∃ o, outside c = some o ∧ o.strength = e.strength ∧
      o.isPostfix = e.isPostfix ∧ o.isOpenConditional = e.isOpenConditional ∧
      o.startsWithDigit = e.startsWithDigit)
    {node : Node} (h : NodeTree partTree node e) : node.render part outside = some e.render := by
  cases h with
  | literal l => rfl
  | name n => rfl
  | list hes =>
    rw [Node.render, mapM_eq_renderAll hpart hes]
    rfl
  | call hes =>
    rw [Node.render, mapM_eq_renderAll hpart hes]
    rfl
  | @binary op lhs rhs l r hl hr =>
    obtain ⟨lo, hlo, hlstrength, hlpostfix, -, -⟩ := houtside _ _ hl
    obtain ⟨ro, hro, hrstrength, -, -, hrdigit⟩ := houtside _ _ hr
    have hleft : Expr.wrapsLeft op lo = Expr.wrapsLeft op l := by
      simp only [Expr.wrapsLeft, Expr.barelyKept, hlstrength, hlpostfix]
    have hright : Expr.wrapsRight op ro = Expr.wrapsRight op r := by
      simp only [Expr.wrapsRight, hrstrength, hrdigit]
    rw [Node.render, hpart _ _ hl, hpart _ _ hr, hlo, hro, Expr.render, ← hleft, ← hright]
    rfl
  | @unary op operand o ho =>
    obtain ⟨oo, hoo, hstrength, hpostfix, -, -⟩ := houtside _ _ ho
    have hwraps : Expr.wrapsOperand op oo = Expr.wrapsOperand op o := by
      simp only [Expr.wrapsOperand, hstrength, hpostfix]
    rw [Node.render, hpart _ _ ho, hoo, Expr.render, ← hwraps]
    rfl
  | ifThen hc hx =>
    obtain ⟨co, hco, hstrength, -, -, -⟩ := houtside _ _ hc
    rw [Node.render, hpart _ _ hc, hpart _ _ hx, hco, Expr.render, ← hstrength]
    rfl
  | ifElse hc hx hy =>
    obtain ⟨co, hco, hstrength, -, -, -⟩ := houtside _ _ hc
    obtain ⟨xo, hxo, -, -, hopen, -⟩ := houtside _ _ hx
    rw [Node.render, hpart _ _ hc, hpart _ _ hx, hpart _ _ hy, hco, hxo, Expr.render, ← hstrength,
      ← hopen]
    rfl

/-- Printing a node in place prints its tree. -/
theorem renderAt_eq (h : a.tree? i = some e) : a.renderAt i = some e.render := by
  induction i using Nat.strongRecOn generalizing e with
  | ind i ih =>
    obtain ⟨node, hnode, htree⟩ := exists_node_of_tree? h
    rw [renderAt, hnode]
    simp only [dite_eq_ite]
    refine render_of_nodeTree (fun c e hc => ?_) (fun c e hc => ?_) htree
    · obtain ⟨hlt, hc⟩ := partTree?_eq_some_iff.mp hc
      rw [if_pos hlt]
      exact ih c hlt hc
    · obtain ⟨-, hc⟩ := partTree?_eq_some_iff.mp hc
      obtain ⟨part, hpart, htree⟩ := exists_node_of_tree? hc
      exact ⟨part.outside, by rw [hpart]; rfl, htree.outside⟩

/-! ## Evaluating in place -/

variable {σ : Type} [DiceSource σ]

/-- Evaluates the node at an index with calls nested to the given level at most. A definition takes a
copy of the part of the arena that is its body. The function keeps the tree of that copy, which a
call plants again and walks from its root. Where there is no node, the evaluation is stuck. -/
def evalNode (stuck : Run σ Outcome) (level : Nat) (scope : Index) (a : Arena) (i : Nat) :
    Run σ Outcome :=
  match a.nodes[i]? with
  | none => stuck
  | some node =>
    node.evalWith stuck
      (fun c => if _h : c < i then evalNode stuck level scope a c else stuck)
      (fun c => (a.subtree? c).bind expr?)
      (callFunction fun f child =>
        match level with
        | 0 => throw (.callDepth f.name)
        | level + 1 => evalNode stuck level child (f.body.plant {}) (f.body.plant {}).root)
      scope
termination_by (level, i)

/-- The tree of a node is that of its copy. -/
theorem expr?_subtree? (h : a.tree? i = some e) : (a.subtree? i).bind expr? = some e := by
  rw [subtree?_of_tree? h]
  exact expr?_plant e {}

/-- A walk follows the tree of its node if it calls functions by a rule that does not depend on the
arena. -/
theorem evalNode_of_rule {stuck : Run σ Outcome} {level : Nat} {scope : Index} {call : CallRule σ}
    (hrule : ∀ (i : Nat) (node : Node), a.nodes[i]? = some node →
      evalNode stuck level scope a i =
        node.evalWith stuck (fun c => if c < i then evalNode stuck level scope a c else stuck)
          (fun c => (a.subtree? c).bind expr?) call scope)
    (h : a.tree? i = some e) : evalNode stuck level scope a i = e.evalWith call scope := by
  induction i using Nat.strongRecOn generalizing e with
  | ind i ih =>
    obtain ⟨node, hnode, htree⟩ := exists_node_of_tree? h
    rw [hrule i node hnode]
    refine evalWith_of_nodeTree (fun c e hc => ?_) (fun c e hc => ?_) htree
    · obtain ⟨hlt, hc⟩ := partTree?_eq_some_iff.mp hc
      rw [if_pos hlt]
      exact ih c hlt hc
    · exact expr?_subtree? (partTree?_eq_some_iff.mp hc).2

/-- Evaluating a node in place evaluates its tree. -/
theorem evalNode_eq (stuck : Run σ Outcome) (level : Nat) (scope : Index) (h : a.tree? i = some e) :
    evalNode stuck level scope a i = evalWithin level scope e := by
  induction level generalizing scope a i e with
  | zero =>
    refine evalNode_of_rule (fun i node hnode => ?_) h
    rw [evalNode, hnode]
    simp only [dite_eq_ite]
  | succ level ih =>
    have hbody : ∀ (f : Function) (child : Nat),
        evalNode stuck level child (f.body.plant {}) (f.body.plant {}).root =
          evalWithin level child f.body := fun f child => ih child (expr?_plant f.body {})
    refine evalNode_of_rule (fun i node hnode => ?_) h
    rw [evalNode, hnode]
    simp only [dite_eq_ite, hbody]

/-! ## Copies of parts -/

/-- The copy of what an index stands for is the listing of the same tree, and planting the tree again
gives the copy. It has the same text, printed in place or as a whole, and evaluating it from its root
is evaluating the node where it stands: with the same outcome or error, and the same world behind it,
with its scopes and the functions defined in them, its dice and its journal. -/
theorem subtree?_refines (ha : a.Ordered) (hi : i < a.size) :
    ∃ b e, a.subtree? i = some b ∧ b.IsListing ∧
      a.tree? i = some e ∧ b.expr? = some e ∧ b = e.plant {} ∧
      a.renderAt i = some b.render ∧ b.renderAt b.root = some b.render ∧
      ∀ (σ : Type) [DiceSource σ] (stuck : Run σ Outcome) (scope : Index) (w : World σ),
        evalNode stuck (levelsLeft w) scope a i w = evalArena b scope w ∧
        evalNode stuck (levelsLeft w) scope b b.root w = evalArena b scope w := by
  obtain ⟨e, he⟩ := ha.exists_tree? hi
  have hcopy : (e.plant {}).expr? = some e := expr?_plant e {}
  have hrender : (e.plant {}).render = e.render := by rw [render, hcopy]; rfl
  refine ⟨e.plant {}, e, subtree?_of_tree? he, isListing_plant e, he, hcopy, rfl, ?_, ?_, ?_⟩
  · rw [renderAt_eq he, hrender]
  · rw [renderAt_eq hcopy, hrender]
  · intro σ _ stuck scope w
    have heval : evalArena (e.plant {}) scope w = evalWithin (levelsLeft w) scope e w := by
      rw [evalArena, hcopy]
      rfl
    rw [heval, evalNode_eq stuck _ scope he, evalNode_eq stuck _ scope hcopy]
    exact ⟨rfl, rfl⟩

/-- The name `x` is a part of three nodes, and the copy of the definition holds it three times. -/
theorem subtree?_refines_shared :
    let a : Arena := ⟨#[.name "x", .binary .add 0 0, .call "f" [0], .binary .assign 2 1]⟩
    let b : Arena := ⟨#[.name "x", .call "f" [0], .name "x", .name "x", .binary .add 2 3,
      .binary .assign 1 4]⟩
    a.Ordered ∧ 3 < a.size ∧ a.subtree? 3 = some b ∧ b.IsListing ∧
      a.renderAt 3 = some "f(x) = x + x" ∧
      ∀ (stuck : Run ScriptedDice Outcome) (w : World ScriptedDice),
        evalNode stuck (levelsLeft w) Context.root a 3 w = evalArena b Context.root w := by
  intro a b
  have hordered : a.Ordered := by decide
  have hx : a.tree? 0 = some (.name "x") := by
    rw [tree?]
    rfl
  have hsum : a.tree? 1 = some (.binary .add (.name "x") (.name "x")) := by
    rw [tree?]
    simp [a, hx]
  have hcall : a.tree? 2 = some (.call "f" [.name "x"]) := by
    rw [tree?]
    simp [a, hx]
  have htree : a.tree? 3 = some (.binary .assign (.call "f" [.name "x"])
      (.binary .add (.name "x") (.name "x"))) := by
    rw [tree?]
    simp [a, hsum, hcall]
  have hcopy : a.subtree? 3 = some b := subtree?_of_tree? htree
  obtain ⟨c, e, hc, hlisting, -, -, -, -, -, heval⟩ := subtree?_refines hordered (i := 3) (by decide)
  obtain rfl : b = c := Option.some.inj (hcopy.symm.trans hc)
  refine ⟨hordered, by decide, hcopy, hlisting, ?_, fun stuck w => (heval _ stuck _ w).1⟩
  rw [renderAt_eq htree]
  rfl

end Arena

end DiceTome
