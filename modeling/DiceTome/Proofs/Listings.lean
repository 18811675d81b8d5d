import DiceTome.Proofs.Plant
import Mathlib.Data.List.Nodup
import Mathlib.Logic.ExistsUnique
import Mathlib.Logic.Relation

/-!
# Listings

Nodes name their parts by index. Where every node stands behind its parts, every index stands for a
tree, although a node may be a part of many others and some may be parts of none. What an index
stands for is copied to an arena of its own: each node once for every way that leads to it, behind
its parts, with the root as the last. Such an arena is a listing of the tree.

* `Arena.NodeTree` is the tree of one node, given those of its parts, and `Arena.Ordered.exists_tree?`
  finds one for every index.
* `Arena.copy_eq`: copying a part of an arena plants its tree.
* `Arena.perm_plant` counts how often an index is named: once, unless it is that of the root.
* `Arena.isListing_plant`: a planted tree is a listing.
-/

namespace DiceTome

/-- The indices of the parts of a node, in order. -/
def Node.parts : Node → List Nat
  | .literal _ | .name _ => []
  | .list items => items
  | .call _ args => args
  | .binary _ lhs rhs => [lhs, rhs]
  | .unary _ operand => [operand]
  | .conditional condition consequent alternative => condition :: consequent :: alternative.toList

namespace Arena

variable {a b : Arena} {i c : Nat} {e : Expr}

/-! ## The tree of a node -/

/-- The expression that a node stands for if its parts have expressions. -/
inductive NodeTree (tree : Nat → Option Expr) : Node → Expr → Prop
  | literal (l : Literal) : NodeTree tree (.literal l) (.literal l)
  | name (n : String) : NodeTree tree (.name n) (.name n)
  | list {items : List Nat} {es : List Expr} (h : items.mapM tree = some es) :
      NodeTree tree (.list items) (.list es)
  | call {callee : String} {args : List Nat} {es : List Expr} (h : args.mapM tree = some es) :
      NodeTree tree (.call callee args) (.call callee es)
  | binary {op : BinaryOp} {lhs rhs : Nat} {l r : Expr} (hl : tree lhs = some l)
      (hr : tree rhs = some r) : NodeTree tree (.binary op lhs rhs) (.binary op l r)
  | unary {op : UnaryOp} {operand : Nat} {o : Expr} (ho : tree operand = some o) :
      NodeTree tree (.unary op operand) (.unary op o)
  | ifThen {condition consequent : Nat} {c x : Expr} (hc : tree condition = some c)
      (hx : tree consequent = some x) :
      NodeTree tree (.conditional condition consequent none) (.ifThen c x)
  | ifElse {condition consequent alternative : Nat} {c x y : Expr} (hc : tree condition = some c)
      (hx : tree consequent = some x) (hy : tree alternative = some y) :
      NodeTree tree (.conditional condition consequent (some alternative)) (.ifElse c x y)

/-- The expression of a part, which has to come before the node at the given index. -/
def partTree? (a : Arena) (i c : Nat) : Option Expr :=
  if c < i then a.tree? c else none

theorem partTree?_eq_some_iff : a.partTree? i c = some e ↔ c < i ∧ a.tree? c = some e := by
  unfold partTree?
  by_cases hlt : c < i <;> simp [hlt]

theorem bind_partTree? {f : Expr → Option Expr}
    (h : (if c < i then a.tree? c >>= f else none >>= f) = some e) :
    ∃ x, a.partTree? i c = some x ∧ f x = some e := by
  split at h
  · rename_i hlt
    obtain ⟨x, hx, hf⟩ := Option.bind_eq_some_iff.mp h
    exact ⟨x, partTree?_eq_some_iff.mpr ⟨hlt, hx⟩, hf⟩
  · cases h

/-- A node that has an expression stands for it, with parts that come before the node. -/
theorem nodeTree_of_tree? {a : Arena} {i : Nat} {node : Node} {e : Expr}
    (hnode : a.nodes[i]? = some node) (h : a.tree? i = some e) : NodeTree (a.partTree? i) node e := by
  rw [tree?, hnode] at h
  simp only [dite_eq_ite] at h
  cases node with
  | literal l =>
    cases h
    exact .literal l
  | name n =>
    cases h
    exact .name n
  | list items =>
    obtain ⟨es, hes, h⟩ := Option.bind_eq_some_iff.mp h
    cases h
    exact .list hes
  | call callee args =>
    obtain ⟨es, hes, h⟩ := Option.bind_eq_some_iff.mp h
    cases h
    exact .call hes
  | binary op lhs rhs =>
    obtain ⟨l, hl, h⟩ := bind_partTree? h
    obtain ⟨r, hr, h⟩ := bind_partTree? h
    cases h
    exact .binary hl hr
  | unary op operand =>
    obtain ⟨o, ho, h⟩ := bind_partTree? h
    cases h
    exact .unary ho
  | conditional condition consequent alternative =>
    cases alternative with
    | none =>
      obtain ⟨c, hc, h⟩ := bind_partTree? h
      obtain ⟨x, hx, h⟩ := bind_partTree? h
      cases h
      exact .ifThen hc hx
    | some alternative =>
      obtain ⟨c, hc, h⟩ := bind_partTree? h
      obtain ⟨x, hx, h⟩ := bind_partTree? h
      obtain ⟨y, hy, h⟩ := bind_partTree? h
      cases h
      exact .ifElse hc hx hy

theorem exists_node_of_tree? (h : a.tree? i = some e) :
    ∃ node, a.nodes[i]? = some node ∧ NodeTree (a.partTree? i) node e := by
  cases hnode : a.nodes[i]? with
  | none =>
    rw [tree?, hnode] at h
    cases h
  | some node => exact ⟨node, rfl, nodeTree_of_tree? hnode h⟩

theorem mapM_cons_eq_some {tree : Nat → Option Expr} {c : Nat} {items : List Nat} {es : List Expr}
    (h : (c :: items).mapM tree = some es) :
    ∃ e rest, tree c = some e ∧ items.mapM tree = some rest ∧ es = e :: rest := by
  rw [List.mapM_cons] at h
  obtain ⟨e, he, h⟩ := Option.bind_eq_some_iff.mp h
  obtain ⟨rest, hrest, h⟩ := Option.bind_eq_some_iff.mp h
  cases h
  exact ⟨e, rest, he, hrest, rfl⟩

theorem exists_mapM {tree : Nat → Option Expr} {items : List Nat}
    (h : ∀ c ∈ items, ∃ e, tree c = some e) : ∃ es, items.mapM tree = some es := by
  induction items with
  | nil => exact ⟨[], rfl⟩
  | cons c items ih =>
    obtain ⟨hc, hmore⟩ := List.forall_mem_cons.mp h
    obtain ⟨e, he⟩ := hc
    obtain ⟨es, hes⟩ := ih hmore
    refine ⟨e :: es, ?_⟩
    rw [List.mapM_cons, he, hes]
    rfl

theorem exists_nodeTree {tree : Nat → Option Expr} {node : Node}
    (h : ∀ c ∈ node.parts, ∃ e, tree c = some e) : ∃ e, NodeTree tree node e := by
  cases node with
  | literal l => exact ⟨_, .literal l⟩
  | name n => exact ⟨_, .name n⟩
  | list items =>
    obtain ⟨es, hes⟩ := exists_mapM h
    exact ⟨_, .list hes⟩
  | call callee args =>
    obtain ⟨es, hes⟩ := exists_mapM h
    exact ⟨_, .call hes⟩
  | binary op lhs rhs =>
    obtain ⟨l, hl⟩ := h lhs (by simp [Node.parts])
    obtain ⟨r, hr⟩ := h rhs (by simp [Node.parts])
    exact ⟨_, .binary hl hr⟩
  | unary op operand =>
    obtain ⟨o, ho⟩ := h operand (by simp [Node.parts])
    exact ⟨_, .unary ho⟩
  | conditional condition consequent alternative =>
    obtain ⟨x, hx⟩ := h condition (by simp [Node.parts])
    obtain ⟨y, hy⟩ := h consequent (by simp [Node.parts])
    cases alternative with
    | none => exact ⟨_, .ifThen hx hy⟩
    | some alternative =>
      obtain ⟨z, hz⟩ := h alternative (by simp [Node.parts])
      exact ⟨_, .ifElse hx hy hz⟩

theorem tree?_of_nodeTree {node : Node} (hnode : a.nodes[i]? = some node)
    (h : NodeTree (a.partTree? i) node e) : a.tree? i = some e := by
  rw [tree?, hnode]
  cases h with
  | literal l => rfl
  | name n => rfl
  | list hes =>
    unfold partTree? at hes
    simp [hes]
  | call hes =>
    unfold partTree? at hes
    simp [hes]
  | binary hl hr =>
    obtain ⟨hlhs, hl⟩ := partTree?_eq_some_iff.mp hl
    obtain ⟨hrhs, hr⟩ := partTree?_eq_some_iff.mp hr
    simp [hlhs, hl, hrhs, hr]
  | unary ho =>
    obtain ⟨hoperand, ho⟩ := partTree?_eq_some_iff.mp ho
    simp [hoperand, ho]
  | ifThen hc hx =>
    obtain ⟨hcondition, hc⟩ := partTree?_eq_some_iff.mp hc
    obtain ⟨hconsequent, hx⟩ := partTree?_eq_some_iff.mp hx
    simp [hcondition, hc, hconsequent, hx]
  | ifElse hc hx hy =>
    obtain ⟨hcondition, hc⟩ := partTree?_eq_some_iff.mp hc
    obtain ⟨hconsequent, hx⟩ := partTree?_eq_some_iff.mp hx
    obtain ⟨halternative, hy⟩ := partTree?_eq_some_iff.mp hy
    simp [hcondition, hc, hconsequent, hx, halternative, hy]

/-! ## Arenas with parts first -/

/-- The node at `c` is a part of the node at `i`. -/
def HasPart (a : Arena) (i c : Nat) : Prop :=
  ∃ node, a.nodes[i]? = some node ∧ c ∈ node.parts

/-- Every node stands behind its parts. -/
def Ordered (a : Arena) : Prop :=
  ∀ ⦃i c⦄, a.HasPart i c → c < i

theorem ordered_iff :
    a.Ordered ↔ ∀ (i : Nat) (h : i < a.nodes.size), ∀ c ∈ a.nodes[i].parts, c < i := by
  constructor
  · intro h i hi c hc
    exact h ⟨a.nodes[i], Array.getElem?_eq_getElem hi, hc⟩
  · rintro h i c ⟨node, hnode, hc⟩
    obtain ⟨hi, rfl⟩ := Array.getElem?_eq_some_iff.mp hnode
    exact h i hi c hc

instance : Decidable a.Ordered :=
  decidable_of_iff _ ordered_iff.symm

/-- Where every node stands behind its parts, every index has a tree. -/
theorem Ordered.exists_tree? (h : a.Ordered) (hi : i < a.size) : ∃ e, a.tree? i = some e := by
  induction i using Nat.strongRecOn with
  | ind i ih =>
    have hsize : i < a.nodes.size := hi
    have hnode : a.nodes[i]? = some a.nodes[i] := Array.getElem?_eq_getElem hsize
    obtain ⟨e, he⟩ : ∃ e, NodeTree (a.partTree? i) a.nodes[i] e := by
      refine exists_nodeTree fun c hc => ?_
      have hlt : c < i := h ⟨_, hnode, hc⟩
      obtain ⟨e, he⟩ := ih c hlt (Nat.lt_trans hlt hi)
      exact ⟨e, partTree?_eq_some_iff.mpr ⟨hlt, he⟩⟩
    exact ⟨e, tree?_of_nodeTree hnode he⟩

/-! ## Copies -/

/-- What goes on after a copy that has been made. -/
theorem copy_bind {x : StateT Arena Option α} {f : α → StateT Arena Option β} {dest dest' : Arena}
    {v : α} (h : x dest = some (v, dest')) : (x >>= f) dest = f v dest' := by
  show (x dest).bind _ = _
  rw [h]
  rfl

/-- Every part that has a tree is copied by planting it. -/
def CopiesTo (part : Nat → StateT Arena Option Nat) (partTree : Nat → Option Expr) : Prop :=
  ∀ c e, partTree c = some e → ∀ dest, part c dest = some ((e.plant dest).root, e.plant dest)

theorem CopiesTo.mapM {part : Nat → StateT Arena Option Nat} {partTree : Nat → Option Expr}
    (hpart : CopiesTo part partTree) {items : List Nat} {es : List Expr}
    (h : items.mapM partTree = some es) (dest : Arena) :
    items.mapM part dest = some ((Expr.plantAll es dest).2, (Expr.plantAll es dest).1) := by
  induction items generalizing es dest with
  | nil =>
    obtain rfl : [] = es := Option.some.inj h
    rfl
  | cons c items ih =>
    obtain ⟨e, es, he, hes, rfl⟩ := mapM_cons_eq_some h
    rw [List.mapM_cons, copy_bind (hpart c e he dest), copy_bind (ih hes _)]
    rfl

/-- A part that comes before its node is copied by planting it, if all such parts are. -/
theorem copy_bind_part {f : Nat → StateT Arena Option β}
    (ih : ∀ c < i, ∀ {e}, a.tree? c = some e → ∀ dest,
      a.copy c dest = some ((e.plant dest).root, e.plant dest))
    (h : a.partTree? i c = some e) (dest : Arena) :
    (if c < i then a.copy c >>= f else failure >>= f) dest =
      f (e.plant dest).root (e.plant dest) := by
  obtain ⟨hlt, he⟩ := partTree?_eq_some_iff.mp h
  rw [if_pos hlt, copy_bind (ih c hlt he dest)]

/-- Copying a part of an arena plants its tree. -/
theorem copy_eq (h : a.tree? i = some e) (dest : Arena) :
    a.copy i dest = some ((e.plant dest).root, e.plant dest) := by
  induction i using Nat.strongRecOn generalizing e dest with
  | ind i ih =>
    have hpart : CopiesTo (fun c => if c < i then a.copy c else failure) (a.partTree? i) := by
      intro c e hc dest
      obtain ⟨hlt, hc⟩ := partTree?_eq_some_iff.mp hc
      simp only [if_pos hlt]
      exact ih c hlt hc dest
    have hadd : ∀ (node : Node) (dest : Arena),
        append node dest = some ((dest.push node).root, dest.push node) := by
      intro node dest
      rw [root_push]
      rfl
    obtain ⟨node, hnode, htree⟩ := exists_node_of_tree? h
    rw [copy, hnode]
    simp only [dite_eq_ite]
    cases htree with
    | literal l => exact hadd _ _
    | name n => exact hadd _ _
    | list hes =>
      dsimp only
      rw [copy_bind (hpart.mapM hes dest)]
      exact hadd _ _
    | call hes =>
      dsimp only
      rw [copy_bind (hpart.mapM hes dest)]
      exact hadd _ _
    | binary hl hr =>
      dsimp only
      rw [copy_bind_part ih hl, copy_bind_part ih hr]
      exact hadd _ _
    | unary ho =>
      dsimp only
      rw [copy_bind_part ih ho]
      exact hadd _ _
    | ifThen hc hx =>
      dsimp only
      rw [copy_bind_part ih hc, copy_bind_part ih hx]
      exact hadd _ _
    | ifElse hc hx hy =>
      dsimp only
      rw [copy_bind_part ih hc, copy_bind_part ih hx, copy_bind_part ih hy]
      exact hadd _ _

/-- The copy of what an index stands for is a listing of its tree. -/
theorem subtree?_of_tree? (h : a.tree? i = some e) : a.subtree? i = some (e.plant {}) := by
  show (a.copy i {}).map Prod.snd = _
  rw [copy_eq h]
  rfl

/-! ## Planted trees are ordered -/

theorem ordered_empty : Ordered {} := by
  rintro i c ⟨node, hnode, -⟩
  simp at hnode

theorem ordered_push {node : Node} (h : a.Ordered) (hnode : ∀ c ∈ node.parts, c < a.size) :
    (a.push node).Ordered := by
  rintro i c ⟨found, hfound, hc⟩
  simp only [push, Array.getElem?_push] at hfound
  split at hfound
  · cases hfound
    subst i
    exact hnode c hc
  · exact h ⟨found, hfound, hc⟩

theorem roots_plantAll_lt (es : List Expr) (a : Arena) :
    ∀ c ∈ (Expr.plantAll es a).2, c < (Expr.plantAll es a).1.size := by
  induction es generalizing a with
  | nil => exact List.forall_mem_nil _
  | cons e es ih =>
    refine List.forall_mem_cons.mpr ⟨?_, ih (e.plant a)⟩
    exact root_plant_lt_of_continues (continues_plantAll es (e.plant a))

mutual

/-- A planted tree stands behind its parts, if everything before it does. -/
theorem ordered_plant : ∀ (e : Expr) {a : Arena}, a.Ordered → (e.plant a).Ordered
  | .literal _, a, h => ordered_push h (List.forall_mem_nil _)
  | .name _, a, h => ordered_push h (List.forall_mem_nil _)
  | .list items, a, h => ordered_push (ordered_plantAll items h) (roots_plantAll_lt items a)
  | .call _ args, a, h => ordered_push (ordered_plantAll args h) (roots_plantAll_lt args a)
  | .binary _ lhs rhs, a, h => by
    refine ordered_push (ordered_plant rhs (ordered_plant lhs h)) ?_
    have hl := root_plant_lt_of_continues (continues_plant rhs (lhs.plant a)).1
    have hr := root_plant_lt rhs (lhs.plant a)
    simp [Node.parts, hl, hr]
  | .unary _ operand, a, h => by
    refine ordered_push (ordered_plant operand h) ?_
    simp [Node.parts, root_plant_lt operand a]
  | .ifThen condition consequent, a, h => by
    refine ordered_push (ordered_plant consequent (ordered_plant condition h)) ?_
    have hc := root_plant_lt_of_continues (continues_plant consequent (condition.plant a)).1
    simp [Node.parts, hc, root_plant_lt consequent]
  | .ifElse condition consequent alternative, a, h => by
    refine ordered_push
      (ordered_plant alternative (ordered_plant consequent (ordered_plant condition h))) ?_
    have hx := (continues_plant alternative (consequent.plant (condition.plant a))).1
    have hc := (continues_plant consequent (condition.plant a)).1.trans hx
    simp [Node.parts, root_plant_lt_of_continues hc, root_plant_lt_of_continues hx,
      root_plant_lt alternative]

theorem ordered_plantAll : ∀ (es : List Expr) {a : Arena}, a.Ordered →
    (Expr.plantAll es a).1.Ordered
  | [], _, h => h
  | e :: es, _, h => ordered_plantAll es (ordered_plant e h)

end

/-! ## How often an index is named -/

mutual

theorem size_plant : ∀ (e : Expr) (a : Arena), (e.plant a).size = a.size + e.size
  | .literal _, a | .name _, a => size_push a _
  | .list items, a => by
    rw [Expr.plant, size_push, size_plantAll, Expr.size, Nat.add_assoc]
  | .call _ args, a => by
    rw [Expr.plant, size_push, size_plantAll, Expr.size, Nat.add_assoc]
  | .binary _ lhs rhs, a => by
    simp only [Expr.plant, size_push, size_plant, Expr.size, Nat.add_assoc]
  | .unary _ operand, a => by
    simp only [Expr.plant, size_push, size_plant, Expr.size, Nat.add_assoc]
  | .ifThen condition consequent, a => by
    simp only [Expr.plant, size_push, size_plant, Expr.size, Nat.add_assoc]
  | .ifElse condition consequent alternative, a => by
    simp only [Expr.plant, size_push, size_plant, Expr.size, Nat.add_assoc]

theorem size_plantAll : ∀ (es : List Expr) (a : Arena),
    (Expr.plantAll es a).1.size = a.size + Expr.sizeAll es
  | [], _ => rfl
  | e :: es, a => by
    rw [Expr.plantAll, size_plantAll es, size_plant e, Expr.sizeAll, Nat.add_assoc]

end

/-- The indices that the nodes name as their parts, node by node. -/
def partsNamed (a : Arena) : List Nat :=
  a.nodes.toList.flatMap Node.parts

theorem partsNamed_push (a : Arena) (node : Node) :
    (a.push node).partsNamed = a.partsNamed ++ node.parts := by
  simp [partsNamed, push]

open List in
/-- A node whose parts are the roots that no node has named yet. -/
theorem perm_push {a b : Arena} {n : Nat} {node : Node} (hsize : b.size = a.size + n)
    (h : b.partsNamed ++ node.parts ~ a.partsNamed ++ List.range' a.size n) :
    (b.push node).partsNamed ++ [(b.push node).root] ~
      a.partsNamed ++ List.range' a.size (n + 1) := by
  rw [partsNamed_push, root_push, hsize, List.range'_concat, Nat.one_mul, ← append_assoc]
  exact h.append_right _

open List in
/-- The roots of some trees and of some more behind them. -/
theorem perm_append {a b c : Arena} {m n : Nat} {roots roots' : List Nat}
    (hsize : b.size = a.size + m)
    (hb : b.partsNamed ++ roots ~ a.partsNamed ++ List.range' a.size m)
    (hc : c.partsNamed ++ roots' ~ b.partsNamed ++ List.range' b.size n) :
    c.partsNamed ++ (roots ++ roots') ~ a.partsNamed ++ List.range' a.size (m + n) := by
  calc c.partsNamed ++ (roots ++ roots')
    _ ~ c.partsNamed ++ (roots' ++ roots) := (perm_append_comm).append_left _
    _ = (c.partsNamed ++ roots') ++ roots := (append_assoc _ _ _).symm
    _ ~ (b.partsNamed ++ List.range' b.size n) ++ roots := hc.append_right _
    _ = b.partsNamed ++ (List.range' b.size n ++ roots) := append_assoc _ _ _
    _ ~ b.partsNamed ++ (roots ++ List.range' b.size n) := (perm_append_comm).append_left _
    _ = (b.partsNamed ++ roots) ++ List.range' b.size n := (append_assoc _ _ _).symm
    _ ~ (a.partsNamed ++ List.range' a.size m) ++ List.range' b.size n := hb.append_right _
    _ = a.partsNamed ++ List.range' a.size (m + n) := by
      rw [append_assoc, hsize, List.range'_append_1]

open List in
mutual

/-- Besides what was named before, planting a tree names each of its nodes once but the root. -/
theorem perm_plant : ∀ (e : Expr) (a : Arena),
    (e.plant a).partsNamed ++ [(e.plant a).root] ~ a.partsNamed ++ List.range' a.size e.size
  | .literal _, a | .name _, a => perm_push (n := 0) rfl (Perm.refl _)
  | .list items, a => perm_push (size_plantAll items a) (perm_plantAll items a)
  | .call _ args, a => perm_push (size_plantAll args a) (perm_plantAll args a)
  | .binary _ lhs rhs, a => by
    refine perm_push ?_ (perm_append (size_plant lhs a) (perm_plant lhs a) (perm_plant rhs _))
    rw [size_plant, size_plant, Nat.add_assoc]
  | .unary _ operand, a => perm_push (size_plant operand a) (perm_plant operand a)
  | .ifThen condition consequent, a => by
    refine perm_push ?_ (perm_append (size_plant condition a) (perm_plant condition a)
      (perm_plant consequent _))
    rw [size_plant, size_plant, Nat.add_assoc]
  | .ifElse condition consequent alternative, a => by
    have hhead := perm_append (size_plant condition a) (perm_plant condition a)
      (perm_plant consequent (condition.plant a))
    refine perm_push ?_ (perm_append ?_ hhead (perm_plant alternative _))
    · rw [size_plant, size_plant, size_plant]
      omega
    · rw [size_plant, size_plant, Nat.add_assoc]

theorem perm_plantAll : ∀ (es : List Expr) (a : Arena),
    (Expr.plantAll es a).1.partsNamed ++ (Expr.plantAll es a).2 ~
      a.partsNamed ++ List.range' a.size (Expr.sizeAll es)
  | [], _ => Perm.refl _
  | e :: es, a => perm_append (size_plant e a) (perm_plant e a) (perm_plantAll es _)

end

/-! ## Listings of one tree -/

open List in
theorem perm_range (e : Expr) :
    (e.plant {}).partsNamed ++ [(e.plant {}).root] ~ List.range (e.plant {}).size := by
  have h := perm_plant e {}
  rw [size_plant, List.range_eq_range']
  simpa [partsNamed, size] using h

/-- The arena lists the nodes of one tree. Every node stands behind its parts, and every node but the
last is a part of exactly one node, where it is named once. The last node is the root, from which
all are reached. -/
structure IsListing (a : Arena) : Prop where
  nonempty : 0 < a.size
  ordered : a.Ordered
  once : ∀ (i : Nat) (node : Node), a.nodes[i]? = some node → node.parts.Nodup
  owned : ∀ c < a.root, ∃! i, a.HasPart i c
  reached : ∀ c < a.size, Relation.ReflTransGen a.HasPart a.root c

theorem HasPart.lt_size (h : a.HasPart i c) : i < a.size := by
  obtain ⟨node, hnode, -⟩ := h
  exact (Array.getElem?_eq_some_iff.mp hnode).1

/-- In an arena that names no index twice, no two nodes share a part. -/
theorem HasPart.unique (hnodup : a.partsNamed.Nodup) {j : Nat} (hi : a.HasPart i c)
    (hj : a.HasPart j c) : i = j := by
  have happart := List.pairwise_iff_getElem.mp (List.nodup_flatMap.mp hnodup).2
  have hlt : ∀ {i j : Nat}, a.HasPart i c → a.HasPart j c → ¬ i < j := by
    rintro i j ⟨node, hnode, hc⟩ ⟨node', hnode', hc'⟩ hij
    obtain ⟨hi, rfl⟩ := Array.getElem?_eq_some_iff.mp hnode
    obtain ⟨hj, rfl⟩ := Array.getElem?_eq_some_iff.mp hnode'
    exact happart i j (by simpa using hi) (by simpa using hj) hij hc hc'
  exact Nat.le_antisymm (Nat.not_lt.mp (hlt hj hi)) (Nat.not_lt.mp (hlt hi hj))

/-- If every node but the last is a part of one behind it, all are reached from the last. -/
theorem Ordered.reached (h : a.Ordered) (howned : ∀ c < a.root, ∃ i, a.HasPart i c) :
    ∀ c < a.size, Relation.ReflTransGen a.HasPart a.root c := by
  intro c hc
  induction hn : a.size - c using Nat.strongRecOn generalizing c with
  | ind n ih =>
    by_cases hroot : c = a.root
    · rw [hroot]
    · have hlt : c < a.root := by
        unfold root at hroot ⊢
        omega
      obtain ⟨i, hi⟩ := howned c hlt
      have hci : c < i := h hi
      exact (ih (a.size - i) (by omega) i hi.lt_size rfl).tail hi

/-- A tree that is planted in an empty arena is listed there. -/
theorem isListing_plant (e : Expr) : (e.plant {}).IsListing := by
  have hperm := perm_range e
  have hordered := ordered_plant e ordered_empty
  have hpos : 0 < (e.plant {}).size := Nat.zero_lt_of_lt (root_plant_lt e {})
  generalize e.plant {} = a at *
  have hnodup : a.partsNamed.Nodup := (hperm.nodup_iff.mpr List.nodup_range).of_append_left
  have hparent : ∀ c < a.root, ∃ i, a.HasPart i c := by
    intro c hc
    have hrange : c ∈ a.partsNamed ++ [a.root] :=
      hperm.mem_iff.mpr (List.mem_range.mpr (Nat.lt_of_lt_of_le hc (Nat.sub_le _ _)))
    have hmem : c ∈ a.partsNamed := by
      rcases List.mem_append.mp hrange with h | h
      · exact h
      · exact absurd (List.mem_singleton.mp h) (Nat.ne_of_lt hc)
    obtain ⟨node, hnode, hpart⟩ := List.mem_flatMap.mp hmem
    obtain ⟨i, hi⟩ := List.mem_iff_getElem?.mp hnode
    rw [Array.getElem?_toList] at hi
    exact ⟨i, node, hi, hpart⟩
  refine ⟨hpos, hordered, fun i node hnode => ?_, fun c hc => ?_, hordered.reached hparent⟩
  · refine (List.nodup_flatMap.mp hnodup).1 node ?_
    rw [← Array.getElem?_toList] at hnode
    exact List.mem_of_getElem? hnode
  · obtain ⟨i, hi⟩ := hparent c hc
    exact ⟨i, hi, fun j hj => HasPart.unique hnodup hj hi⟩

end Arena

end DiceTome
