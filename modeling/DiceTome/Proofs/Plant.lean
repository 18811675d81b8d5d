import DiceTome.Arena

/-!
# Planting trees in arenas

`Expr.plant` appends a tree to an arena, the parts of a node before the node, so that the root of
the tree comes last. An arena made of one tree is a listing of that tree: reading it back gives the
tree (`Arena.expr?_plant`), so a tree and its listing determine each other.
-/

namespace DiceTome

namespace Expr

mutual

/-- Appends the nodes of a tree to an arena. -/
def plant : Expr → Arena → Arena
  | literal l, a => a.push (.literal l)
  | name n, a => a.push (.name n)
  | list items, a => (plantAll items a).1.push (.list (plantAll items a).2)
  | call callee args, a => (plantAll args a).1.push (.call callee (plantAll args a).2)
  | binary op lhs rhs, a =>
    let b := lhs.plant a
    let c := rhs.plant b
    c.push (.binary op b.root c.root)
  | unary op operand, a =>
    let b := operand.plant a
    b.push (.unary op b.root)
  | ifThen condition consequent, a =>
    let b := condition.plant a
    let c := consequent.plant b
    c.push (.conditional b.root c.root none)
  | ifElse condition consequent alternative, a =>
    let b := condition.plant a
    let c := consequent.plant b
    let d := alternative.plant c
    d.push (.conditional b.root c.root (some d.root))

/-- Appends the nodes of some trees to an arena, and gives the indices of their roots. -/
def plantAll : List Expr → Arena → Arena × List Nat
  | [], a => (a, [])
  | e :: es, a =>
    let b := e.plant a
    ((plantAll es b).1, b.root :: (plantAll es b).2)

end

end Expr

namespace Arena

@[simp]
theorem size_push (a : Arena) (node : Node) : (a.push node).size = a.size + 1 := by
  simp [size, push]

@[simp]
theorem root_push (a : Arena) (node : Node) : (a.push node).root = a.size := by
  simp [root]

/-! ## Arenas that go on -/

/-- The second arena starts with the nodes of the first. -/
def Continues (a b : Arena) : Prop :=
  a.size ≤ b.size ∧ ∀ i < a.size, b.nodes[i]? = a.nodes[i]?

theorem Continues.refl (a : Arena) : Continues a a :=
  ⟨Nat.le_refl _, fun _ _ => rfl⟩

theorem Continues.trans {a b c : Arena} (hab : Continues a b) (hbc : Continues b c) :
    Continues a c :=
  ⟨Nat.le_trans hab.1 hbc.1, fun i hi =>
    (hbc.2 i (Nat.lt_of_lt_of_le hi hab.1)).trans (hab.2 i hi)⟩

theorem continues_push (a : Arena) (node : Node) : Continues a (a.push node) := by
  refine ⟨by simp, fun i hi => ?_⟩
  simp only [size] at hi
  simp [push, Array.getElem?_push, Nat.ne_of_lt hi]

mutual

theorem continues_plant : ∀ (e : Expr) (a : Arena), Continues a (e.plant a) ∧ a.size < (e.plant a).size
  | .literal l, a => ⟨continues_push a _, by simp [Expr.plant]⟩
  | .name n, a => ⟨continues_push a _, by simp [Expr.plant]⟩
  | .list items, a => by
    have h := continues_plantAll items a
    exact ⟨h.trans (continues_push _ _), by simpa [Expr.plant] using Nat.lt_succ_of_le h.1⟩
  | .call callee args, a => by
    have h := continues_plantAll args a
    exact ⟨h.trans (continues_push _ _), by simpa [Expr.plant] using Nat.lt_succ_of_le h.1⟩
  | .binary op lhs rhs, a => by
    have hl := continues_plant lhs a
    have hr := continues_plant rhs (lhs.plant a)
    refine ⟨(hl.1.trans hr.1).trans (continues_push _ _), ?_⟩
    simp only [Expr.plant, size_push]
    omega
  | .unary op operand, a => by
    have h := continues_plant operand a
    refine ⟨h.1.trans (continues_push _ _), ?_⟩
    simp only [Expr.plant, size_push]
    omega
  | .ifThen condition consequent, a => by
    have hc := continues_plant condition a
    have hx := continues_plant consequent (condition.plant a)
    refine ⟨(hc.1.trans hx.1).trans (continues_push _ _), ?_⟩
    simp only [Expr.plant, size_push]
    omega
  | .ifElse condition consequent alternative, a => by
    have hc := continues_plant condition a
    have hx := continues_plant consequent (condition.plant a)
    have he := continues_plant alternative (consequent.plant (condition.plant a))
    refine ⟨((hc.1.trans hx.1).trans he.1).trans (continues_push _ _), ?_⟩
    simp only [Expr.plant, size_push]
    omega

theorem continues_plantAll : ∀ (es : List Expr) (a : Arena), Continues a (Expr.plantAll es a).1
  | [], a => Continues.refl a
  | e :: es, a => (continues_plant e a).1.trans (continues_plantAll es (e.plant a))

end

/-! ## Reading a planted tree -/

/-- The expression at an index depends on the nodes up to it only. -/
theorem tree?_congr {a b : Arena} {i : Nat} (h : ∀ j ≤ i, b.nodes[j]? = a.nodes[j]?) :
    b.tree? i = a.tree? i := by
  induction i using Nat.strongRecOn with
  | ind i ih =>
    have part : ∀ c, c < i → b.tree? c = a.tree? c :=
      fun c hc => ih c hc fun j hj => h j (by omega)
    rw [tree?, tree?, h i (Nat.le_refl i)]
    simp +contextual only [part]

theorem Continues.tree? {a b : Arena} (h : Continues a b) {i : Nat} (hi : i < a.size) :
    b.tree? i = a.tree? i :=
  tree?_congr fun j hj => h.2 j (Nat.lt_of_le_of_lt hj hi)

theorem getElem?_push_size (a : Arena) (node : Node) : (a.push node).nodes[a.size]? = some node := by
  simp [push, size]

theorem root_plant_lt (e : Expr) (a : Arena) : (e.plant a).root < (e.plant a).size := by
  have := (continues_plant e a).2
  simp only [root]
  omega

/-- The root of a planted tree comes before everything that is appended later. -/
theorem root_plant_lt_of_continues {e : Expr} {a b : Arena} (h : Continues (e.plant a) b) :
    (e.plant a).root < b.size :=
  Nat.lt_of_lt_of_le (root_plant_lt e a) h.1

mutual

/-- A planted tree is read at its root, whatever is appended later. -/
theorem tree?_plant : ∀ (e : Expr) (a : Arena) {b : Arena}, Continues (e.plant a) b →
    b.tree? (e.plant a).root = some e
  | .literal l, a, b, hb => by
    rw [hb.tree? (root_plant_lt _ a), tree?]
    simp [Expr.plant, getElem?_push_size]
  | .name n, a, b, hb => by
    rw [hb.tree? (root_plant_lt _ a), tree?]
    simp [Expr.plant, getElem?_push_size]
  | .list items, a, b, hb => by
    rw [hb.tree? (root_plant_lt _ a), Expr.plant, root_push, tree?, getElem?_push_size]
    simp only [mapM_tree?_plantAll items a (continues_push _ _) (Nat.le_refl _)]
    rfl
  | .call callee args, a, b, hb => by
    rw [hb.tree? (root_plant_lt _ a), Expr.plant, root_push, tree?, getElem?_push_size]
    simp only [mapM_tree?_plantAll args a (continues_push _ _) (Nat.le_refl _)]
    rfl
  | .binary op lhs rhs, a, b, hb => by
    have hr := continues_push (rhs.plant (lhs.plant a))
      (.binary op (lhs.plant a).root (rhs.plant (lhs.plant a)).root)
    have hl := (continues_plant rhs (lhs.plant a)).1
    rw [hb.tree? (root_plant_lt _ a), tree?]
    simp [Expr.plant, getElem?_push_size, root_plant_lt, root_plant_lt_of_continues hl,
      tree?_plant lhs a (hl.trans hr), tree?_plant rhs _ hr]
  | .unary op operand, a, b, hb => by
    have ho := continues_push (operand.plant a) (.unary op (operand.plant a).root)
    rw [hb.tree? (root_plant_lt _ a), tree?]
    simp [Expr.plant, getElem?_push_size, root_plant_lt, tree?_plant operand a ho]
  | .ifThen condition consequent, a, b, hb => by
    have hx := continues_push (consequent.plant (condition.plant a))
      (.conditional (condition.plant a).root (consequent.plant (condition.plant a)).root none)
    have hc := (continues_plant consequent (condition.plant a)).1
    rw [hb.tree? (root_plant_lt _ a), tree?]
    simp [Expr.plant, getElem?_push_size, root_plant_lt, root_plant_lt_of_continues hc,
      tree?_plant condition a (hc.trans hx), tree?_plant consequent _ hx]
  | .ifElse condition consequent alternative, a, b, hb => by
    have he := continues_push (alternative.plant (consequent.plant (condition.plant a)))
      (.conditional (condition.plant a).root (consequent.plant (condition.plant a)).root
        (some (alternative.plant (consequent.plant (condition.plant a))).root))
    have hx := (continues_plant alternative (consequent.plant (condition.plant a))).1
    have hc := (continues_plant consequent (condition.plant a)).1.trans hx
    rw [hb.tree? (root_plant_lt _ a), tree?]
    simp [Expr.plant, getElem?_push_size, root_plant_lt, root_plant_lt_of_continues hx,
      root_plant_lt_of_continues hc, tree?_plant condition a (hc.trans he),
      tree?_plant consequent _ (hx.trans he), tree?_plant alternative _ he]

/-- Planted trees are read at their roots, all of which come before what is appended later. -/
theorem mapM_tree?_plantAll : ∀ (es : List Expr) (a : Arena) {b : Arena} {n : Nat},
    Continues (Expr.plantAll es a).1 b → (Expr.plantAll es a).1.size ≤ n →
    ((Expr.plantAll es a).2.mapM fun c => if _h : c < n then b.tree? c else none) = some es
  | [], a, b, n, hb, hn => rfl
  | e :: es, a, b, n, hb, hn => by
    have he := continues_plantAll es (e.plant a)
    have hlt := Nat.lt_of_lt_of_le (root_plant_lt_of_continues he) hn
    have hrest := mapM_tree?_plantAll es (e.plant a) hb hn
    simp only [Expr.plantAll, List.mapM_cons, hlt, dite_true, tree?_plant e a (he.trans hb)]
    rw [hrest]
    rfl

end

/-- An arena that lists one tree reads back as that tree. -/
theorem expr?_plant (e : Expr) (a : Arena) : (e.plant a).expr? = some e :=
  tree?_plant e a (Continues.refl _)

end Arena

end DiceTome
