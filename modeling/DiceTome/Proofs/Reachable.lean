import DiceTome.Dice.Scripted
import DiceTome.Proofs.LexicalScope
import DiceTome.Proofs.Tomes

/-!
# Reachable contexts

The contexts that evaluations, opening and closing scopes and setting variables lead to.

* `Context.Reachable.scopes_form_tree`: their scopes form a tree, which no evaluation changes.
* `World.lexical_scope`: what an evaluation does depends on the scopes that are seen from its own,
  and changes no others. What a call does depends on the scopes that are seen where its function is
  bound.
-/

namespace DiceTome

open Step World
open Token (isName)

/-! ## Keeping contexts tidy -/

/-- Evaluation keeps a context tidy, and the tree of its scopes. -/
theorem Context.upkeep_tidy : Upkeep Expr.Named fun a c => c.Tidy ∧ SameTree a c where
  value := by
    intro a c ⟨htidy, hsame⟩ j _ n hn v
    exact ⟨htidy.bind_value j hn v, hsame.trans (htidy.sameTree_bind j hn nofun)⟩
  function := by
    intro a c ⟨htidy, hsame⟩ j _ f hscope hhead hbody
    have hparameters : ∀ parameter ∈ f.parameters, isName parameter = true := fun parameter hmem =>
      Expr.allItems_iff.mp hhead.2 (.name parameter) (List.mem_map.mpr ⟨parameter, hmem, rfl⟩)
    exact ⟨htidy.bind_function hhead.1 ⟨rfl, hscope, hparameters, hbody⟩,
      hsame.trans (htidy.sameTree_bind j hhead.1 nofun)⟩
  defined := by
    intro a c ⟨htidy, _⟩ j t ht n f hmem
    obtain ⟨-, -, -, hparameters, hbody⟩ := (htidy.scope j t ht).tidy n _ hmem
    exact ⟨hparameters, hbody⟩
  opened := by
    intro a c ⟨htidy, _⟩ j hj name
    exact ⟨htidy.opened hj name, SameTree.refl _⟩
  closed := by
    intro a b c ⟨htidy, hsame⟩ j hj name ⟨hb, hopened⟩
    have hend := endsWith_opened hj name
    have hback := hopened.dropInnermost hend
    rw [htidy.dropInnermost_opened hj] at hback
    exact ⟨hb.dropInnermost (hopened.endsWith hend), hsame.trans hback⟩

namespace Context

variable {c : Context}

/-- All scopes of a tidy context. -/
theorem Tidy.selfContained_all (h : c.Tidy) : c.SelfContained { i | i < c.scopes.size } := by
  refine ⟨fun _ hi => hi, fun i hi t ht index hparent => ?_, fun i _ t ht n f hmem => ?_⟩
  · by_cases hzero : i = 0
    · subst hzero
      obtain ⟨root, hroot, hnone⟩ := h.tree.root
      rw [ht] at hroot
      cases hroot
      rw [hnone] at hparent
      cases hparent
    · obtain ⟨p, hlt, hp⟩ := h.tree.parent i t ht hzero
      rw [hparent] at hp
      exact ⟨p, Nat.lt_trans hlt hi, Option.some.inj hp⟩
  · exact ((h.scope i t ht).tidy n _ hmem).2.scope_eq

/-- The scopes on the chain of a scope. -/
theorem Tidy.selfContained_chain (h : c.Tidy) {s : Nat} (hs : s < c.scopes.size) :
    c.SelfContained { i | c.OnChain s i } := by
  refine ⟨fun i hi => Nat.lt_of_le_of_lt (h.tree.onChain_le hi) hs,
    fun i hi t ht index hparent => ?_, fun i hi t ht n f hmem => ?_⟩
  · have hlt : i < c.scopes.size := (Array.getElem?_eq_some_iff.mp ht).1
    obtain ⟨p, -, rfl⟩ := h.selfContained_all.parent i hlt t ht index hparent
    exact ⟨p, Relation.ReflTransGen.tail hi ⟨t, ht, hparent⟩, rfl⟩
  · exact h.selfContained_all.function i (Array.getElem?_eq_some_iff.mp ht).1 t ht n f hmem

end Context

namespace World

variable {σ : Type}

/-- A world is its own twin. -/
theorem Twins.self {S : Context → Context → Prop} {K : Set Nat} {w : World σ}
    (hK : w.context.SelfContained K) (hS : S w.context w.context) : Twins S K w w w w where
  contained := hK
  size_eq := rfl
  agree _ _ := rfl
  frame₁ := Context.Frame.refl _ _
  frame₂ := Context.Frame.refl _ _
  kept₁ := hS
  kept₂ := hS
  dice := rfl
  declared := rfl
  output := ⟨"", by simp, by simp⟩

theorem twins_of_tidy {w : World σ} (h : w.context.Tidy) :
    Twins (fun a c => c.Tidy ∧ a.SameTree c) { i | i < w.context.scopes.size } w w w w :=
  Twins.self h.selfContained_all ⟨h, Context.SameTree.refl w.context⟩

theorem tidy_setVariable {w : World σ} (h : w.context.Tidy) {s : Nat}
    (hs : s < w.context.scopes.size) {n : String} (hn : isName n = true) (v : Value) :
    ((setVariable (s : Index) n v).run w).2.context.Tidy := by
  have hmem : s ∈ { i | i < w.context.scopes.size } := hs
  exact (couples_setVariable Context.upkeep_tidy hmem hn v w w (twins_of_tidy h)).2.kept₁.1

/-- Closing a scope does nothing unless it is the last one. -/
theorem tidy_popScope {w : World σ} (h : w.context.Tidy) (index : Index) :
    ((popScope index).run w).2.context.Tidy := by
  by_cases hroot : index = Context.root
  · have hrun : popScope index w = (.error .rootScopePopped, w) := by
      simp only [popScope, if_pos hroot]
      rfl
    rw [ExceptT.run, hrun]
    exact h
  by_cases hlast : index + 1 = w.context.scopes.size
  · obtain ⟨s, hs, -⟩ := h.tree.root
    have hpos : 0 < w.context.scopes.size := (Array.getElem?_eq_some_iff.mp hs).1
    obtain ⟨k, hsize⟩ : ∃ k, w.context.scopes.size = k + 1 := ⟨w.context.scopes.size - 1, by omega⟩
    have hk : k ≠ 0 := by
      rintro rfl
      rw [hsize] at hlast
      have hzero : index = 0 := by simpa using hlast
      exact hroot hzero
    obtain ⟨j, name, hend⟩ := h.tree.endsWith hsize hk
    have hrun : popScope index w = (.ok (), w.closed name) := by
      simp only [popScope, if_neg hroot, run_bind, run_get, if_neg (not_not.mpr hlast),
        run_closeInnermost hend]
    rw [ExceptT.run, hrun]
    exact h.dropInnermost hend
  · have hrun : popScope index w = (.error (.notInnermost index), w) := by
      simp only [popScope, if_neg hroot, run_bind, run_get, if_pos hlast]
      rfl
    rw [ExceptT.run, hrun]
    exact h

variable [DiceSource σ]

theorem tidy_evalArena {w : World σ} (h : w.context.Tidy) {a : Arena}
    (ha : ∀ e, a.expr? = some e → e.All Expr.Named) {s : Nat} (hs : s < w.context.scopes.size) :
    ((evalArena a (s : Index)).run w).2.context.Tidy ∧
      Context.SameTree w.context ((evalArena a (s : Index)).run w).2.context := by
  have hmem : s ∈ { i | i < w.context.scopes.size } := hs
  exact (couples_evalArena Context.upkeep_tidy hmem ha w w (twins_of_tidy h)).2.kept₁

end World

/-! ## Names in a text -/

theorem Expr.named_of_parse {source : String} {tokens : List Token} {a : Arena}
    (hscan : Token.scan source = .ok tokens) (hparse : Arena.parse tokens = .ok a) :
    ∀ e, a.expr? = some e → e.All Expr.Named := by
  intro e he
  refine (parsed_of_scan hscan hparse e he).imp fun part hpart => ?_
  cases part with
  | name n | call n _ => exact hpart.1
  | _ => trivial

/-! ## Reachable contexts -/

namespace Context

/-- What evaluations of expressions whose names are identifiers, opening scopes in existing ones,
closing the last scope and setting variables make of an empty context. -/
inductive Reachable : Context → Prop
  | start : Reachable {}
  | eval {σ : Type} [DiceSource σ] {w : World σ} (h : Reachable w.context) {a : Arena}
    (ha : ∀ e, a.expr? = some e → e.All Expr.Named) {s : Nat} (hs : s < w.context.scopes.size) :
    Reachable ((World.evalArena a (s : Index)).run w).2.context
  | push {σ : Type} {w : World σ} (h : Reachable w.context) {parent : Nat}
    (hparent : parent < w.context.scopes.size) (name : String) :
    Reachable ((World.pushScope (parent : Index) name).run w).2.context
  | pop {σ : Type} {w : World σ} (h : Reachable w.context) (index : Index) :
    Reachable ((World.popScope index).run w).2.context
  | set {σ : Type} {w : World σ} (h : Reachable w.context) {s : Nat}
    (hs : s < w.context.scopes.size) {n : String} (hn : isName n = true) (v : Value) :
    Reachable ((World.setVariable (s : Index) n v).run w).2.context

theorem Reachable.tidy {c : Context} (h : Reachable c) : c.Tidy := by
  induction h with
  | start => exact tidy_empty
  | eval _ ha hs ih => exact (World.tidy_evalArena ih ha hs).1
  | push _ hparent name ih =>
    rw [ExceptT.run, World.run_pushScope hparent]
    exact ih.opened hparent name
  | pop _ index ih => exact World.tidy_popScope ih index
  | set _ hs hn v ih => exact World.tidy_setVariable ih hs hn v

/-- A text that is evaluated leads to a reachable context. -/
theorem Reachable.evalSource [DiceSource σ] {w : World σ} (h : Reachable w.context)
    (source : String) {s : Nat} (hs : s < w.context.scopes.size) :
    Reachable ((World.evalSource source (s : Index)).run w).2.context := by
  rcases World.context_evalSource source (s : Index) w with heq | ⟨tokens, a, hscan, hparse, heq⟩
  · rw [heq]
    exact h
  · rw [heq]
    exact h.eval (Expr.named_of_parse hscan hparse) hs

end Context

/-! ## What is seen from a scope -/

namespace Context

/-- The contexts agree on the chain of a scope. -/
def AgreeAlong (s : Nat) (c₁ c₂ : Context) : Prop :=
  ∀ i, c₁.OnChain s i → c₁.scopes[i]? = c₂.scopes[i]?

theorem AgreeAlong.onChain_iff {s i : Nat} {c₁ c₂ : Context} (h : AgreeAlong s c₁ c₂) :
    c₂.OnChain s i ↔ c₁.OnChain s i := by
  constructor
  · intro hi
    induction hi with
    | refl => exact Relation.ReflTransGen.refl
    | tail _ hlies ih =>
      obtain ⟨t, ht, hparent⟩ := hlies
      exact ih.tail ⟨t, (h _ ih).trans ht, hparent⟩
  · intro hi
    induction hi with
    | refl => exact Relation.ReflTransGen.refl
    | tail hj hlies ih =>
      obtain ⟨t, ht, hparent⟩ := hlies
      exact ih.tail ⟨t, (h _ hj).symm.trans ht, hparent⟩

theorem Frame.onChain {K : Set Nat} {c c' : Context} (h : Frame K c c') {s i : Nat}
    (hi : c'.OnChain s i) : c.OnChain s i := by
  induction hi with
  | refl => exact Relation.ReflTransGen.refl
  | @tail j p _ hlies ih =>
    obtain ⟨t', ht', hparent'⟩ := hlies
    have hlt : j < c.scopes.size := by
      rw [← h.size_eq]
      exact (Array.getElem?_eq_some_iff.mp ht').1
    have ht := Array.getElem?_eq_getElem hlt
    obtain ⟨u, hu, hparent, -⟩ := h.place j _ ht
    rw [ht'] at hu
    cases hu
    exact ih.tail ⟨_, ht, hparent.symm.trans hparent'⟩

end Context

namespace World

variable {σ : Type}

/-- Two runs from worlds that agree on the chain of a scope do the same: they give the same result,
write the same and draw the same dice, they leave worlds behind that agree again, and no scope is
changed that is not on the chain. -/
structure RunsAlike (s : Nat) (w₁ w₂ : World σ) (r₁ r₂ : Except EvalError α × World σ) : Prop where
  result : r₁.1 = r₂.1
  output : ∃ text, r₁.2.output = w₁.output ++ text ∧ r₂.2.output = w₂.output ++ text
  dice : r₁.2.dice = r₂.2.dice
  declared : r₁.2.declared = r₂.2.declared
  agree : Context.AgreeAlong s r₁.2.context r₂.2.context
  unseen₁ : ∀ i < w₁.context.scopes.size, ¬ w₁.context.OnChain s i →
    r₁.2.context.scopes[i]? = w₁.context.scopes[i]?
  unseen₂ : ∀ i < w₂.context.scopes.size, ¬ w₂.context.OnChain s i →
    r₂.2.context.scopes[i]? = w₂.context.scopes[i]?

/-- Nothing has to be kept of a context but what twins share. -/
theorem upkeep_any : Context.Upkeep (fun _ => True) fun _ _ => True where
  value _ _ _ _ _ _ := trivial
  function _ _ _ _ _ _ _ := trivial
  defined _ _ _ _ _ f _ := ⟨fun _ _ => trivial, Expr.All.of_forall (fun _ => trivial) f.body⟩
  opened _ _ _ _ := trivial
  closed _ _ _ _ _ := trivial

/-- Steps that are alike in twins are alike in worlds that agree on the chain of a scope. -/
theorem runsAlike_of_couples {w₁ w₂ : World σ} {s : Nat}
    (h : w₁.context.Tidy) (hs : s < w₁.context.scopes.size)
    (hsize : w₂.context.scopes.size = w₁.context.scopes.size) (hdice : w₁.dice = w₂.dice)
    (hdeclared : w₁.declared = w₂.declared) (hagree : Context.AgreeAlong s w₁.context w₂.context)
    {x y : Run σ α} (hxy : Couples
      (Twins (fun _ _ => True) { i | w₁.context.OnChain s i } w₁ w₂) x y) :
    RunsAlike s w₁ w₂ (x.run w₁) (y.run w₂) := by
  have hstart : Twins (fun _ _ => True) { i | w₁.context.OnChain s i } w₁ w₂ w₁ w₂ :=
    { contained := h.selfContained_chain hs
      size_eq := hsize
      agree := hagree
      frame₁ := Context.Frame.refl _ _
      frame₂ := Context.Frame.refl _ _
      kept₁ := trivial
      kept₂ := trivial
      dice := hdice
      declared := hdeclared
      output := ⟨"", by simp, by simp⟩ }
  obtain ⟨hresult, htwins⟩ := hxy w₁ w₂ hstart
  refine ⟨hresult, htwins.output, htwins.dice, htwins.declared, ?_, ?_, ?_⟩
  · exact fun i hi => htwins.agree i (htwins.frame₁.onChain hi)
  · exact fun i _ hi => htwins.frame₁.outside i hi
  · exact fun i _ hi => htwins.frame₂.outside i fun hmem => hi (hagree.onChain_iff.mpr hmem)

variable [DiceSource σ]

theorem run_call_of_function {w : World σ} {scope : Index} {name : String} {f : Function}
    (hf : w.context.function? scope name = .ok (some f)) (args : List Value) :
    (call scope name args).run w =
      (f.invoke (fun f child => evalWithin (levelsLeft w - 1) child f.body) name args).run w := by
  simp only [call, callFunction_eq, ExceptT.run, run_bind, run_get, run_ask, hf]

/-- An evaluation in a scope depends on the chain of the scope and changes nothing else. A call
depends on the chain of the scope that its function is bound in, wherever it is made, and changes
nothing else. It is enough that one of the contexts is reachable, since the other one agrees with
it on the chain. -/
theorem lexical_scope {w₁ w₂ : World σ} (h : w₁.context.Reachable)
    (hsize : w₂.context.scopes.size = w₁.context.scopes.size) (hdice : w₁.dice = w₂.dice)
    (hdeclared : w₁.declared = w₂.declared) :
    (∀ s < w₁.context.scopes.size, Context.AgreeAlong s w₁.context w₂.context → ∀ a : Arena,
      RunsAlike s w₁ w₂ ((evalArena a (s : Index)).run w₁) ((evalArena a (s : Index)).run w₂)) ∧
    ∀ (s₁ s₂ : Nat) name f (j : Nat), s₁ < w₁.context.scopes.size →
      w₁.context.function? (s₁ : Index) name = .ok (some f) →
      w₂.context.function? (s₂ : Index) name = .ok (some f) → f.scope = (j : Index) →
      Context.AgreeAlong j w₁.context w₂.context → ∀ args,
      RunsAlike j w₁ w₂ ((call (s₁ : Index) name args).run w₁)
        ((call (s₂ : Index) name args).run w₂) := by
  refine ⟨fun s hs hagree a => ?_, ?_⟩
  · refine runsAlike_of_couples h.tidy hs hsize hdice hdeclared hagree ?_
    exact couples_evalArena upkeep_any Relation.ReflTransGen.refl
      fun e _ => Expr.All.of_forall (fun _ => trivial) e
  · intro s₁ s₂ name f j hs₁ hf₁ hf₂ hscope hagree args
    obtain ⟨j', hj', hscope', -⟩ := h.tidy.selfContained_all.function? hs₁ hf₁
    have heq : j = j' := Int.ofNat_inj.mp (hscope.symm.trans hscope')
    have hlevels : levelsLeft w₂ = levelsLeft w₁ := by simp only [levelsLeft, hsize]
    rw [run_call_of_function hf₁, run_call_of_function hf₂, hlevels]
    refine runsAlike_of_couples h.tidy (heq ▸ hj') hsize hdice hdeclared hagree ?_
    refine couples_invoke upkeep_any (fun _ _ _ _ _ hchild hbody => ?_)
      Relation.ReflTransGen.refl hscope (fun _ _ => trivial)
      (Expr.All.of_forall (fun _ => trivial) f.body) name args
    exact couples_evalWithin upkeep_any _ hchild hbody

/-- A world in which `x` has a value in a scope below the root. -/
def hiddenVariable (v : Value) : World ScriptedDice :=
  ((setVariable ((1 : Nat) : Index) "x" v).run
    ((pushScope ((0 : Nat) : Index) "f").run { dice := {} }).2).2

theorem reachable_hiddenVariable (v : Value) : (hiddenVariable v).context.Reachable :=
  .set (.push .start (by decide) "f") (by decide) (by decide) v

/-- Apart from the scope below the root, the value is not found in the world. -/
theorem hiddenVariable_outside (v : Value) :
    (hiddenVariable v).context.scopes.size = 2 ∧
      (hiddenVariable v).context.scopes[0]? =
        ((pushScope ((0 : Nat) : Index) "f").run
          ({ dice := {} } : World ScriptedDice)).2.context.scopes[0]? ∧
      (hiddenVariable v).dice = {} ∧ (hiddenVariable v).declared = 0 :=
  ⟨rfl, rfl, rfl, rfl⟩

/-- From the root such a variable is not seen. -/
theorem lexical_scope_hiddenVariable :
    RunsAlike 0 (hiddenVariable (.natural 1)) (hiddenVariable (.natural 2))
      ((evalArena ((Expr.name "x").plant {}) ((0 : Nat) : Index)).run (hiddenVariable (.natural 1)))
      ((evalArena ((Expr.name "x").plant {}) ((0 : Nat) : Index)).run
        (hiddenVariable (.natural 2))) := by
  obtain ⟨hsize₁, hroot₁, hdice₁, hdeclared₁⟩ := hiddenVariable_outside (.natural 1)
  obtain ⟨hsize₂, hroot₂, hdice₂, hdeclared₂⟩ := hiddenVariable_outside (.natural 2)
  have htree := (reachable_hiddenVariable (.natural 1)).tidy.tree
  have hagree : Context.AgreeAlong 0 (hiddenVariable (.natural 1)).context
      (hiddenVariable (.natural 2)).context := by
    intro i hi
    obtain rfl : i = 0 := Nat.le_zero.mp (htree.onChain_le hi)
    rw [hroot₁, hroot₂]
  have hlt : 0 < (hiddenVariable (.natural 1)).context.scopes.size := by omega
  exact (lexical_scope (reachable_hiddenVariable _) (hsize₂.trans hsize₁.symm)
    (hdice₁.trans hdice₂.symm) (hdeclared₁.trans hdeclared₂.symm)).1 0 hlt hagree _

end World

end DiceTome
