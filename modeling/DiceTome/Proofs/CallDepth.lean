import DiceTome.Proofs.Listings
import DiceTome.Proofs.OpenScopes

/-!
# Why evaluation ends

Functions may call themselves and each other without end, so it is not the expression that makes an
evaluation end. Two things decrease: inside an expression the index of the node, since every node
comes after its parts, and from a call to the body of its function the number of calls that may
still be nested, since every scope that is opened stays open until the body has been evaluated.

* `Arena.evalAt` walks an arena by the indices of its nodes and ends for this reason. It asks for two
  answers that are never needed: one for a node that does not come before the node it is a part of,
  and one for a body that is reached when no more calls may be nested or too many scopes are open.
* `World.evalArena_ends`: it gives what evaluation gives, whatever those two answers are.
-/

namespace DiceTome

open Step World

variable {σ : Type} [DiceSource σ]

/-! ## Evaluation by index -/

/-- Evaluates a node. Its parts are evaluated by `part`, which may be asked for any index, and
`tree` is the expression at an index; where there is none the evaluation is stuck. -/
def Node.evalWith (stuck : Run σ Outcome) (part : Nat → Run σ Outcome) (tree : Nat → Option Expr)
    (call : CallRule σ) (scope : Index) : Node → Run σ Outcome
  | .literal l => return { value := l.value }
  | .name n => Expr.evalName call scope n
  | .list items => do
    let parts ← items.mapM part
    return .gather (.list (parts.map Outcome.value)) parts
  | .call callee args => do
    let parts ← args.mapM part
    let result ← call scope callee (parts.map Outcome.value)
    return .gather result.value (parts ++ [result])
  | .binary .assign lhs rhs => do
    match tree lhs, tree rhs with
    | some (.name n), some _ =>
      let result ← part rhs
      World.setVariable scope n result.value
      return result
    | some (.call callee args), some body =>
      let parameters ← Step.ofExcept (Expr.parameterNames callee args)
      World.defineFunction scope callee body parameters
      return {}
    | some target, some _ => throw (.invalidTarget target.render)
    | _, _ => stuck
  | .binary .discard lhs rhs => do
    let left ← part lhs
    let right ← part rhs
    return .gather right.value [left, right]
  | .binary op lhs rhs => do
    let left ← part lhs
    let right ← part rhs
    World.onDice (Step.alone (.pair left right) (Outcome.binary op))
  | .unary op operand => do
    let part ← part operand
    World.onDice (Step.alone part (Outcome.unary op))
  | .conditional condition consequent none => do
    let test ← part condition
    let (holds, test) ← World.onDice (test.through Outcome.asBool)
    if holds then
      let branch ← part consequent
      return .gather branch.value [test, branch]
    else
      return .gather .empty [test]
  | .conditional condition consequent (some alternative) => do
    let test ← part condition
    let (holds, test) ← World.onDice (test.through Outcome.asBool)
    let branch ← if holds then part consequent else part alternative
    return .gather branch.value [test, branch]

namespace Arena

/-- Evaluates the node at an index of an arena. From a node to its parts the index decreases, and
from a call to the body of its function the depth. Where the depth is used up or more than `cap`
scopes are open, `bottom` stands for the body. -/
def evalAt (cap : Nat) (stuck : Run σ Outcome) (bottom : Function → Nat → Run σ Outcome)
    (depth : Nat) (scope : Index) (a : Arena) (i : Nat) : Run σ Outcome :=
  match a.nodes[i]? with
  | none => stuck
  | some node =>
    node.evalWith stuck
      (fun c => if _h : c < i then evalAt cap stuck bottom depth scope a c else stuck)
      a.tree?
      (callFunction fun f child =>
        match depth with
        | 0 => bottom f child
        | depth + 1 => do
          if cap < (← get).context.scopes.size then bottom f child
          else evalAt cap stuck bottom depth child (f.body.plant {}) (f.body.plant {}).root)
      scope
termination_by (depth, i)

/-- How the body of a function is evaluated when calls may be nested to the given depth. -/
def enterAt (cap : Nat) (stuck : Run σ Outcome) (bottom : Function → Nat → Run σ Outcome) :
    Nat → Function → Nat → Run σ Outcome
  | 0 => bottom
  | depth + 1 => fun f child => do
    if cap < (← get).context.scopes.size then bottom f child
    else evalAt cap stuck bottom depth child (f.body.plant {}) (f.body.plant {}).root

variable {cap : Nat} {stuck : Run σ Outcome} {bottom : Function → Nat → Run σ Outcome} {depth : Nat}

theorem evalAt_of_node {a : Arena} {i : Nat} {node : Node} (h : a.nodes[i]? = some node)
    (scope : Index) :
    evalAt cap stuck bottom depth scope a i =
      node.evalWith stuck
        (fun c => if c < i then evalAt cap stuck bottom depth scope a c else stuck) a.tree?
        (callFunction (enterAt cap stuck bottom depth)) scope := by
  rw [evalAt, h]
  cases depth <;> simp only [dite_eq_ite] <;> rfl

section

variable {part : Nat → Run σ Outcome} {tree partTree : Nat → Option Expr} {call : CallRule σ}
  {scope : Index}

/-- Parts that are evaluated one by one. -/
theorem mapM_eq_evalAll (hpart : ∀ c e, partTree c = some e → part c = e.evalWith call scope)
    {items : List Nat} {es : List Expr} (h : items.mapM partTree = some es) :
    items.mapM part = Expr.evalAll call scope es := by
  induction items generalizing es with
  | nil =>
    obtain rfl : [] = es := Option.some.inj h
    rw [List.mapM_nil, Expr.evalAll]
  | cons c items ih =>
    obtain ⟨e, es, he, hes, rfl⟩ := mapM_cons_eq_some h
    rw [List.mapM_cons, hpart c e he, ih hes]
    simp only [Expr.evalAll]

/-- A node is evaluated as the expression that it stands for. -/
theorem evalWith_of_nodeTree (hpart : ∀ c e, partTree c = some e → part c = e.evalWith call scope)
    (htree : ∀ c e, partTree c = some e → tree c = some e) {node : Node} {e : Expr}
    (h : NodeTree partTree node e) :
    node.evalWith stuck part tree call scope = e.evalWith call scope := by
  cases h with
  | literal l =>
    simp only [Expr.evalWith]
    rfl
  | name n =>
    simp only [Expr.evalWith]
    rfl
  | list hes => simp only [Expr.evalWith, Node.evalWith, mapM_eq_evalAll hpart hes]
  | call hes => simp only [Expr.evalWith, Node.evalWith, mapM_eq_evalAll hpart hes]
  | @binary op lhs rhs l r hl hr =>
    by_cases hassign : op = .assign
    · subst hassign
      simp only [Node.evalWith, htree lhs l hl, htree rhs r hr, hpart rhs r hr]
      cases l with
      | name n => simp only [Expr.evalWith]
      | call callee args => simp only [Expr.evalWith]
      | _ => simp only [Expr.evalWith]
    by_cases hdiscard : op = .discard
    · subst hdiscard
      simp only [Expr.evalWith, Node.evalWith, hpart lhs l hl, hpart rhs r hr]
    · rw [Expr.evalWith, Node.evalWith]
      · simp only [hpart lhs l hl, hpart rhs r hr]
      all_goals simp [hassign, hdiscard]
  | unary ho => simp only [Expr.evalWith, Node.evalWith, hpart _ _ ho]
  | ifThen hc hx => simp only [Expr.evalWith, Node.evalWith, hpart _ _ hc, hpart _ _ hx]
  | ifElse hc hx hy =>
    simp only [Expr.evalWith, Node.evalWith, hpart _ _ hc, hpart _ _ hx, hpart _ _ hy]

end

/-- A node that has an expression is evaluated as that expression. -/
theorem evalAt_eq {a : Arena} {i : Nat} {e : Expr} (h : a.tree? i = some e) (scope : Index) :
    evalAt cap stuck bottom depth scope a i =
      e.evalWith (callFunction (enterAt cap stuck bottom depth)) scope := by
  induction i using Nat.strongRecOn generalizing e with
  | ind i ih =>
    obtain ⟨node, hnode, htree⟩ := exists_node_of_tree? h
    rw [evalAt_of_node hnode]
    refine evalWith_of_nodeTree (fun c e hc => ?_) (fun c e hc => ?_) htree
    · obtain ⟨hlt, hc⟩ := partTree?_eq_some_iff.mp hc
      rw [if_pos hlt]
      exact ih c hlt hc
    · exact (partTree?_eq_some_iff.mp hc).2

end Arena

/-! ## Levels that are never used up -/

namespace World

variable {cap : Nat} {K : Set Nat} {a : World σ}

/-- Calls do the same if bodies do that are evaluated with one more scope open. They are only needed
while calls may be nested. -/
theorem couples_calls (hcap : maxCallDepth < cap) {enter enter' : Function → Nat → Run σ Outcome}
    (henter : EntersSteadily cap enter)
    (hsame : a.context.scopes.size ≤ maxCallDepth → ∀ (K : Set Nat) (o : World σ) (f : Function)
      (child : Nat), o.context.scopes.size = a.context.scopes.size + 1 → child ∈ K →
      Couples (fun w w' => w = w' ∧ Steady cap K o w) (enter f child) (enter' f child))
    {s : Nat} (hs : s ∈ K) (name : String) (args : List Value) :
    Couples (fun w w' => w = w' ∧ Steady cap K a w) (callFunction enter (s : Index) name args)
      (callFunction enter' (s : Index) name args) := by
  rintro w _ ⟨rfl, hw⟩
  have hkept := (guards_callFunction hcap henter hs name args w hw).1
  suffices heq : callFunction enter (s : Index) name args w =
      callFunction enter' (s : Index) name args w by
    rw [← heq]
    exact ⟨rfl, rfl, hkept⟩
  obtain ⟨found, hfound⟩ := Context.exists_function? hw.contained hw.ordered_now hs name
  rw [callFunction_eq, callFunction_eq, run_bind, run_bind, run_ask, hfound]
  cases found with
  | none => rfl
  | some f =>
    obtain ⟨j, hj, hscope, -⟩ := hw.contained.function? hs hfound
    dsimp only
    by_cases hrefused : args.length ≠ f.parameters.length ∨ maxCallDepth < w.context.scopes.size
    · rw [Function.run_invoke_refused enter hrefused, Function.run_invoke_refused enter' hrefused]
    · obtain ⟨hargs, hdepth⟩ := not_or.mp hrefused
      have hdepth : w.context.scopes.size ≤ maxCallDepth := Nat.not_lt.mp hdepth
      have hlt := hw.contained.lt j hj
      rw [Function.run_invoke hscope hlt (Decidable.not_not.mp hargs) hdepth,
        Function.run_invoke hscope hlt (Decidable.not_not.mp hargs) hdepth]
      have hcalled := hw.record (e := .called name args) rfl
      have hopened := hcalled.opened hj (Nat.lt_of_le_of_lt hdepth hcap) name
      have hbind := guards_bindArguments (Set.mem_insert _ K) f.parameters args _ hopened
      -- the bodies are entered in the same world, with the arguments bound
      have hbody : ∀ o, Steady cap (insert w.context.scopes.size K) (World.opened
            { w with journal := w.journal.push (.called name args) } j name) o →
          enter f w.context.scopes.size o = enter' f w.context.scopes.size o := by
        intro o ho
        have hsize := hw.size_eq
        obtain ⟨hresult, hworld, -⟩ := hsame (hsize ▸ hdepth) _ _ f _
          (by simp only [World.opened, Context.size_opened, hsize]) (Set.mem_insert _ K) o o ⟨rfl, ho⟩
        exact Prod.ext hresult hworld
      rw [run_andThen, run_andThen, run_bind, run_bind]
      cases hrun : (bindArguments w.context.scopes.size f.parameters args : Run σ Unit)
          (World.opened { w with journal := w.journal.push (.called name args) } j name) with
      | mk result o =>
        rw [hrun] at hbind
        cases result with
        | error err => rfl
        | ok _ =>
          dsimp only
          rw [hbody o hbind.1]

theorem alike_calls (hcap : maxCallDepth < cap) {enter enter' : Function → Nat → Run σ Outcome}
    (henter : EntersSteadily cap enter)
    (hsame : a.context.scopes.size ≤ maxCallDepth → ∀ (K : Set Nat) (o : World σ) (f : Function)
      (child : Nat), o.context.scopes.size = a.context.scopes.size + 1 → child ∈ K →
      Couples (fun w w' => w = w' ∧ Steady cap K o w) (enter f child) (enter' f child))
    {s : Nat} (hs : s ∈ K) :
    Expr.Alike (fun w w' => w = w' ∧ Steady cap K a w) (fun _ => True) (callFunction enter)
      (callFunction enter') (s : Index) :=
  have hguarded := guarded_callFunction hcap henter hs
  have hdice : ∀ {α : Type} {step : Step σ α}, Spares step →
      Guards (Steady cap K a) (onDice step) := fun h => guards_onDice hguarded.dice h
  { value := fun n => Guards.couples_self (hguarded.value n)
    callable := fun n => Guards.couples_self (hguarded.callable n)
    call := couples_calls hcap henter hsame hs
    assign := fun n v _ => Guards.couples_self (hguarded.assign n v)
    define := fun callee names body _ _ => Guards.couples_self (hguarded.define callee body names)
    unary := fun op o => Guards.couples_self (hdice ((Outcome.spares_unary op).alone o))
    binary := fun op l r => Guards.couples_self (hdice ((Outcome.spares_binary op).alone (.pair l r)))
    test := fun o => Guards.couples_self (hdice (Outcome.spares_through Outcome.spares_asBool o)) }

/-- Evaluations with enough levels do the same, whatever stands below the last one. -/
theorem couples_evalAt (hcap : maxCallDepth < cap) (stuck : Run σ Outcome)
    (bottom : Function → Nat → Run σ Outcome) {level depth : Nat} (hlevel : levelsLeft a ≤ level)
    (hdepth : levelsLeft a ≤ depth) {s : Nat} (hs : s ∈ K) {tree : Arena} {i : Nat} {e : Expr}
    (htree : tree.tree? i = some e) :
    Couples (fun w w' => w = w' ∧ Steady cap K a w) (evalWithin level (s : Index) e)
      (tree.evalAt cap stuck bottom depth (s : Index) i) := by
  have hall : ∀ e : Expr, e.All fun _ => True := Expr.All.of_forall fun _ => trivial
  unfold levelsLeft at hlevel hdepth
  induction level generalizing K a depth s tree i e with
  | zero =>
    rw [Arena.evalAt_eq htree]
    refine Expr.couples_evalWith (alike_calls hcap (fun _ _ _ _ _ => guards_throw rfl) ?_ hs)
      (hall e)
    intro hsize
    omega
  | succ level ih =>
    rw [Arena.evalAt_eq htree]
    refine Expr.couples_evalWith (alike_calls hcap
      (fun _ _ f _ hchild => guards_evalWithin hcap level hchild f.body) ?_ hs) (hall e)
    intro hsize K o f child ho hchild
    cases depth with
    | zero => omega
    | succ depth =>
      rintro w _ ⟨rfl, hw⟩
      -- the scope that has been opened for the body is within the bound
      have hopen : ¬ cap < w.context.scopes.size := by
        rw [hw.size_eq, ho]
        omega
      have henter : Arena.enterAt cap stuck bottom (depth + 1) f child w =
          (f.body.plant {}).evalAt cap stuck bottom depth child (f.body.plant {}).root w := by
        simp only [Arena.enterAt, run_bind, run_get, if_neg hopen]
      rw [henter]
      exact ih (by omega) (by omega) hchild (Arena.expr?_plant f.body {}) w w ⟨rfl, hw⟩

/-- Evaluation ends. Walking the arena by index, with the number of nested calls and the index of the
node decreasing, gives what evaluation gives: it never comes to a node that does not come before the
node it is a part of, nor to a call below the levels that were left at the start, nor to a body with
more scopes open than there were at the start or than calls may open. No chain of scopes is too long
to be followed. By the journal scopes are opened and closed one by one within the same bound. -/
theorem evalArena_ends {w : World σ} (h : w.context.Reachable) {tokens : List Token} {tree : Arena}
    (hparse : Arena.parse tokens = .ok tree) {s : Nat} (hs : s < w.context.scopes.size) :
    (∀ (stuck : Run σ Outcome) (bottom : Function → Nat → Run σ Outcome) (depth : Nat),
      levelsLeft w ≤ depth →
      tree.evalAt (max w.context.scopes.size (maxCallDepth + 1)) stuck bottom depth (s : Index)
        tree.root w = evalArena tree (s : Index) w) ∧
    Proper (evalArena tree (s : Index) w).1 ∧
    (evalArena tree (s : Index) w).2.context.scopes.size = w.context.scopes.size ∧
    ∃ events, (evalArena tree (s : Index) w).2.journal.toList = w.journal.toList ++ events ∧
      Event.Path (max w.context.scopes.size (maxCallDepth + 1)) w.context.scopes.size events
        w.context.scopes.size := by
  have hmem : s ∈ { i | i < w.context.scopes.size } := hs
  obtain ⟨hcap, hstart⟩ := steady_of_tidy h.tidy
  obtain ⟨hsteady, hproper⟩ := steady_evalArena h.tidy hs tree
  refine ⟨fun stuck bottom depth hdepth => ?_, hproper, hsteady.size_eq, ?_⟩
  · obtain ⟨e, -, rfl⟩ := Arena.parse_ok_iff.mp hparse
    have he := Arena.expr?_plant e {}
    obtain ⟨hresult, hworld, -⟩ :=
      couples_evalAt hcap stuck bottom (Nat.le_refl _) hdepth hmem he w w ⟨rfl, hstart⟩
    rw [evalArena, he]
    exact (Prod.ext hresult hworld).symm
  · obtain ⟨events, hevents, hpath⟩ := hsteady.path
    rw [hsteady.size_eq] at hpath
    exact ⟨events, hevents, hpath⟩

/-- A function that calls itself without end is called within 101 scopes. -/
theorem evalArena_ends_selfCall :
    let definition : Arena :=
      (Expr.binary .assign (.call "f" [.name "x"]) (.call "f" [.name "x"])).plant {}
    let call : Arena := (Expr.call "f" [.literal (.natural 1)]).plant {}
    let w : World ScriptedDice := ((evalArena definition ((0 : Nat) : Index)).run { dice := {} }).2
    ∃ events, (evalArena call ((0 : Nat) : Index) w).2.journal.toList = w.journal.toList ++ events ∧
      Event.Path 101 1 events 1 := by
  intro definition call w
  have hnamed : ∀ e, definition.expr? = some e → e.All Expr.Named := by
    intro e he
    rw [Arena.expr?_plant, Option.some.injEq] at he
    subst he
    simp only [Expr.All, Expr.AllItems, Expr.Named]
    decide
  have hreachable : w.context.Reachable := .eval .start hnamed (by decide)
  have hsize : w.context.scopes.size = 1 :=
    (tidy_evalArena (s := 0) Context.tidy_empty hnamed (by decide)).2.size_eq
  have hparse : Arena.parse ([.identifier "f", .delimiter .parenOpen, .natural 1,
      .delimiter .parenClose].map fun kind => ⟨kind, "", ⟨{}, {}, none⟩⟩) = .ok call := rfl
  obtain ⟨events, hevents, hpath⟩ :=
    (evalArena_ends hreachable hparse (s := 0) (by rw [hsize]; decide)).2.2.2
  rw [hsize] at hpath
  exact ⟨events, hevents, hpath⟩

end World

end DiceTome
