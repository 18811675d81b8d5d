import DiceTome.Proofs.Reload
import DiceTome.Proofs.SimilarDice

/-!
# Declarations are counted from anywhere

Functions are numbered in the order of their declarations, and the count goes on from one context to
the next. Nothing but the order of the numbers is ever looked at: an evaluation that starts with
another count does the same, and declares its functions under numbers that are as far apart.

* `Context.later` is a context whose functions were declared later, all by the same number of
  declarations.
* `World.Delayed` relates worlds with such contexts; `World.couples_evalArena_delayed` says that
  evaluation keeps them related.
* `World.evalTome_agree`: what a tome makes of an empty context depends on the dice alone.
-/

namespace DiceTome

open Step World

/-! ## Contexts with later declarations -/

/-- The function, declared `k` declarations later. -/
def Function.later (k : Nat) (f : Function) : Function :=
  { f with declaration := f.declaration + k }

def Binding.later (k : Nat) : Binding → Binding
  | .function f => .function (f.later k)
  | b => b

def Scope.later (k : Nat) (s : Scope) : Scope :=
  { s with bindings := s.bindings.map fun p => (p.1, p.2.later k) }

/-- The same context with every function declared `k` declarations later. -/
def Context.later (k : Nat) (c : Context) : Context :=
  ⟨c.scopes.map (Scope.later k)⟩

namespace Scope

variable (k : Nat) (s : Scope)

theorem find?_later (name : String) :
    (s.later k).find? name = (s.find? name).map (Binding.later k) := by
  simp only [find?, later]
  induction s.bindings with
  | nil => rfl
  | cons p bindings ih =>
    rw [List.map_cons, List.lookup_cons, List.lookup_cons, ih]
    split <;> rfl

theorem insert_later (name : String) (b : Binding) :
    (s.insert name b).later k = (s.later k).insert name (b.later k) := by
  simp only [insert, later, Scope.mk.injEq, true_and]
  induction s.bindings with
  | nil => rfl
  | cons p bindings ih =>
    simp only [insertInto, List.map_cons]
    split
    · rfl
    · rw [List.map_cons, ih]

theorem erase_later (name : String) : (s.erase name).later k = (s.later k).erase name := by
  simp only [erase, later, List.filter_map]
  rfl

theorem values_later : (s.later k).values = s.values := by
  simp only [values, later, List.filterMap_map]
  congr 1
  funext p
  obtain ⟨n, b⟩ := p
  cases b <;> rfl

/-- The functions stay in their order. -/
theorem functions_later : (s.later k).functions = s.functions.map (Function.later k) := by
  have hage (f g : Function) : decide (f.declaration ≤ g.declaration) =
      decide ((f.later k).declaration ≤ (g.later k).declaration) := by
    simp [Function.later]
  simp only [functions]
  rw [List.map_mergeSort (s := fun f g => decide (f.declaration ≤ g.declaration))
    fun f _ g _ => hage f g]
  congr 1
  simp only [later, List.filterMap_map, List.map_filterMap]
  congr 1
  funext p
  obtain ⟨n, b⟩ := p
  cases b <;> rfl

end Scope

namespace Context

variable (k : Nat) (c : Context)

theorem later_empty : Context.later k {} = {} := by
  simp [later, Scope.later]

theorem size_later : (c.later k).scopes.size = c.scopes.size :=
  Array.size_map

theorem scope?_later (index : Index) :
    (c.later k).scope? index = (c.scope? index).map (Scope.later k) := by
  simp only [scope?, size_later]
  cases Index.position? c.scopes.size index with
  | none => rfl
  | some i => simp [later]

theorem modifyScope_later {change : Scope → Scope}
    {change' : Scope → Scope} (h : ∀ s : Scope, (change s).later k = change' (s.later k))
    (index : Index) :
    (c.modifyScope index change).later k = (c.later k).modifyScope index change' := by
  simp only [modifyScope, size_later]
  cases Index.position? c.scopes.size index with
  | none => rfl
  | some i =>
    simp only [later, Context.mk.injEq]
    apply Array.ext_getElem?
    intro j
    simp only [Array.getElem?_map, Array.getElem?_modify]
    split
    · cases c.scopes[j]? <;> simp [h]
    · rfl

theorem bind_later (index : Index) (name : String) (b : Binding) :
    (c.bind index name b).later k = (c.later k).bind index name (b.later k) :=
  modifyScope_later k c (fun s => s.insert_later k name b) index

theorem lookupWithin_later (name : String) (steps : Nat) (scope : Index) :
    (c.later k).lookupWithin name steps scope =
      (c.lookupWithin name steps scope).map (Option.map fun p => (p.1, p.2.later k)) := by
  induction steps generalizing scope with
  | zero => rfl
  | succ steps ih =>
    simp only [lookupWithin, scope?_later]
    cases c.scope? scope with
    | none => rfl
    | some s =>
      simp only [Option.map_some, Scope.find?_later]
      have hparent : (s.later k).parent = s.parent := rfl
      rw [hparent]
      cases s.find? name with
      | some b => rfl
      | none =>
        cases s.parent with
        | none => rfl
        | some parent => exact ih parent

theorem lookup_later (scope : Index) (name : String) :
    (c.later k).lookup scope name =
      (c.lookup scope name).map (Option.map fun p => (p.1, p.2.later k)) := by
  rw [lookup, lookup, size_later, lookupWithin_later]

theorem value?_later (scope : Index) (name : String) :
    (c.later k).value? scope name = c.value? scope name := by
  simp only [value?, lookup_later]
  cases c.lookup scope name with
  | error e => rfl
  | ok found =>
    rcases found with _ | ⟨owner, b⟩
    · rfl
    · cases b <;> rfl

theorem function?_later (scope : Index) (name : String) :
    (c.later k).function? scope name =
      (c.function? scope name).map (Option.map (Function.later k)) := by
  simp only [function?, lookup_later]
  cases c.lookup scope name with
  | error e => rfl
  | ok found =>
    rcases found with _ | ⟨owner, b⟩
    · rfl
    · cases b <;> rfl

theorem isCallable_later (scope : Index) (name : String) :
    (c.later k).isCallable scope name = c.isCallable scope name := by
  simp only [isCallable, function?_later]
  cases c.function? scope name with
  | error e => rfl
  | ok found => cases found <;> rfl

theorem back?_later : (c.later k).scopes.back? = c.scopes.back?.map (Scope.later k) := by
  simp [Array.back?, later]

theorem dropInnermost_later : dropInnermost (c.later k) = (dropInnermost c).later k := by
  simp only [dropInnermost, back?_later]
  cases c.scopes.back? with
  | none => rfl
  | some s =>
    have hrest : (⟨(c.later k).scopes.pop⟩ : Context) = later k ⟨c.scopes.pop⟩ := by
      simp [later, Array.map_pop]
    have hsize : (c.later k).scopes.pop.size = c.scopes.pop.size := by
      rw [Array.size_pop, Array.size_pop, size_later]
    simp only [Option.map_some, Scope.later, hsize, hrest]
    cases s.parent with
    | none => rfl
    | some parent => exact (modifyScope_later k _ (fun s => s.erase_later k _) parent).symm

theorem innermostIsStray_later : innermostIsStray (c.later k) = innermostIsStray c := by
  simp only [innermostIsStray, back?_later, size_later]
  cases c.scopes.back? <;> rfl

end Context

/-! ## Worlds with later declarations -/

/-- The worlds have the same dice, and contexts that differ in when the functions were declared: in
the second one, by `k` declarations later. -/
structure World.Delayed {σ : Type} (k : Nat) (w w' : World σ) : Prop where
  context : w'.context = w.context.later k
  declared : w'.declared = w.declared + k
  dice : w'.dice = w.dice

namespace World

variable {σ : Type} {k : Nat}

theorem couples_ask_delayed {question : Context → Except EvalError α}
    (h : ∀ c : Context, question (c.later k) = question c) :
    Couples (@Delayed σ k) (ask question) (ask question) :=
  couples_ask fun a b hab => by rw [hab.context, h]

theorem couples_onDice_delayed (x : Step σ α) : Couples (Delayed k) (onDice x) (onDice x) := by
  intro a b hab
  simp only [onDice, Step.within]
  rw [hab.dice]
  exact ⟨rfl, hab.context, hab.declared, rfl⟩

theorem couples_record_delayed (e e' : Event) :
    Couples (@Delayed σ k) (record e) (record e') :=
  couples_modify fun _ _ h => ⟨h.context, h.declared, h.dice⟩

theorem couples_printLine_delayed (line : String) :
    Couples (@Delayed σ k) (printLine line) (printLine line) :=
  couples_modify fun _ _ h => ⟨h.context, h.declared, h.dice⟩

theorem couples_bind_delayed (scope : Index) (name : String) (b : Binding) :
    Couples (@Delayed σ k) (bind scope name b) (bind scope name (b.later k)) :=
  couples_modify fun a _ h =>
    ⟨h.context ▸ (a.context.bind_later k scope name b).symm, h.declared, h.dice⟩

theorem couples_setVariable_delayed (scope : Index) (n : String) (v : Value) :
    Couples (@Delayed σ k) (setVariable scope n v) (setVariable scope n v) := by
  intro a b hab
  have hanswer := a.context.lookup_later k scope n
  rw [← hab.context] at hanswer
  have hrun (w : World σ) : setVariable scope n v w =
      match w.context.lookup scope n with
      | .error e => (.error e, w)
      | .ok found => bind ((found.map Prod.fst).getD scope) n (.value v) w := by
    rw [setVariable, run_bind, run_ask]
    rcases w.context.lookup scope n with e | _ | p <;> rfl
  rw [hrun, hrun, hanswer]
  cases a.context.lookup scope n with
  | error e => exact ⟨rfl, hab⟩
  | ok found =>
    cases found with
    | none => exact couples_bind_delayed scope n (.value v) a b hab
    | some p => exact couples_bind_delayed p.1 n (.value v) a b hab

theorem run_scope_bind (scope : Index) (x : Run σ α) (w : World σ) :
    (ask (·.scope scope) >>= fun _ => x) w =
      match w.context.scope? scope with
      | none => (.error .noSuchScope, w)
      | some _ => x w := by
  rw [run_bind, run_ask, Context.scope]
  cases w.context.scope? scope <;> rfl

/-- Whether there is a scope does not depend on when functions were declared. -/
theorem couples_scope_delayed (scope : Index) {x y : Run σ α} (h : Couples (Delayed k) x y) :
    Couples (@Delayed σ k) (ask (·.scope scope) >>= fun _ => x)
      (ask (·.scope scope) >>= fun _ => y) := by
  intro a b hab
  have hfound := a.context.scope?_later k scope
  rw [← hab.context] at hfound
  rw [run_scope_bind, run_scope_bind, hfound]
  cases a.context.scope? scope with
  | none => exact ⟨rfl, hab⟩
  | some s => exact h a b hab

theorem couples_defineFunction_delayed (scope : Index) (callee : String) (body : Expr)
    (names : List String) :
    Couples (@Delayed σ k) (defineFunction scope callee body names)
      (defineFunction scope callee body names) := by
  refine couples_get_bind fun a b hab => ?_
  have hnumber : b.declared + 1 = a.declared + 1 + k := by
    rw [hab.declared, Nat.add_right_comm]
  rw [hnumber]
  refine (couples_modify fun _ _ h => ⟨h.context, rfl, h.dice⟩).bind fun _ => ?_
  refine couples_scope_delayed scope ?_
  exact (couples_bind_delayed scope callee (.function _)).bind fun _ => couples_record_delayed _ _

theorem couples_pushScope_delayed (parent : Index) (name : String) :
    Couples (@Delayed σ k) (pushScope parent name) (pushScope parent name) := by
  refine couples_get_bind fun a b hab => ?_
  have hpush : Couples (Delayed k) (modify fun w => { w with
      context.scopes := w.context.scopes.push { parent := some parent, name } } : Run σ Unit)
      (modify fun w => { w with
        context.scopes := w.context.scopes.push { parent := some parent, name } }) :=
    couples_modify fun a b h =>
      ⟨by simp [h.context, Context.later, Scope.later], h.declared, h.dice⟩
  rw [hab.context, Context.size_later]
  refine hpush.bind fun _ => couples_scope_delayed parent ?_
  refine (couples_bind_delayed parent _ (.child _)).bind fun _ => ?_
  exact (couples_record_delayed _ _).bind fun _ => couples_pure _

theorem couples_closeInnermost_delayed :
    Couples (Delayed k) (closeInnermost : Run σ Unit) closeInnermost := by
  have hdrop : Couples (Delayed k)
      (modify fun w => { w with context := dropInnermost w.context } : Run σ Unit)
      (modify fun w => { w with context := dropInnermost w.context }) :=
    couples_modify fun a b h =>
      ⟨by rw [h.context, Context.dropInnermost_later], h.declared, h.dice⟩
  refine couples_get_bind fun a b hab => hdrop.bind fun _ => ?_
  rw [hab.context, Context.innermostIsStray_later, Context.back?_later]
  by_cases hstray : innermostIsStray a.context = true
  · simp only [if_pos hstray]
    exact couples_throw_bind _
  · simp only [if_neg hstray]
    cases a.context.scopes.back? with
    | none => exact couples_pure _
    | some s => exact couples_record_delayed _ _

theorem openAlike_delayed : OpenAlike (@Delayed σ k) where
  size_eq _ _ h := by rw [h.context, Context.size_later]
  record _ := couples_record_delayed _ _
  bind scope n v := couples_bind_delayed scope n (.value v)
  push := couples_pushScope_delayed
  close := couples_closeInnermost_delayed

variable [DiceSource σ]

theorem couples_callBuiltin_delayed (name : String) (args : List Value) :
    Couples (@Delayed σ k) (callBuiltin name args) (callBuiltin name args) :=
  couples_callBuiltin_of (couples_onDice_delayed _) couples_printLine_delayed

theorem alike_callFunction_delayed {enter : Function → Nat → Run σ Outcome}
    (henter : ∀ f child, Couples (Delayed k) (enter f child) (enter (f.later k) child))
    (scope : Index) :
    Expr.Alike (Delayed k) (fun _ => True) (callFunction enter) (callFunction enter) scope where
  value n := couples_ask_delayed fun c => c.value?_later k scope n
  callable n := couples_ask_delayed fun c => c.isCallable_later k scope n
  call name args := by
    intro a b hab
    have hanswer := a.context.function?_later k scope name
    rw [← hab.context] at hanswer
    rw [callFunction_eq, run_bind, run_bind, run_ask, run_ask, hanswer]
    rcases a.context.function? scope name with e | _ | f
    · exact ⟨rfl, hab⟩
    · exact couples_callBuiltin_delayed name args a b hab
    · have hparameters : (f.later k).parameters = f.parameters := rfl
      have hscope : (f.later k).scope = f.scope := rfl
      exact openAlike_delayed.invoke hparameters hscope (henter f) name args a b hab
  assign n v _ := couples_setVariable_delayed scope n v
  define callee names body _ _ := couples_defineFunction_delayed scope callee body names
  unary _ _ := couples_onDice_delayed _
  binary _ _ _ := couples_onDice_delayed _
  test _ := couples_onDice_delayed _

theorem couples_evalWithin_delayed (level : Nat) (scope : Index) (e : Expr) :
    Couples (@Delayed σ k) (evalWithin level scope e) (evalWithin level scope e) := by
  have he : ∀ e : Expr, e.All fun _ => True := Expr.All.of_forall fun _ => trivial
  induction level generalizing scope e with
  | zero =>
    rw [evalWithin]
    exact Expr.couples_evalWith
      (alike_callFunction_delayed (fun f _ => couples_throw (.callDepth f.name)) scope) (he e)
  | succ level ih =>
    rw [evalWithin]
    exact Expr.couples_evalWith
      (alike_callFunction_delayed (fun f child => ih child f.body) scope) (he e)

/-- Evaluation does the same if functions were declared later. -/
theorem couples_evalArena_delayed (a : Arena) (scope : Index) :
    Couples (@Delayed σ k) (evalArena a scope) (evalArena a scope) :=
  couples_evalArena_of openAlike_delayed.size_eq fun e _ level =>
    couples_evalWithin_delayed level scope e

theorem couples_evalStatements_delayed (as : List Arena) :
    Couples (@Delayed σ k) (evalStatements as) (evalStatements as) := by
  induction as with
  | nil => exact couples_pure _
  | cons a as ih =>
    exact (couples_evalArena_delayed a _).bind fun _ => ih.bind fun _ => couples_pure _

theorem evalTome_of_ok {text : String} {as : List Arena} (h : parseTome text = .ok as)
    (w : World σ) : (evalTome text).run w =
      match evalStatements as w with
      | (.ok os, w) => (.ok os, { w with journal := w.journal.push (.evaluated os.length) })
      | (.error e, w) => (.error (.eval e), w) := by
  have hparsed : (ExceptT.mk (pure (.ok as)) : Act σ (List Arena)) w = (.ok as, w) := rfl
  simp only [evalTome, h, ExceptT.run, run_bind, Run.act, hparsed]
  cases evalStatements as w with
  | mk result w' => cases result <;> rfl

/-- So does the evaluation of a tome. -/
theorem evalTome_delayed (text : String) {w w' : World σ} (h : Delayed k w w') :
    ((evalTome text).run w).1 = ((evalTome text).run w').1 ∧
      Delayed k ((evalTome text).run w).2 ((evalTome text).run w').2 := by
  cases hparse : parseTome text with
  | error e =>
    rw [evalTome_of_error hparse, evalTome_of_error hparse]
    exact ⟨rfl, h⟩
  | ok as =>
    obtain ⟨hresult, hworlds⟩ := couples_evalStatements_delayed as w w' h
    rw [evalTome_of_ok hparse, evalTome_of_ok hparse]
    cases hleft : evalStatements as w with
    | mk result v =>
      cases hright : evalStatements as w' with
      | mk result' v' =>
        rw [hleft, hright] at hresult hworlds
        dsimp only at hresult hworlds
        subst hresult
        cases result with
        | error e => exact ⟨rfl, hworlds⟩
        | ok os => exact ⟨rfl, hworlds.context, hworlds.declared, hworlds.dice⟩

end World

/-! ## Definitions -/

/-- The root scopes have the same functions in the same order, and the same variables in the same
order with the same values. -/
structure Context.Agrees (c c' : Context) : Prop where
  functions : c.rootScope.functions.map Function.signature =
    c'.rootScope.functions.map Function.signature
  values : c.rootScope.values = c'.rootScope.values

theorem Context.agrees_later (k : Nat) (c : Context) : (c.later k).Agrees c := by
  have hroot : (c.later k).rootScope = c.rootScope.later k := by
    simp only [rootScope, later, Array.getElem?_map]
    cases c.scopes[0]? <;> rfl
  refine ⟨?_, ?_⟩
  · rw [hroot, Scope.functions_later, List.map_map]
    rfl
  · rw [hroot, Scope.values_later]

theorem Context.Agrees.symm {c c' : Context} (h : c.Agrees c') : c'.Agrees c :=
  ⟨h.functions.symm, h.values.symm⟩

namespace World

variable {σ : Type} [DiceSource σ]

/-- What a tome makes of an empty context depends on the dice alone. -/
theorem evalTome_agree (text : String) {w w' : World σ} (hw : w.context = {})
    (hw' : w'.context = {}) (hdice : w.dice = w'.dice) :
    ((evalTome text).run w).1 = ((evalTome text).run w').1 ∧
      ((evalTome text).run w).2.dice = ((evalTome text).run w').2.dice ∧
      ((evalTome text).run w).2.context.Agrees ((evalTome text).run w').2.context := by
  rcases Nat.le_total w.declared w'.declared with hle | hle
  · obtain ⟨k, hk⟩ := Nat.exists_eq_add_of_le hle
    have hempty : w'.context = w.context.later k := by
      rw [hw, hw', Context.later_empty]
    obtain ⟨hresult, hworlds⟩ := evalTome_delayed text ⟨hempty, hk, hdice.symm⟩
    rw [hworlds.context, hworlds.dice]
    exact ⟨hresult, rfl, (Context.agrees_later _ _).symm⟩
  · obtain ⟨k, hk⟩ := Nat.exists_eq_add_of_le hle
    have hempty : w.context = w'.context.later k := by
      rw [hw, hw', Context.later_empty]
    obtain ⟨hresult, hworlds⟩ := evalTome_delayed text ⟨hempty, hk, hdice⟩
    rw [hworlds.context, hworlds.dice]
    exact ⟨hresult.symm, rfl, Context.agrees_later _ _⟩

end World

end DiceTome
