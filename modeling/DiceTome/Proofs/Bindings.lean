import DiceTome.Proofs.SoundValues
import DiceTome.Proofs.Walks

/-!
# What names are bound to

Whatever is bound in a scope comes from the expressions that are evaluated: names and the bodies of
functions are parts of them, and values are made of their literals. Hence a property of the parts of
expressions carries over to everything that is bound.

* `Context.Lawful p`: names and functions are made of parts with the property `p`, values are sound,
  and no name is bound twice in a scope.
* `World.keeps_eval`: evaluation keeps this, also if it fails.
-/

namespace DiceTome

open Step

/-! ## Lawful contexts -/

/-- A function whose definition is made of parts with the property `p`. -/
structure Function.Lawful (p : Expr → Prop) (n : String) (f : Function) : Prop where
  name_eq : f.name = n
  head : (Expr.call n (f.parameters.map .name)).All p
  body : f.body.All p

/-- A binding of the name `n` that is made of parts with the property `p`. -/
def Binding.Lawful (p : Expr → Prop) (n : String) : Binding → Prop
  | .value v => p (.name n) ∧ v.Sound
  | .function f => f.Lawful p n
  | .child _ => True

/-- A scope that binds no name twice, and every name lawfully. -/
structure Scope.Lawful (p : Expr → Prop) (s : Scope) : Prop where
  nodup : s.keys.Nodup
  lawful : ∀ n b, (n, b) ∈ s.bindings → b.Lawful p n

/-- Every scope is lawful. -/
def Context.Lawful (p : Expr → Prop) (c : Context) : Prop :=
  ∀ (i : Nat) s, c.scopes[i]? = some s → s.Lawful p

namespace Scope

variable {p : Expr → Prop}

theorem lawful_of_bindings {s : Scope} (h : s.bindings = []) : s.Lawful p :=
  ⟨by simp [keys, h], by simp [h]⟩

theorem mem_insertInto {name n : String} {b b' : Binding} {bindings : List (String × Binding)}
    (h : (n, b') ∈ insertInto name b bindings) : (n = name ∧ b' = b) ∨ (n, b') ∈ bindings := by
  induction bindings with
  | nil => simpa [insertInto] using h
  | cons first rest ih =>
    simp only [insertInto] at h
    split at h
    · rcases List.mem_cons.mp h with heq | hrest
      · cases heq
        exact .inl ⟨‹_›, rfl⟩
      · exact .inr (List.mem_cons_of_mem _ hrest)
    · rcases List.mem_cons.mp h with heq | hrest
      · cases heq
        exact .inr List.mem_cons_self
      · exact (ih hrest).imp_right (List.mem_cons_of_mem _)

/-- A name that was bound keeps its place, and a new one goes to the end. -/
theorem keys_insertInto (name : String) (b : Binding) (bindings : List (String × Binding)) :
    (insertInto name b bindings).map Prod.fst =
      if name ∈ bindings.map Prod.fst then bindings.map Prod.fst
      else bindings.map Prod.fst ++ [name] := by
  induction bindings with
  | nil => rfl
  | cons first rest ih =>
    simp only [insertInto]
    split
    · rename_i heq
      simp [heq]
    · rename_i hne
      rw [List.map_cons, List.map_cons, ih]
      by_cases hmem : name ∈ rest.map Prod.fst
      · rw [if_pos hmem, if_pos (List.mem_cons_of_mem _ hmem)]
      · have hnew : name ∉ first.1 :: rest.map Prod.fst := by
          simp only [List.mem_cons, not_or]
          exact ⟨Ne.symm hne, hmem⟩
        rw [if_neg hmem, if_neg hnew, List.cons_append]

/-- A name is bound at most once. -/
theorem nodup_keys_insert {s : Scope} (name : String) (b : Binding) (h : s.keys.Nodup) :
    (s.insert name b).keys.Nodup := by
  show ((insertInto name b s.bindings).map Prod.fst).Nodup
  have hnodup : (s.bindings.map Prod.fst).Nodup := h
  rw [keys_insertInto]
  split
  · exact hnodup
  · rename_i hnew
    exact List.nodup_append.mpr ⟨hnodup, by simp, by
      rintro a ha b hb rfl
      exact hnew (List.mem_singleton.mp hb ▸ ha)⟩

theorem Lawful.insert {s : Scope} (h : s.Lawful p) {name : String} {b : Binding}
    (hb : b.Lawful p name) : (s.insert name b).Lawful p := by
  refine ⟨nodup_keys_insert name b h.nodup, fun n b' hmem => ?_⟩
  rcases mem_insertInto hmem with ⟨rfl, rfl⟩ | hold
  · exact hb
  · exact h.lawful n b' hold

theorem Lawful.erase {s : Scope} (h : s.Lawful p) (name : String) : (s.erase name).Lawful p := by
  refine ⟨?_, fun n b hmem => h.lawful n b ((List.mem_filter.mp hmem).1)⟩
  exact h.nodup.sublist (List.filter_sublist.map _)

theorem Lawful.find? {s : Scope} (h : s.Lawful p) {name : String} {b : Binding}
    (hfind : s.find? name = some b) : b.Lawful p name := by
  obtain ⟨before, behind, hsplit, -⟩ := List.lookup_eq_some_iff.mp hfind
  exact h.lawful name b (by simp [hsplit])

end Scope

namespace Context

variable {p : Expr → Prop} {c : Context}

theorem lawful_empty : Lawful p {} := by
  intro i s hs
  have hmem : s ∈ (#[{}] : Array Scope) := Array.mem_of_getElem? hs
  rw [show s = {} by simpa using hmem]
  exact Scope.lawful_of_bindings rfl

theorem Lawful.scope? (h : c.Lawful p) {index : Index} {s : Scope} (hs : c.scope? index = some s) :
    s.Lawful p := by
  obtain ⟨i, -, hi⟩ := Option.bind_eq_some_iff.mp hs
  exact h i s hi

theorem Lawful.modifyScope (h : c.Lawful p) (index : Index) {change : Scope → Scope}
    (hchange : ∀ s : Scope, s.Lawful p → (change s).Lawful p) :
    (c.modifyScope index change).Lawful p := by
  unfold Context.modifyScope
  split
  · intro i s hs
    rw [Array.getElem?_modify] at hs
    split at hs
    · obtain ⟨old, hold, rfl⟩ := Option.map_eq_some_iff.mp hs
      exact hchange old (h i old hold)
    · exact h i s hs
  · exact h

theorem Lawful.bind (h : c.Lawful p) (index : Index) {name : String} {b : Binding}
    (hb : b.Lawful p name) : (c.bind index name b).Lawful p :=
  h.modifyScope index fun _ hs => hs.insert hb

theorem Lawful.push (h : c.Lawful p) {s : Scope} (hs : s.Lawful p) :
    Lawful p ⟨c.scopes.push s⟩ := by
  intro i t ht
  rw [Array.getElem?_push] at ht
  split at ht
  · cases ht
    exact hs
  · exact h i t ht

theorem Lawful.dropInnermost (h : c.Lawful p) : (World.dropInnermost c).Lawful p := by
  have hpop : Lawful p ⟨c.scopes.pop⟩ := by
    intro i s hs
    rw [Array.getElem?_pop] at hs
    split at hs
    · exact h i s hs
    · cases hs
  unfold World.dropInnermost
  split
  · exact h
  · simp only
    split
    · exact hpop
    · exact hpop.modifyScope _ fun _ hs => hs.erase _

/-- What a name stands for is bound to it somewhere along the chain of scopes. -/
theorem Lawful.lookupWithin (h : c.Lawful p) {name : String} {steps : Nat} {scope owner : Index}
    {b : Binding} (hb : c.lookupWithin name steps scope = .ok (some (owner, b))) :
    b.Lawful p name := by
  induction steps generalizing scope with
  | zero => cases hb
  | succ steps ih =>
    rw [Context.lookupWithin] at hb
    split at hb
    · cases hb
    · rename_i s hs
      split at hb
      · rename_i found hfound
        cases hb
        exact (h.scope? hs).find? hfound
      · cases hb
      · exact ih hb

theorem lookup_of_value? {scope : Index} {name : String} {v : Value}
    (h : c.value? scope name = .ok (some v)) :
    ∃ owner, c.lookup scope name = .ok (some (owner, .value v)) := by
  unfold value? at h
  cases hlookup : c.lookup scope name with
  | error err =>
    rw [hlookup] at h
    cases h
  | ok found =>
    rw [hlookup] at h
    rcases found with _ | ⟨owner, b⟩
    · cases h
    · cases b <;> cases h
      exact ⟨owner, rfl⟩

theorem lookup_of_function? {scope : Index} {name : String} {f : Function}
    (h : c.function? scope name = .ok (some f)) :
    ∃ owner, c.lookup scope name = .ok (some (owner, .function f)) := by
  unfold function? at h
  cases hlookup : c.lookup scope name with
  | error err =>
    rw [hlookup] at h
    cases h
  | ok found =>
    rw [hlookup] at h
    rcases found with _ | ⟨owner, b⟩
    · cases h
    · cases b <;> cases h
      exact ⟨owner, rfl⟩

theorem Lawful.value? (h : c.Lawful p) {scope : Index} {name : String} {v : Value}
    (hv : c.value? scope name = .ok (some v)) : v.Sound := by
  obtain ⟨owner, hlookup⟩ := lookup_of_value? hv
  exact (h.lookupWithin hlookup).2

theorem Lawful.function? (h : c.Lawful p) {scope : Index} {name : String} {f : Function}
    (hf : c.function? scope name = .ok (some f)) : f.Lawful p name := by
  obtain ⟨owner, hlookup⟩ := lookup_of_function? hf
  exact h.lookupWithin hlookup

end Context

/-! ## Steps that keep a context lawful -/

namespace World

variable {p : Expr → Prop} {σ : Type}

/-- The context of the world is lawful. -/
abbrev Lawful (p : Expr → Prop) (w : World σ) : Prop :=
  w.context.Lawful p

theorem keeps_record (e : Event) : Keeps (Lawful p) (record e : Run σ Unit) fun _ => True :=
  keeps_modify fun _ h => h

theorem keeps_printLine (line : String) :
    Keeps (Lawful p) (printLine line : Run σ Unit) fun _ => True :=
  keeps_modify fun _ h => h

theorem keeps_onDice {step : Step σ α} {q : α → Prop} (h : Gives step q) :
    Keeps (Lawful p) (onDice step) q :=
  fun w hw => ⟨hw, (h w.dice trivial).2⟩

/-- The answer to a question about a lawful context. -/
theorem keeps_ask {question : Context → Except EvalError α} {q : α → Prop}
    (h : ∀ c : Context, c.Lawful p → ∀ a, question c = .ok a → q a) :
    Keeps (Lawful p) (ask question : Run σ α) q :=
  Keeps.bind keeps_get fun w hw => keeps_ofExcept fun a ha => h w.context hw a ha

theorem keeps_ask_any (question : Context → Except EvalError α) :
    Keeps (Lawful p) (ask question : Run σ α) fun _ => True :=
  keeps_ask fun _ _ _ _ => trivial

theorem keeps_value? (scope : Index) (n : String) :
    Keeps (Lawful p) (ask (·.value? scope n) : Run σ (Option Value))
      fun found => ∀ v, found = some v → v.Sound :=
  keeps_ask fun _ hc _ hfound _ hv => hc.value? (hv ▸ hfound)

theorem keeps_function? (scope : Index) (n : String) :
    Keeps (Lawful p) (ask (·.function? scope n) : Run σ (Option Function))
      fun found => ∀ f, found = some f → f.Lawful p n :=
  keeps_ask fun _ hc _ hfound _ hf => hc.function? (hf ▸ hfound)

theorem keeps_bind (scope : Index) {name : String} {b : Binding} (hb : b.Lawful p name) :
    Keeps (Lawful p) (bind scope name b : Run σ Unit) fun _ => True :=
  keeps_modify fun _ h => h.bind scope hb

theorem keeps_setVariable (scope : Index) {name : String} {v : Value} (hname : p (.name name))
    (hv : v.Sound) : Keeps (Lawful p) (setVariable scope name v : Run σ Unit) fun _ => True := by
  refine Keeps.bind (keeps_ask_any _) fun found _ => ?_
  split <;> exact keeps_bind _ ⟨hname, hv⟩

theorem keeps_defineFunction (scope : Index) {name : String} {body : Expr}
    {parameters : List String} (hhead : (Expr.call name (parameters.map .name)).All p)
    (hbody : body.All p) :
    Keeps (Lawful p) (defineFunction scope name body parameters : Run σ Unit) fun _ => True := by
  refine Keeps.bind keeps_get fun w _ => ?_
  refine Keeps.bind (keeps_modify fun _ h => h) fun _ _ => ?_
  refine Keeps.bind (keeps_ask_any _) fun _ _ => ?_
  exact Keeps.bind (keeps_bind _ ⟨rfl, hhead, hbody⟩) fun _ _ => keeps_record _

theorem keeps_pushScope (parent : Index) (name : String) :
    Keeps (Lawful p) (pushScope parent name : Run σ Nat) fun _ => True := by
  refine Keeps.bind keeps_get fun w _ => ?_
  refine Keeps.bind (keeps_modify fun _ h => ?_) fun _ _ => ?_
  · exact Context.Lawful.push h (Scope.lawful_of_bindings rfl)
  refine Keeps.bind (keeps_ask_any _) fun _ _ => ?_
  refine Keeps.bind (keeps_bind _ trivial) fun _ _ => ?_
  exact Keeps.bind (keeps_record _) fun _ _ => keeps_pure trivial

theorem keeps_closeInnermost : Keeps (Lawful p) (closeInnermost : Run σ Unit) fun _ => True := by
  refine Keeps.bind keeps_get fun w _ => ?_
  refine Keeps.bind (keeps_modify fun _ h => Context.Lawful.dropInnermost h) fun _ _ => ?_
  split
  · dsimp only
    split
    · exact Keeps.bind (keeps_throw (q := fun _ => True) _) fun _ _ => keeps_record _
    · exact keeps_record _
  · dsimp only
    split
    · exact Keeps.bind (keeps_throw (q := fun _ => True) _) fun _ _ => keeps_pure trivial
    · exact keeps_pure trivial

theorem keeps_closeScopes (n : Nat) :
    Keeps (Lawful p) (closeScopes n : Run σ Unit) fun _ => True := by
  induction n with
  | zero => exact keeps_pure trivial
  | succ n ih => exact Keeps.bind keeps_closeInnermost fun _ _ => ih

theorem keeps_closeFrom (index : Nat) :
    Keeps (Lawful p) (closeFrom index : Run σ Unit) fun _ => True :=
  Keeps.bind keeps_get fun _ _ => keeps_closeScopes _

end World

/-! ## Evaluation -/

/-- A call of sound arguments keeps the context lawful and gives a sound value. -/
def CallRule.Lawful (p : Expr → Prop) (call : CallRule σ) : Prop :=
  ∀ scope name args, (∀ v ∈ args, v.Sound) →
    Keeps (World.Lawful p) (call scope name args) fun o => o.value.Sound

namespace Expr

open World

variable {p : Expr → Prop} {σ : Type}

theorem allItems_iff {es : List Expr} : AllItems p es ↔ ∀ e ∈ es, e.All p := by
  induction es with
  | nil => simp [AllItems]
  | cons e es ih => simp [AllItems, ih]

end Expr

namespace Outcome

/-- The values of the outcomes are sound. -/
def AllSound (os : List Outcome) : Prop :=
  ∀ o ∈ os, o.value.Sound

theorem allSound_nil : AllSound [] :=
  nofun

theorem allSound_singleton {o : Outcome} : AllSound [o] ↔ o.value.Sound :=
  List.forall_mem_singleton

theorem allSound_append {os os' : List Outcome} :
    AllSound (os ++ os') ↔ AllSound os ∧ AllSound os' :=
  List.forall_mem_append

theorem AllSound.values {os : List Outcome} (h : AllSound os) :
    ∀ v ∈ os.map Outcome.value, v.Sound :=
  List.forall_mem_map.mpr h

/-- What is made of sound values is sound. -/
theorem Makes.sound {parts : List Outcome} {v : Value} (h : Makes parts v)
    (hparts : AllSound parts) : v.Sound := by
  cases h with
  | empty => exact trivial
  | part hpart => exact hparts _ hpart
  | list => exact Value.soundItems_iff.mpr hparts.values

end Outcome

open Outcome

/-- Told of the first step alone: it keeps a context lawful, and with sound values at hand it leaves
sound values at hand. -/
def Account.lawful (p : Expr → Prop) (σ : Type) : Account σ σ where
  Holds parts x _ rest :=
    AllSound parts → Keeps (World.Lawful p) x fun a => AllSound (rest a)
  pure _ _ hparts := keeps_pure hparts
  bind hx hf hparts := (hx hparts).bind hf
  behind _ hx hparts := (hx allSound_nil).mono fun _ hrest => allSound_append.mpr ⟨hparts, hrest⟩
  gather hv hx hparts := hx (allSound_singleton.mpr (hv.sound hparts))

section

open World

variable {p : Expr → Prop} {σ : Type} [DiceSource σ]

theorem CallRule.Lawful.covers {call : CallRule σ} (hcall : call.Lawful p)
    (hp : ∀ l, p (.literal l) → l.value.Sound) (scope : Index) :
    (Account.lawful p σ).Covers p call call scope where
  literal l hl _ := keeps_pure (allSound_singleton.mpr (hp l hl))
  refuse _ _ := keeps_throw _
  value n _ := (keeps_value? scope n).mono fun found hfound => by
    cases found with
    | none => exact allSound_nil
    | some v => exact allSound_singleton.mpr (hfound v rfl)
  callable _ _ := (keeps_ask_any _).mono fun _ _ => allSound_nil
  call name parts hparts := (hcall scope name _ hparts.values).mono fun _ hresult =>
    allSound_append.mpr ⟨hparts, allSound_singleton.mpr hresult⟩
  assign _ _ hn ho := (keeps_setVariable scope hn (allSound_singleton.mp ho)).mono fun _ _ => ho
  define _ _ _ hhead hbody _ :=
    (keeps_defineFunction scope hhead hbody).mono fun _ _ => allSound_nil
  unary op _ ho := (keeps_onDice (Outcome.gives_unary op (allSound_singleton.mp ho))).mono
    fun _ => allSound_singleton.mpr
  binary op l r hparts :=
    (keeps_onDice (Outcome.gives_binary op l (hparts r (by simp)))).mono
      fun _ => allSound_singleton.mpr
  test _ _ := (keeps_onDice gives_any).mono fun _ _ => allSound_singleton.mpr trivial

/-- Evaluation of an expression keeps a context lawful if calls do. -/
theorem Expr.keeps_evalWith (hp : ∀ l, p (literal l) → l.value.Sound) {call : CallRule σ}
    (hcall : call.Lawful p) (scope : Index) {e : Expr} (he : e.All p) :
    Keeps (World.Lawful p) (e.evalWith call scope) fun o => o.value.Sound :=
  ((hcall.covers hp scope).evalWith he allSound_nil).mono fun _ => allSound_singleton.mp

end

open World

variable {p : Expr → Prop} {σ : Type}

theorem keeps_bindArguments (scope : Index) {names : List String} {args : List Value}
    (hnames : Expr.AllItems p (names.map .name)) (hargs : ∀ v ∈ args, v.Sound) :
    Keeps (Lawful p) (bindArguments scope names args : Run σ Unit) fun _ => True := by
  induction names generalizing args with
  | nil => exact keeps_pure trivial
  | cons n names ih =>
    cases args with
    | nil => exact keeps_pure trivial
    | cons v args =>
      refine Keeps.bind (keeps_bind scope ⟨hnames.1, hargs v List.mem_cons_self⟩) fun _ _ => ?_
      exact ih hnames.2 fun v hv => hargs v (List.mem_cons_of_mem _ hv)

variable [DiceSource σ]

theorem keeps_callBuiltin (name : String) {args : List Value} (hargs : ∀ v ∈ args, v.Sound) :
    Keeps (Lawful p) (callBuiltin name args : Run σ Outcome) fun o => o.value.Sound := by
  refine Keeps.bind (keeps_onDice (Builtin.gives_call name hargs)) fun r hr => ?_
  obtain ⟨result, printed⟩ := r
  cases printed with
  | none => exact keeps_pure hr
  | some line => exact Keeps.bind (keeps_printLine line) fun _ _ => keeps_pure hr

/-- A call keeps a context lawful if the evaluation of bodies does. -/
theorem lawful_callFunction {enter : Function → Nat → Run σ Outcome}
    (henter : ∀ f child, f.body.All p → Keeps (Lawful p) (enter f child) fun o => o.value.Sound) :
    CallRule.Lawful p (callFunction enter) := by
  intro scope name args hargs
  refine Keeps.bind (keeps_function? scope name) fun found hfound => ?_
  split
  · exact keeps_callBuiltin name hargs
  · rename_i f
    obtain ⟨-, hhead, hbody⟩ := hfound f rfl
    have hrun : Keeps (Lawful p) (do
        record (.called name args)
        let child ← pushScope f.scope name
        Step.andThen (closeFrom child) do
          bindArguments child f.parameters args
          enter f child) fun o => o.value.Sound := by
      refine Keeps.bind (keeps_record _) fun _ _ => ?_
      refine Keeps.bind (keeps_pushScope _ _) fun child _ => ?_
      refine keeps_andThen ?_ (keeps_closeFrom child)
      exact Keeps.bind (keeps_bindArguments child hhead.2 hargs) fun _ _ => henter f child hbody
    have hdepth : Keeps (Lawful p) (do
        if maxCallDepth < (← get).context.scopes.size then throw (.callDepth name)
        record (.called name args)
        let child ← pushScope f.scope name
        Step.andThen (closeFrom child) do
          bindArguments child f.parameters args
          enter f child) fun o => o.value.Sound := by
      refine Keeps.bind keeps_get fun w _ => ?_
      split
      · exact Keeps.bind (keeps_throw (q := fun _ => True) _) fun _ _ => hrun
      · exact hrun
    split
    · exact Keeps.bind (keeps_throw (q := fun _ => True) _) fun _ _ => hdepth
    · exact hdepth

theorem keeps_evalWithin (hp : ∀ l, p (.literal l) → l.value.Sound) (level : Nat) (scope : Index)
    {e : Expr} (he : e.All p) :
    Keeps (Lawful p) (evalWithin level scope e : Run σ Outcome) fun o => o.value.Sound := by
  induction level generalizing scope e with
  | zero => exact Expr.keeps_evalWith hp (lawful_callFunction fun _ _ _ => keeps_throw _) scope he
  | succ level ih =>
    exact Expr.keeps_evalWith hp (lawful_callFunction fun _ child hbody => ih child hbody) scope he

/-- Evaluation of an expression keeps a context lawful. -/
theorem World.keeps_eval (hp : ∀ l, p (.literal l) → l.value.Sound) (scope : Index) {e : Expr}
    (he : e.All p) : Keeps (Lawful p) (World.eval e scope : Run σ Outcome) fun o => o.value.Sound :=
  Keeps.bind keeps_get fun _ _ => keeps_evalWithin hp _ scope he

end DiceTome
