import DiceTome.Proofs.Calls
import DiceTome.Proofs.ReadValues
import DiceTome.Proofs.TomeLines

/-!
# Contexts written and read back

A context is written as a tome, and evaluating the tome in a fresh context is meant to restore its
functions and variables.
-/

namespace DiceTome

open Token Step Climb

/-! ## The root scope alone -/

namespace Context

/-- A context of the root scope alone. -/
def ofRoot (bindings : List (String × Binding)) : Context :=
  ⟨#[{ bindings }]⟩

theorem lookup_ofRoot (bindings : List (String × Binding)) (n : String) :
    (ofRoot bindings).lookup root n = .ok ((bindings.lookup n).map (root, ·)) := by
  have hscope : (ofRoot bindings).scopes[0]? = some { bindings := bindings } := rfl
  show lookupWithin _ n 1 ((0 : Nat) : Index) = _
  simp only [lookupWithin, scope?_natCast, hscope, Scope.find?]
  cases bindings.lookup n <;> rfl

theorem bind_ofRoot {bindings : List (String × Binding)} {n : String}
    (h : n ∉ bindings.map Prod.fst) (b : Binding) :
    (ofRoot bindings).bind root n b = ofRoot (bindings ++ [(n, b)]) := by
  rw [← Scope.insertInto_of_not_mem b h]
  rfl

end Context

/-- The function as it is declared again in the root scope, after `k` others. -/
def Function.again (f : Function) (k : Nat) : Function :=
  { f with scope := Context.root, declaration := k + 1 }

namespace World

variable {σ : Type} {w : World σ} {bindings : List (String × Binding)}

theorem run_setVariable (hw : w.context = .ofRoot bindings) {n : String}
    (hn : n ∉ bindings.map Prod.fst) (v : Value) :
    setVariable Context.root n v w =
      (.ok (), { w with context := .ofRoot (bindings ++ [(n, .value v)]) }) := by
  have hlookup : w.context.lookup Context.root n = .ok none := by
    rw [hw, Context.lookup_ofRoot, List.lookup_eq_none_iff.mpr]
    · rfl
    · intro p hp
      have hne : n ≠ p.1 := by
        rintro rfl
        exact hn (List.mem_map_of_mem hp)
      simpa using hne
  rw [setVariable, run_bind, run_ask, hlookup]
  simp only [World.bind, run_modify, hw, Context.bind_ofRoot hn]

theorem run_defineFunction (hw : w.context = .ofRoot bindings) {f : Function}
    (hn : f.name ∉ bindings.map Prod.fst) :
    defineFunction Context.root f.name f.body f.parameters w =
      (.ok (), { w with
        context := .ofRoot (bindings ++ [(f.name, .function (f.again w.declared))])
        declared := w.declared + 1
        journal := w.journal.push (.defined (f.again w.declared) Context.root) }) := by
  have hscope : (Context.ofRoot bindings).scope Context.root = .ok { bindings } := rfl
  simp only [defineFunction, run_bind, run_get, run_modify, run_ask, hw, hscope, World.bind,
    Context.bind_ofRoot hn, record]
  rfl

/-! ## Evaluating definitions -/

variable [DiceSource σ]

/-- An expression is evaluated with some rule for calls. -/
theorem exists_callRule (e : Expr) (scope : Index) (w : World σ) :
    ∃ call : CallRule σ, eval e scope w = e.evalWith call scope w := by
  have hlevel : ∀ level, ∃ call : CallRule σ, evalWithin level scope e = e.evalWith call scope
    | 0 => ⟨_, rfl⟩
    | _ + 1 => ⟨_, rfl⟩
  obtain ⟨call, hcall⟩ := hlevel (levelsLeft w)
  refine ⟨call, ?_⟩
  rw [eval, run_bind, run_get]
  exact congrFun hcall w

/-- A definition of a new variable. -/
theorem run_eval_variable (hw : w.context = .ofRoot bindings) {n : String}
    (hn : n ∉ bindings.map Prod.fst) {e : Expr} {v : Value} (he : e.Denotes v) :
    eval (.binary .assign (.name n) e) Context.root w =
      (.ok ⟨v, []⟩, { w with context := .ofRoot (bindings ++ [(n, .value v)]) }) := by
  obtain ⟨call, hcall⟩ := exists_callRule (.binary .assign (.name n) e) Context.root w
  rw [hcall, Expr.evalWith, run_bind, he]
  simp only [run_bind, run_setVariable hw hn]
  rfl

end World

theorem Expr.parameterNames_names (callee : String) (names : List String) :
    parameterNames callee (names.map .name) = .ok names := by
  induction names with
  | nil => rfl
  | cons n names ih =>
    rw [List.map_cons, parameterNames, ih]
    rfl

namespace World

variable {σ : Type} [DiceSource σ] {w : World σ} {bindings : List (String × Binding)}

/-- A definition of a new function. -/
theorem run_eval_function (hw : w.context = .ofRoot bindings) {f : Function}
    (hn : f.name ∉ bindings.map Prod.fst) :
    eval f.definition Context.root w =
      (.ok {}, { w with
        context := .ofRoot (bindings ++ [(f.name, .function (f.again w.declared))])
        declared := w.declared + 1
        journal := w.journal.push (.defined (f.again w.declared) Context.root) }) := by
  obtain ⟨call, hcall⟩ := exists_callRule f.definition Context.root w
  have hnames : (Step.ofExcept (.ok f.parameters) : Run σ (List String)) w =
      (.ok f.parameters, w) := rfl
  rw [hcall, Function.definition, Function.head, Expr.evalWith, Expr.parameterNames_names]
  simp only [run_bind, hnames, run_defineFunction hw hn]
  rfl

theorem run_evalExprs_cons {e : Expr} {es : List Expr} {o : Outcome} {os : List Outcome}
    {w w₁ w₂ : World σ} (he : eval e Context.root w = (.ok o, w₁))
    (hes : evalExprs es w₁ = (.ok os, w₂)) : evalExprs (e :: es) w = (.ok (o :: os), w₂) := by
  rw [evalExprs, run_bind, he]
  simp only [run_bind, hes]
  rfl

theorem run_evalExprs_append {es es' : List Expr} {os os' : List Outcome} {w w₁ w₂ : World σ}
    (hes : evalExprs es w = (.ok os, w₁)) (hes' : evalExprs es' w₁ = (.ok os', w₂)) :
    evalExprs (es ++ es') w = (.ok (os ++ os'), w₂) := by
  induction es generalizing w os with
  | nil =>
    cases hes
    exact hes'
  | cons e es ih =>
    rw [evalExprs, run_bind] at hes
    cases hfirst : eval e Context.root w with
    | mk result between =>
      rw [hfirst] at hes
      cases result with
      | error err => cases hes
      | ok o =>
        simp only [run_bind] at hes
        cases hrest : evalExprs es between with
        | mk result last =>
          rw [hrest] at hes
          cases result with
          | error err => cases hes
          | ok os =>
            cases hes
            exact run_evalExprs_cons hfirst (ih hrest)

end World

/-- Functions as they are declared again, one after another. -/
def redeclared : Nat → List Function → List Function
  | _, [] => []
  | k, f :: fs => f.again k :: redeclared (k + 1) fs

def functionBindings (fs : List Function) : List (String × Binding) :=
  fs.map fun f => (f.name, .function f)

theorem names_redeclared (k : Nat) (fs : List Function) :
    (functionBindings (redeclared k fs)).map Prod.fst = fs.map Function.name := by
  induction fs generalizing k with
  | nil => rfl
  | cons f fs ih => exact congrArg (f.name :: ·) (ih (k + 1))

def valueBindings (ps : List (String × Value)) : List (String × Binding) :=
  ps.map fun p => (p.1, .value p.2)

/-- The statement gives a variable a value. -/
def Assigns (p : String × Value) (e : Expr) : Prop :=
  ∃ rhs : Expr, rhs.Denotes p.2 ∧ e = .binary .assign (.name p.1) rhs

namespace World

variable {σ : Type} [DiceSource σ]

/-- Definitions of new functions. -/
theorem run_definitions {fs : List Function} {w : World σ} {bindings : List (String × Binding)}
    (hw : w.context = .ofRoot bindings)
    (hnew : (bindings.map Prod.fst ++ fs.map Function.name).Nodup) :
    ∃ os w', evalExprs (fs.map Function.definition) w = (.ok os, w') ∧
      w'.context = .ofRoot (bindings ++ functionBindings (redeclared w.declared fs)) := by
  induction fs generalizing w bindings with
  | nil => exact ⟨[], w, rfl, by simpa [redeclared, functionBindings] using hw⟩
  | cons f fs ih =>
    have hn : f.name ∉ bindings.map Prod.fst := by
      intro hmem
      exact (List.nodup_append.mp hnew).2.2 _ hmem _ (by simp) rfl
    obtain ⟨w₁, hrun, hdeclared, hfirst⟩ : ∃ w₁, eval f.definition Context.root w = (.ok {}, w₁) ∧
        w₁.declared = w.declared + 1 ∧
        w₁.context = .ofRoot (bindings ++ [(f.name, .function (f.again w.declared))]) :=
      ⟨_, run_eval_function hw hn, rfl, rfl⟩
    obtain ⟨os, w', hrest, hcontext⟩ := ih hfirst (by simpa using hnew)
    refine ⟨_, w', run_evalExprs_cons hrun hrest, ?_⟩
    rw [hcontext, hdeclared, List.append_assoc]
    rfl

/-- Definitions of new variables. -/
theorem run_assignments {ps : List (String × Value)} {es : List Expr}
    (hes : List.Forall₂ Assigns ps es)
    {w : World σ} {bindings : List (String × Binding)} (hw : w.context = .ofRoot bindings)
    (hnew : (bindings.map Prod.fst ++ ps.map Prod.fst).Nodup) :
    ∃ os w', evalExprs es w = (.ok os, w') ∧
      w'.context = .ofRoot (bindings ++ valueBindings ps) := by
  induction hes generalizing w bindings with
  | nil => exact ⟨[], w, rfl, by simpa [valueBindings] using hw⟩
  | @cons p e ps es he _ ih =>
    obtain ⟨rhs, hdenotes, rfl⟩ := he
    have hn : p.1 ∉ bindings.map Prod.fst := by
      intro hmem
      exact (List.nodup_append.mp hnew).2.2 _ hmem _ (by simp) rfl
    obtain ⟨w₁, hrun, hfirst⟩ : ∃ w₁, eval (.binary .assign (.name p.1) rhs) Context.root w =
          (.ok ⟨p.2, []⟩, w₁) ∧ w₁.context = .ofRoot (bindings ++ [(p.1, .value p.2)]) :=
      ⟨_, run_eval_variable hw hn hdenotes, rfl⟩
    obtain ⟨os, w', hrest, hcontext⟩ := ih hfirst (by simpa using hnew)
    refine ⟨_, w', run_evalExprs_cons hrun hrest, ?_⟩
    rw [hcontext, List.append_assoc]
    rfl

end World

/-! ## What a context holds -/

namespace Context

/-- A context that holds the given functions and variables, in this order. -/
def holding (fs : List Function) (ps : List (String × Value)) : Context :=
  .ofRoot (functionBindings fs ++ valueBindings ps)

theorem values_holding (fs : List Function) (ps : List (String × Value)) :
    (holding fs ps).rootScope.values = ps := by
  show Scope.values { bindings := functionBindings fs ++ valueBindings ps } = ps
  simp [Scope.values, functionBindings, valueBindings, List.filterMap_append, List.filterMap_map]

theorem lt_of_mem_redeclared {fs : List Function} {k : Nat} {f : Function}
    (h : f ∈ redeclared k fs) : k < f.declaration := by
  induction fs generalizing k with
  | nil => cases h
  | cons g fs ih =>
    rcases List.mem_cons.mp h with rfl | h
    · exact Nat.lt_succ_self k
    · exact Nat.lt_of_succ_lt (ih h)

/-- Functions that are declared again keep their order. -/
theorem pairwise_redeclared (k : Nat) (fs : List Function) :
    (redeclared k fs).Pairwise fun f g => f.declaration ≤ g.declaration := by
  induction fs generalizing k with
  | nil => exact .nil
  | cons f fs ih =>
    refine .cons (fun g hg => ?_) (ih (k + 1))
    exact Nat.le_of_lt (lt_of_mem_redeclared hg)

theorem functions_holding (k : Nat) (fs : List Function) (ps : List (String × Value)) :
    (holding (redeclared k fs) ps).rootScope.functions = redeclared k fs := by
  have hsorted : (redeclared k fs).mergeSort (fun f g => decide (f.declaration ≤ g.declaration)) =
      redeclared k fs :=
    List.mergeSort_of_pairwise ((pairwise_redeclared k fs).imp fun h => decide_eq_true h)
  show Scope.functions { bindings := functionBindings (redeclared k fs) ++ valueBindings ps } = _
  simpa [Scope.functions, functionBindings, valueBindings, List.filterMap_append,
    List.filterMap_map] using hsorted

end Context

/-! ## Names of the root scope -/

namespace Scope

variable {p : Expr → Prop} {s : Scope}

theorem mem_values {n : String} {v : Value} : (n, v) ∈ s.values ↔ (n, .value v) ∈ s.bindings := by
  simp only [values, List.mem_filterMap]
  constructor
  · rintro ⟨⟨name, b⟩, hmem, hb⟩
    cases b with
    | value v =>
      cases hb
      exact hmem
    | _ => cases hb
  · exact fun hmem => ⟨_, hmem, rfl⟩

theorem mem_functions {f : Function} : f ∈ s.functions ↔ ∃ n, (n, .function f) ∈ s.bindings := by
  simp only [functions, List.mem_mergeSort, List.mem_filterMap]
  constructor
  · rintro ⟨⟨name, b⟩, hmem, hb⟩
    cases b with
    | function g =>
      cases hb
      exact ⟨name, hmem⟩
    | _ => cases hb
  · exact fun ⟨n, hmem⟩ => ⟨_, hmem, rfl⟩

theorem Lawful.mem_bindings (h : s.Lawful p) {f : Function} (hf : f ∈ s.functions) :
    (f.name, .function f) ∈ s.bindings := by
  obtain ⟨n, hn⟩ := mem_functions.mp hf
  have hname : f.name = n := (h.lawful n _ hn).name_eq
  rwa [hname]

/-- What is picked from the bindings and named as it is bound. -/
theorem sublist_names {pick : String × Binding → Option α} {name : α → String}
    {bindings : List (String × Binding)}
    (h : ∀ p ∈ bindings, ∀ a, pick p = some a → name a = p.1) :
    ((bindings.filterMap pick).map name).Sublist (bindings.map Prod.fst) := by
  induction bindings with
  | nil => exact .slnil
  | cons first rest ih =>
    have hrest := ih fun p hp => h p (List.mem_cons_of_mem _ hp)
    cases hpick : pick first with
    | none =>
      rw [List.filterMap_cons_none hpick]
      exact hrest.cons _
    | some a =>
      rw [List.filterMap_cons_some hpick, List.map_cons, h first List.mem_cons_self a hpick]
      exact hrest.cons_cons _

/-- The functions and the variables of a lawful scope have different names. -/
theorem Lawful.nodup_names (h : s.Lawful p) :
    (s.functions.map Function.name ++ s.values.map Prod.fst).Nodup := by
  have hnodup : (s.bindings.map Prod.fst).Nodup := h.nodup
  refine List.nodup_append.mpr ⟨?_, ?_, ?_⟩
  · have hperm := (List.mergeSort_perm _ _ : s.functions.Perm _).map Function.name
    refine hperm.nodup_iff.mpr (hnodup.sublist (sublist_names ?_))
    rintro ⟨n, b⟩ hmem f hf
    cases b with
    | function g =>
      cases hf
      exact (h.lawful n _ hmem).name_eq
    | _ => cases hf
  · refine hnodup.sublist (sublist_names ?_)
    rintro ⟨n, b⟩ _ v hv
    cases b with
    | value v' =>
      cases hv
      rfl
    | _ => cases hv
  · rintro n hf m hv rfl
    obtain ⟨f, hmem, rfl⟩ := List.mem_map.mp hf
    obtain ⟨⟨n, v⟩, hvalue, heq⟩ := List.mem_map.mp hv
    cases heq
    have hsame := List.inj_on_of_nodup_map hnodup (h.mem_bindings hmem) (mem_values.mp hvalue) rfl
    cases hsame

end Scope

namespace Context

/-- The variables of the root scope that have a value. -/
def saved (c : Context) : List (String × Value) :=
  c.rootScope.values.filter fun p => !p.2.isEmpty

theorem Lawful.rootScope {p : Expr → Prop} {c : Context} (h : c.Lawful p) :
    c.rootScope.Lawful p := by
  unfold Context.rootScope
  cases hs : c.scopes[0]? with
  | none => exact Scope.lawful_of_bindings rfl
  | some s => exact h 0 s hs

theorem Lawful.nodup_names {p : Expr → Prop} {c : Context} (h : c.Lawful p) :
    (c.rootScope.functions.map Function.name ++ c.saved.map Prod.fst).Nodup := by
  refine h.rootScope.nodup_names.sublist ?_
  exact (List.Sublist.refl _).append (List.filter_sublist.map Prod.fst)

theorem Lawful.function {p : Expr → Prop} {c : Context} (h : c.Lawful p) {f : Function}
    (hf : f ∈ c.rootScope.functions) : f.Lawful p f.name :=
  h.rootScope.lawful _ _ (h.rootScope.mem_bindings hf)

theorem Lawful.saved {p : Expr → Prop} {c : Context} (h : c.Lawful p) {q : String × Value}
    (hq : q ∈ c.saved) : p (.name q.1) ∧ q.2.Sound :=
  h.rootScope.lawful _ _ (Scope.mem_values.mp (List.mem_filter.mp hq).1)

theorem dump_eq (c : Context) :
    c.dump = joinLines (c.rootScope.functions.map Function.render ++
      c.saved.map fun p => variableLine p.1 p.2) := rfl

end Context

/-! ## Evaluating a written context -/

/-- The function with every `else` of its body where it is read. -/
def Function.rebound (f : Function) : Function :=
  { f with body := f.body.rebound }

/-- The variable is written as the statement. -/
def WrittenAs (p : String × Value) (e : Expr) : Prop :=
  ∃ rhs, p.2.spelling = some rhs ∧ e = .binary .assign (.name p.1) rhs

/-- The variable `p` is written as a statement that makes it the variable `p'`. -/
def ReadAs (p p' : String × Value) : Prop :=
  p'.1 = p.1 ∧ ∃ rhs, p.2.spelling = some rhs ∧ p.2.ComesBack rhs p'.2

theorem names_of_readAs {ps ps' : List (String × Value)} (h : List.Forall₂ ReadAs ps ps') :
    ps'.map Prod.fst = ps.map Prod.fst := by
  induction h with
  | nil => rfl
  | cons hp _ ih => rw [List.map_cons, List.map_cons, hp.1, ih]

theorem statements_of_readAs {ps ps' : List (String × Value)} (h : List.Forall₂ ReadAs ps ps') :
    ∃ es, List.Forall₂ WrittenAs ps es ∧ List.Forall₂ Assigns ps' es := by
  induction h with
  | nil => exact ⟨[], .nil, .nil⟩
  | @cons p p' ps ps' hp _ ih =>
    obtain ⟨es, hwritten, hassigns⟩ := ih
    obtain ⟨hsame, rhs, hspell, hback⟩ := hp
    refine ⟨.binary .assign (.name p.1) rhs :: es, .cons ⟨rhs, hspell, rfl⟩ hwritten, ?_⟩
    exact .cons ⟨rhs, hback.denotes, by rw [hsame]⟩ hassigns

theorem Function.lines_render {fs : List Function}
    (h : ∀ f ∈ fs, f.Lawful Expr.Parsed f.name ∧ f.body.All Expr.Spelled) :
    List.Forall₂ Line (fs.map Function.render) ((fs.map rebound).map definition) := by
  induction fs with
  | nil => exact .nil
  | cons f fs ih =>
    obtain ⟨hf, hspelled⟩ := h f List.mem_cons_self
    exact .cons (line_render hf hspelled) (ih fun f hf => h f (List.mem_cons_of_mem _ hf))

namespace Context

theorem lines_variables {ps : List (String × Value)} {es : List Expr}
    (h : List.Forall₂ WrittenAs ps es)
    (hps : ∀ p ∈ ps, (Expr.name p.1).Parsed ∧ p.2.Sound) :
    List.Forall₂ Line (ps.map fun p => variableLine p.1 p.2) es := by
  induction h with
  | nil => exact .nil
  | @cons p e ps es hp _ ih =>
    obtain ⟨hname, hsound⟩ := hps p List.mem_cons_self
    obtain ⟨rhs, hspell, rfl⟩ := hp
    exact .cons (line_variableLine hname hsound hspell)
      (ih fun p hp => hps p (List.mem_cons_of_mem _ hp))

/-- A written context is parsed line by line. -/
theorem Lawful.parse_dump {c : Context} (h : c.Lawful Expr.Parsed)
    (hspelled : ∀ f ∈ c.rootScope.functions, f.body.All Expr.Spelled) {es : List Expr}
    (hes : List.Forall₂ WrittenAs c.saved es) :
    parseTome c.dump = .ok (((c.rootScope.functions.map Function.rebound).map
      Function.definition ++ es).map (·.plant {})) := by
  have hfunctions := Function.lines_render fun f hf => ⟨h.function hf, hspelled f hf⟩
  have hvariables := lines_variables hes fun p hp => h.saved hp
  exact parseTome_lines (List.rel_append hfunctions hvariables)

/-- Evaluating a written context in a fresh one declares its functions again, with every `else`
where it is read, and gives its variables the values that come back. -/
theorem Lawful.run_dump {c : Context} (h : c.Lawful Expr.Parsed)
    (hspelled : ∀ f ∈ c.rootScope.functions, f.body.All Expr.Spelled) {ps : List (String × Value)}
    (hps : List.Forall₂ ReadAs c.saved ps) {σ : Type} [DiceSource σ] {w : World σ}
    (hw : w.context = {}) :
    ∃ os w', (World.evalTome c.dump).run w = (.ok os, w') ∧ w'.context =
      holding (redeclared w.declared (c.rootScope.functions.map Function.rebound)) ps := by
  obtain ⟨es, hwritten, hassigns⟩ := statements_of_readAs hps
  have hparse := h.parse_dump hspelled hwritten
  have hnames : (c.rootScope.functions.map Function.rebound).map Function.name =
      c.rootScope.functions.map Function.name := by
    rw [List.map_map]
    rfl
  have hnodup : ((c.rootScope.functions.map Function.rebound).map Function.name ++
      ps.map Prod.fst).Nodup := by
    rw [hnames, names_of_readAs hps]
    exact h.nodup_names
  have hroot : w.context = .ofRoot [] := hw
  obtain ⟨os₁, w₁, hrun₁, hcontext₁⟩ :=
    World.run_definitions hroot (List.nodup_append.mp hnodup).1
  obtain ⟨os₂, w₂, hrun₂, hcontext₂⟩ := World.run_assignments hassigns hcontext₁ (by
    rwa [List.nil_append, names_redeclared])
  have hrun := World.evalTome_of_parse hparse w
  rw [ExceptT.run, ExceptT.run, World.run_evalExprs_append hrun₁ hrun₂] at hrun
  exact ⟨_, _, hrun, hcontext₂⟩

end Context

end DiceTome
