import DiceTome.Proofs.Reachable

/-!
# The history of the root scope

The root scope does not show when its names were bound and its functions defined, but it keeps
enough of that to be written in order: a new name goes to the end, a name that is bound again keeps
its place, and every function has a number that grows with each definition.

* `Function.latest`: the definitions that no other one of the same name has replaced.
* `World.definedSince`: the definitions of the root scope that the journal tells of.
* `World.Recent`: the functions of the root scope are the most recent of some definitions, which are
  numbered in their order.
* `World.Follows`: a world on the way of an evaluation, which has forgotten no name and whose
  functions are recent.
* `World.follows_evalArena`: evaluations lead to such worlds, whether they fail or not.
-/

namespace DiceTome

open Step World
open Token (isName)

/-! ## Most recent definitions -/

namespace Function

/-- The definitions that are not followed by another one of the same name. -/
def latest : List Function → List Function
  | [] => []
  | f :: fs => if f.name ∈ fs.map Function.name then latest fs else f :: latest fs

variable {fs : List Function}

theorem latest_sublist : (latest fs).Sublist fs := by
  induction fs with
  | nil => exact .slnil
  | cons f fs ih =>
    rw [latest]
    split
    · exact ih.cons f
    · exact ih.cons_cons f

theorem mem_latest_iff {f : Function} :
    f ∈ latest fs ↔
      ∃ before later, fs = before ++ f :: later ∧ f.name ∉ later.map Function.name := by
  induction fs with
  | nil => simp [latest]
  | cons g fs ih =>
    have hbehind : (∃ before later, g :: fs = (g :: before) ++ f :: later ∧
        f.name ∉ later.map Function.name) ↔ f ∈ latest fs := by
      simp [ih]
    rw [latest]
    split
    · rename_i hagain
      rw [← hbehind]
      constructor
      · rintro ⟨before, later, hsplit⟩
        exact ⟨g :: before, later, hsplit⟩
      · rintro ⟨before, later, hsplit, hlater⟩
        cases before with
        | nil =>
          cases hsplit
          exact absurd hagain hlater
        | cons g' before =>
          cases hsplit
          exact ⟨before, later, rfl, hlater⟩
    · rename_i hlast
      rw [List.mem_cons, ← hbehind]
      constructor
      · rintro (rfl | ⟨before, later, hsplit⟩)
        · exact ⟨[], fs, rfl, hlast⟩
        · exact ⟨g :: before, later, hsplit⟩
      · rintro ⟨before, later, hsplit, hlater⟩
        cases before with
        | nil =>
          cases hsplit
          exact .inl rfl
        | cons g' before =>
          cases hsplit
          exact .inr ⟨before, later, rfl, hlater⟩

/-- There is one most recent definition of a name. -/
theorem nodup_latest : ((latest fs).map Function.name).Nodup := by
  induction fs with
  | nil => exact List.nodup_nil
  | cons f fs ih =>
    rw [latest]
    split
    · exact ih
    · rename_i hlast
      refine List.nodup_cons.mpr ⟨fun hmem => hlast ?_, ih⟩
      exact (latest_sublist.map Function.name).subset hmem

theorem mem_latest_concat (fs : List Function) (f : Function) : f ∈ latest (fs ++ [f]) :=
  mem_latest_iff.mpr ⟨fs, [], rfl, by simp⟩

/-- A definition of another name leaves a definition the most recent one. -/
theorem mem_latest_append {f g : Function} (h : g ∈ latest fs) (hname : g.name ≠ f.name) :
    g ∈ latest (fs ++ [f]) := by
  obtain ⟨before, later, rfl, hlater⟩ := mem_latest_iff.mp h
  exact mem_latest_iff.mpr ⟨before, later ++ [f], by simp, by simpa [hname] using hlater⟩

end Function

/-- The function that the event defines in the root scope. -/
def Event.rootDefinition? : Event → Option Function
  | .defined f scope => if scope = Context.root then some f else none
  | _ => none

/-- The functions that have been defined in the root scope since the journal had `n` events, one
after another. -/
def World.definedSince (n : Nat) (w : World σ) : List Function :=
  (w.journal.toList.drop n).filterMap Event.rootDefinition?

theorem World.definedSince_size {σ : Type} (w : World σ) : w.definedSince w.journal.size = [] := by
  rw [definedSince, ← Array.length_toList, List.drop_length, List.filterMap_nil]

theorem World.definedSince_record {σ : Type} {w : World σ} {events : List Event}
    (h : events <+: w.journal.toList) (e : Event) :
    definedSince events.length { w with journal := w.journal.push e } =
      w.definedSince events.length ++ e.rootDefinition?.toList := by
  rw [definedSince, Array.toList_push, List.drop_append_of_le_length h.length_le,
    List.filterMap_append]
  cases he : e.rootDefinition? <;> simp [he, definedSince]

/-- What has been defined on the way to a world, and then on the way to another one. -/
theorem World.definedSince_append {σ τ : Type} {w : World σ} {w' : World τ} {events : List Event}
    (h : events <+: w.journal.toList) (h' : w.journal.toList <+: w'.journal.toList) :
    w.definedSince events.length ++ w'.definedSince w.journal.size =
      w'.definedSince events.length := by
  obtain ⟨more, hmore⟩ := h'
  rw [definedSince, definedSince, definedSince, ← Array.length_toList, ← hmore, List.drop_left,
    List.drop_append_of_le_length h.length_le, List.filterMap_append]

/-! ## Names and functions of a scope -/

namespace Scope

variable (s : Scope)

/-- The identifiers bound in the scope, in order. The scopes below it are listed under other
names. -/
def names : List String :=
  s.keys.filter fun n => isName n

theorem isName_childKey (name : String) (i : Nat) : isName (childKey name i) = false := by
  cases h : isName (childKey name i) with
  | false => rfl
  | true => exact absurd rfl (childKey_ne_of_isName h name i)

theorem keys_insert (name : String) (b : Binding) :
    (s.insert name b).keys = if name ∈ s.keys then s.keys else s.keys ++ [name] :=
  keys_insertInto name b s.bindings

/-- A name keeps its place, and a new one comes last. -/
theorem names_prefix_insert (name : String) (b : Binding) :
    s.names <+: (s.insert name b).names := by
  rw [names, names, keys_insert]
  split
  · exact List.prefix_rfl
  · exact (List.prefix_append _ _).filter _

theorem names_insert_childKey (name : String) (i : Nat) (b : Binding) :
    (s.insert (childKey name i) b).names = s.names := by
  rw [names, names, keys_insert]
  split
  · rfl
  · rw [List.filter_append, List.filter_singleton, isName_childKey]
    simp

theorem names_erase_childKey (name : String) (i : Nat) :
    (s.erase (childKey name i)).names = s.names := by
  have hkeys : (s.erase (childKey name i)).keys = s.keys.filter fun n => n ≠ childKey name i := by
    rw [erase, keys, keys, List.filter_map]
    rfl
  rw [names, names, hkeys, List.filter_filter]
  refine List.filter_congr fun n _ => ?_
  cases hn : isName n with
  | false => rfl
  | true => simp [(childKey_ne_of_isName hn name i).symm]

theorem lookup_cons_eq_ite (n m : String) (b : Binding) (bindings : List (String × Binding)) :
    ((m, b) :: bindings).lookup n = if n = m then some b else bindings.lookup n := by
  rw [List.lookup_cons]
  by_cases h : n = m
  · simp [h]
  · simp [h, beq_false_of_ne h]

theorem find?_insert (name n : String) (b : Binding) :
    (s.insert name b).find? n = if n = name then some b else s.find? n := by
  show (insertInto name b s.bindings).lookup n = _
  rw [find?]
  induction s.bindings with
  | nil => rw [insertInto, lookup_cons_eq_ite]
  | cons first rest ih =>
    obtain ⟨m, old⟩ := first
    rw [insertInto]
    split
    · rename_i hm
      subst hm
      rw [lookup_cons_eq_ite, lookup_cons_eq_ite]
      split <;> rfl
    · rename_i hm
      rw [lookup_cons_eq_ite, lookup_cons_eq_ite, ih]
      by_cases h : n = m
      · subst h
        rw [if_pos rfl, if_neg hm, if_pos rfl]
      · rw [if_neg h, if_neg h]

theorem find?_erase (key n : String) :
    (s.erase key).find? n = if n = key then none else s.find? n := by
  show (s.bindings.filter fun p => p.1 ≠ key).lookup n = _
  rw [find?]
  induction s.bindings with
  | nil => simp
  | cons first rest ih =>
    obtain ⟨m, b⟩ := first
    by_cases hm : m = key
    · subst hm
      rw [List.filter_cons_of_neg (by simp), ih, lookup_cons_eq_ite]
      split <;> rfl
    · rw [List.filter_cons_of_pos (by simpa using hm), lookup_cons_eq_ite, lookup_cons_eq_ite, ih]
      by_cases h : n = m
      · subst h
        rw [if_pos rfl, if_neg hm, if_pos rfl]
      · rw [if_neg h, if_neg h]

variable {s}

/-- What is bound to no function leaves the functions that are found the same or hides them. -/
theorem function_of_insert {name n : String} {b : Binding} (hb : ∀ f, b ≠ .function f)
    {f : Function} (h : (s.insert name b).find? n = some (.function f)) :
    s.find? n = some (.function f) := by
  rw [find?_insert] at h
  split at h
  · exact absurd (Option.some.inj h) (hb f)
  · exact h

theorem function_of_erase {key n : String} {f : Function}
    (h : (s.erase key).find? n = some (.function f)) : s.find? n = some (.function f) := by
  rw [find?_erase] at h
  split at h
  · cases h
  · exact h

end Scope

/-! ## The root scope of a context -/

theorem Scope.Tidy.find? {j : Nat} {s : Scope} (h : s.Tidy j) {n : String} {b : Binding}
    (hfind : s.find? n = some b) : b.Tidy j n := by
  obtain ⟨before, behind, hsplit, -⟩ := List.lookup_eq_some_iff.mp hfind
  exact h.tidy n b (by simp [hsplit])

namespace Context

variable {c : Context}

theorem Tidy.rootScope (h : c.Tidy) : c.rootScope.Tidy 0 := by
  obtain ⟨s, hs, -⟩ := h.tree.root
  rw [Context.rootScope, hs]
  exact h.scope 0 s hs

theorem rootScope_bind {j : Nat} (hj : j < c.scopes.size) (name : String) (b : Binding) :
    (c.bind (j : Index) name b).rootScope =
      if j = 0 then c.rootScope.insert name b else c.rootScope := by
  rw [rootScope, rootScope, Context.bind, getElem?_modifyScope]
  split
  · rename_i h
    subst h
    rw [Array.getElem?_eq_getElem hj]
    rfl
  · rfl

theorem rootScope_opened {j : Nat} (hj : j < c.scopes.size) (name : String) :
    (c.opened j name).rootScope =
      if j = 0 then
        c.rootScope.insert (Scope.childKey name c.scopes.size) (.child c.scopes.size)
      else c.rootScope := by
  have hne : 0 ≠ c.scopes.size := by omega
  rw [rootScope, rootScope, getElem?_opened hj, if_neg hne]
  split
  · rename_i h
    subst h
    rw [Array.getElem?_eq_getElem hj]
    rfl
  · rfl

theorem EndsWith.rootScope_dropInnermost {k j : Nat} {name : String} (h : c.EndsWith k j name) :
    (World.dropInnermost c).rootScope =
      if j = 0 then c.rootScope.erase (Scope.childKey name k) else c.rootScope := by
  have hlt := h.lt
  have hsize := h.size_eq
  rw [rootScope, rootScope, getElem?_dropInnermost h, if_neg (by omega)]
  split
  · rw [Array.getElem?_eq_getElem (by omega)]
    rfl
  · rfl

end Context

/-! ## Recent functions -/

namespace World

variable {σ : Type}

/-- The functions of the root scope are the most recent of some definitions of their names, and the
definitions are numbered in their order. -/
structure Recent (defined : List Function) (w : World σ) : Prop where
  sorted : defined.Pairwise fun f g => f.declaration < g.declaration
  declared : ∀ f ∈ defined, f.declaration ≤ w.declared
  latest : ∀ n f, w.context.rootScope.find? n = some (.function f) → f ∈ Function.latest defined

/-- A world on the way of an evaluation that started as `a`. The definitions of the root scope are
those of the past and what the journal tells of them behind the given events. -/
structure Follows (past : List Function) (events : List Event) (a w : World σ) : Prop where
  tidy : w.context.Tidy
  tree : a.context.SameTree w.context
  names : a.context.rootScope.names <+: w.context.rootScope.names
  journal : events <+: w.journal.toList
  recent : w.Recent (past ++ w.definedSince events.length)

variable {a w w' : World σ} {past defined : List Function} {events : List Event}

/-- No name of the root scope has been bound to a function. -/
theorem Recent.of_find? (h : w.Recent defined) {τ : Type} {w' : World τ}
    (hdeclared : w.declared ≤ w'.declared)
    (hfind : ∀ m f, w'.context.rootScope.find? m = some (.function f) →
      w.context.rootScope.find? m = some (.function f)) : w'.Recent defined where
  sorted := h.sorted
  declared f hf := Nat.le_trans (h.declared f hf) hdeclared
  latest m f hf := h.latest m f (hfind m f hf)

/-- A function has been defined in the root scope, and no other name has been bound to one. -/
theorem Recent.define (h : w.Recent defined) {f : Function}
    (hdeclared : w'.declared = w.declared + 1) (hnumber : f.declaration = w.declared + 1)
    (hfind : ∀ m g, w'.context.rootScope.find? m = some (.function g) → g = f ∨
      w.context.rootScope.find? m = some (.function g) ∧ g.name ≠ f.name) :
    w'.Recent (defined ++ [f]) where
  sorted := by
    refine List.pairwise_append.mpr ⟨h.sorted, List.pairwise_singleton _ _, fun g hg f' hf' => ?_⟩
    rw [List.mem_singleton.mp hf', hnumber]
    exact Nat.lt_succ_of_le (h.declared g hg)
  declared g hg := by
    rw [hdeclared]
    rcases List.mem_append.mp hg with hg | hg
    · exact Nat.le_succ_of_le (h.declared g hg)
    · rw [List.mem_singleton.mp hg, hnumber]
  latest m g hg := by
    rcases hfind m g hg with rfl | ⟨hold, hname⟩
    · exact Function.mem_latest_concat _ _
    · exact Function.mem_latest_append (h.latest m g hold) hname

namespace Follows

/-- Every world follows itself, with all events of its journal in the past. -/
theorem refl (htidy : w.context.Tidy) (hrecent : w.Recent past) :
    Follows past w.journal.toList w w where
  tidy := htidy
  tree := Context.SameTree.refl _
  names := List.prefix_rfl
  journal := List.prefix_rfl
  recent := by
    rw [Array.length_toList, definedSince_size, List.append_nil]
    exact hrecent

theorem size_eq (h : Follows past events a w) : w.context.scopes.size = a.context.scopes.size :=
  h.tree.size_eq

/-- A step that only draws dice or writes to the output. -/
theorem congr (h : Follows past events a w) (hcontext : w'.context = w.context)
    (hjournal : w'.journal = w.journal) (hdeclared : w'.declared = w.declared) :
    Follows past events a w' where
  tidy := hcontext ▸ h.tidy
  tree := hcontext ▸ h.tree
  names := hcontext ▸ h.names
  journal := hjournal ▸ h.journal
  recent := by
    rw [definedSince, hjournal]
    exact h.recent.of_find? (Nat.le_of_eq hdeclared.symm) fun _ _ hf => hcontext ▸ hf

theorem prefix_push (h : Follows past events a w) (e : Event) :
    events <+: (w.journal.push e).toList := by
  rw [Array.toList_push]
  exact h.journal.trans (List.prefix_append _ _)

/-- An event that tells of no function in the root scope. -/
theorem record (h : Follows past events a w) {e : Event} (he : e.rootDefinition? = none) :
    Follows past events a { w with journal := w.journal.push e } where
  tidy := h.tidy
  tree := h.tree
  names := h.names
  journal := h.prefix_push _
  recent := by
    rw [definedSince_record h.journal, he, Option.toList_none, List.append_nil]
    exact h.recent.of_find? (Nat.le_refl _) fun _ _ hf => hf

theorem names_bind (h : Follows past events a w) {j : Nat} (hj : j < w.context.scopes.size)
    (name : String) (b : Binding) :
    a.context.rootScope.names <+: (w.context.bind (j : Index) name b).rootScope.names := by
  rw [Context.rootScope_bind hj]
  split
  · exact h.names.trans (Scope.names_prefix_insert _ name b)
  · exact h.names

theorem bind_value (h : Follows past events a w) {j : Nat} (hj : j < w.context.scopes.size)
    {name : String} (hname : isName name = true) (v : Value) :
    Follows past events a { w with context := w.context.bind (j : Index) name (.value v) } where
  tidy := h.tidy.bind_value j hname v
  tree := h.tree.trans (h.tidy.sameTree_bind j hname nofun)
  names := h.names_bind hj name _
  journal := h.journal
  recent := by
    refine h.recent.of_find? (Nat.le_refl _) fun m f hf => ?_
    dsimp only at hf
    rw [Context.rootScope_bind hj] at hf
    split at hf
    · exact Scope.function_of_insert (b := .value v) nofun hf
    · exact hf

/-- A function is defined with a number of its own. -/
theorem define (h : Follows past events a w) {j : Nat} (hj : j < w.context.scopes.size)
    {f : Function} (hf : f.Tidy j f.name) (hname : isName f.name = true)
    (hnumber : f.declaration = w.declared + 1) :
    Follows past events a { w with
      context := w.context.bind (j : Index) f.name (.function f)
      declared := w.declared + 1
      journal := w.journal.push (.defined f j) } where
  tidy := h.tidy.bind_function hname hf
  tree := h.tree.trans (h.tidy.sameTree_bind j hname nofun)
  names := h.names_bind hj f.name _
  journal := h.prefix_push _
  recent := by
    have hroot : (j : Index) = Context.root ↔ j = 0 := Int.ofNat_inj
    have hdefined := definedSince_record (w := { w with
      context := w.context.bind (j : Index) f.name (.function f), declared := w.declared + 1 })
      h.journal (.defined f j)
    simp only [Event.rootDefinition?, hroot] at hdefined
    have hscope := Context.rootScope_bind hj f.name (.function f)
    rw [hdefined, ← List.append_assoc]
    by_cases hzero : j = 0
    · rw [if_pos hzero] at hscope ⊢
      refine h.recent.define rfl hnumber fun m g hg => ?_
      dsimp only at hg
      rw [hscope, Scope.find?_insert] at hg
      split at hg
      · cases hg
        exact .inl rfl
      · rename_i hne
        have hsame : g.name = m := (h.tidy.rootScope.find? hg).2.name_eq
        exact .inr ⟨hg, hsame ▸ hne⟩
    · rw [if_neg hzero] at hscope ⊢
      rw [Option.toList_none, List.append_nil]
      refine h.recent.of_find? (Nat.le_succ _) fun m g hg => ?_
      dsimp only at hg
      rwa [hscope] at hg

/-- A scope is opened. -/
theorem opened (h : Follows past events a w) {j : Nat} (hj : j < w.context.scopes.size)
    (name : String) : Follows past events (w.opened j name) (w.opened j name) := by
  have hrecorded := h.record (e := .pushed w.context.scopes.size name j) rfl
  refine ⟨h.tidy.opened hj name, Context.SameTree.refl _, List.prefix_rfl, hrecorded.journal,
    hrecorded.recent.of_find? (Nat.le_refl _) fun m f hf => ?_⟩
  rw [World.opened, Context.rootScope_opened hj] at hf
  have hchild : ∀ g, Binding.child w.context.scopes.size ≠ .function g := by
    rintro g ⟨⟩
  split at hf
  · exact Scope.function_of_insert hchild hf
  · exact hf

/-- The scope is closed again. -/
theorem closed (h : Follows past events a w) {j : Nat} (hj : j < w.context.scopes.size)
    {name : String} {b : World σ} (hb : Follows past events (w.opened j name) b) :
    Follows past events a (b.closed name) := by
  have hend := Context.endsWith_opened hj name
  have hlast := hb.tree.endsWith hend
  have hback := hb.tree.dropInnermost hend
  rw [World.opened, h.tidy.dropInnermost_opened hj] at hback
  have hrecorded := hb.record (e := .popped (b.context.scopes.size - 1) name) rfl
  refine ⟨hb.tidy.dropInnermost hlast, h.tree.trans hback, h.names.trans ?_, hrecorded.journal,
    hrecorded.recent.of_find? (Nat.le_refl _) fun m f hf => ?_⟩
  · have hnames := hb.names
    rw [World.opened, Context.rootScope_opened hj] at hnames
    rw [World.closed, hlast.rootScope_dropInnermost]
    split
    · rw [if_pos ‹_›, Scope.names_insert_childKey] at hnames
      rwa [Scope.names_erase_childKey]
    · rwa [if_neg ‹_›] at hnames
  · rw [World.closed, hlast.rootScope_dropInnermost] at hf
    split at hf
    · exact Scope.function_of_erase hf
    · exact hf

end Follows

end World

/-! ## Evaluations -/

namespace Step

/-- A step that keeps an invariant does the same on both sides of a state. -/
theorem Keeps.couples_self {inv : s → Prop} {q : α → Prop} {x : Step s α} (h : Keeps inv x q) :
    Couples (fun a b => a = b ∧ inv a) x x := by
  rintro a _ ⟨rfl, ha⟩
  exact ⟨rfl, rfl, (h a ha).1⟩

theorem Couples.keeps_self {inv : s → Prop} {x : Step s α}
    (h : Couples (fun a b => a = b ∧ inv a) x x) : Keeps inv x fun _ => True :=
  fun a ha => ⟨(h a a ⟨rfl, ha⟩).2.2, fun _ _ => trivial⟩

end Step

namespace World

variable {σ : Type} {a w : World σ} {past : List Function} {events : List Event}

theorem follows_ask (question : Context → Except EvalError α) :
    Keeps (Follows past events a) (ask question) fun x =>
      ∃ w, Follows past events a w ∧ question w.context = .ok x :=
  Keeps.bind keeps_get fun w hw => keeps_ofExcept fun _ hx => ⟨w, hw, hx⟩

theorem follows_onDice (step : Step σ α) :
    Keeps (Follows past events a) (onDice step) fun _ => True :=
  fun _ hw => ⟨hw.congr rfl rfl rfl, fun _ _ => trivial⟩

theorem follows_bind {j : Nat} (hj : j < a.context.scopes.size) {name : String}
    (hname : isName name = true) (v : Value) :
    Keeps (Follows past events a) (bind (j : Index) name (.value v)) fun _ => True :=
  keeps_modify fun _ hw => hw.bind_value (hw.size_eq ▸ hj) hname v

theorem follows_setVariable {s : Nat} (hs : s < a.context.scopes.size) {name : String}
    (hname : isName name = true) (v : Value) :
    Keeps (Follows past events a) (setVariable (s : Index) name v) fun _ => True := by
  refine (follows_ask _).bind fun found ⟨w, hw, hfound⟩ => ?_
  have hlt : s < w.context.scopes.size := hw.size_eq ▸ hs
  rcases found with _ | ⟨owner, b⟩
  · exact follows_bind hs hname v
  · obtain ⟨j, hj, rfl, -⟩ := hw.tidy.selfContained_all.lookup hlt hfound
    exact follows_bind (hw.size_eq ▸ hj) hname v

/-- What defining a function does to a world with the scope. -/
theorem run_defineFunction_of_lt {s : Nat} (hs : s < w.context.scopes.size) (f : Function)
    (hscope : f.scope = (s : Index)) (hnumber : f.declaration = w.declared + 1) :
    defineFunction (s : Index) f.name f.body f.parameters w =
      (.ok (), { w with
        context := w.context.bind (s : Index) f.name (.function f)
        declared := w.declared + 1
        journal := w.journal.push (.defined f s) }) := by
  have hfound : w.context.scope (s : Index) = .ok w.context.scopes[s] := by
    rw [Context.scope, Context.scope?_natCast, Array.getElem?_eq_getElem hs]
  obtain ⟨name, body, parameters, scope, declaration⟩ := f
  cases hscope
  cases hnumber
  simp only [defineFunction, run_bind, run_get, run_modify, run_ask, hfound, World.bind, record]
  rfl

theorem follows_defineFunction {s : Nat} (hs : s < a.context.scopes.size) {callee : String}
    {names : List String} {body : Expr}
    (hhead : (Expr.call callee (names.map .name)).All Expr.Named) (hbody : body.All Expr.Named) :
    Keeps (Follows past events a) (defineFunction (s : Index) callee body names) fun _ => True := by
  intro w hw
  have hparameters : ∀ n ∈ names, isName n = true := fun n hn =>
    Expr.allItems_iff.mp hhead.2 (.name n) (List.mem_map_of_mem hn)
  have hlt : s < w.context.scopes.size := hw.size_eq ▸ hs
  have hrun : defineFunction (s : Index) callee body names w = _ :=
    run_defineFunction_of_lt hlt ⟨callee, body, names, s, w.declared + 1⟩ rfl rfl
  rw [hrun]
  exact ⟨hw.define hlt ⟨rfl, rfl, hparameters, hbody⟩ hhead.1 rfl, fun _ _ => trivial⟩

theorem follows_bindArguments {s : Nat} (hs : s < a.context.scopes.size) {names : List String}
    (hnames : ∀ m ∈ names, isName m = true) (args : List Value) :
    Keeps (Follows past events a) (bindArguments (s : Index) names args) fun _ => True :=
  (couples_bindArguments_of (fun m hm v => (follows_bind hs (hnames m hm) v).couples_self)
    args).keeps_self

/-- The body of a function is evaluated in worlds that follow the one it starts in. -/
def EntersFollowing (enter : Function → Nat → Run σ Outcome) : Prop :=
  ∀ (past : List Function) (events : List Event) (a : World σ) (f : Function) (child : Nat),
    child < a.context.scopes.size → f.body.All Expr.Named →
    Keeps (Follows past events a) (enter f child) fun _ => True

theorem follows_invoke {enter : Function → Nat → Run σ Outcome} (henter : EntersFollowing enter)
    {f : Function} {j : Nat} (hj : j < a.context.scopes.size) (hscope : f.scope = (j : Index))
    (hnames : ∀ m ∈ f.parameters, isName m = true) (hbody : f.body.All Expr.Named) (name : String)
    (args : List Value) :
    Keeps (Follows past events a) (f.invoke enter name args) fun _ => True := by
  refine Couples.keeps_self (Function.couples_invoke hscope ?_ ?_ ?_)
  · rintro w _ ⟨rfl, -⟩
    rfl
  · rintro w _ ⟨rfl, hw⟩
    exact hw.size_eq ▸ hj
  · rintro w _ ⟨rfl, hw⟩
    have hlt : j < w.context.scopes.size := hw.size_eq ▸ hj
    have hcalled := hw.record (e := .called name args) rfl
    have hopened := hcalled.opened hlt name
    have hchild : w.context.scopes.size < (World.opened
        { w with journal := w.journal.push (.called name args) } j name).context.scopes.size := by
      simp [World.opened]
    refine ⟨_, ⟨rfl, hopened⟩, Keeps.couples_self (q := fun _ => True) ?_, ?_⟩
    · refine (follows_bindArguments hchild hnames args).bind fun _ _ => ?_
      exact henter _ _ _ f _ hchild hbody
    · rintro b _ ⟨rfl, hb⟩
      have hend := hb.tree.endsWith (Context.endsWith_opened hlt name)
      exact ⟨hend, hend, rfl, hcalled.closed hlt hb⟩

variable [DiceSource σ]

theorem follows_callBuiltin (name : String) (args : List Value) :
    Keeps (Follows past events a) (callBuiltin name args) fun _ => True := by
  have hprint (line : String) : Keeps (Follows past events a) (World.printLine line) fun _ => True :=
    keeps_modify fun _ hw => hw.congr rfl rfl rfl
  exact (couples_callBuiltin_of (follows_onDice _).couples_self fun line =>
    (hprint line).couples_self).keeps_self

theorem follows_callFunction {enter : Function → Nat → Run σ Outcome}
    (henter : EntersFollowing enter) {s : Nat} (hs : s < a.context.scopes.size) (name : String)
    (args : List Value) :
    Keeps (Follows past events a) (callFunction enter (s : Index) name args) fun _ => True := by
  rw [callFunction_eq]
  refine (follows_ask _).bind fun found ⟨w, hw, hfound⟩ => ?_
  cases found with
  | none => exact follows_callBuiltin name args
  | some f =>
    have hlt : s < w.context.scopes.size := hw.size_eq ▸ hs
    obtain ⟨j, hj, hscope, t, ht, hmem⟩ := hw.tidy.selfContained_all.function? hlt hfound
    obtain ⟨-, -, -, hparameters, hbody⟩ := (hw.tidy.scope j t ht).tidy name _ hmem
    exact follows_invoke henter (hw.size_eq ▸ hj) hscope hparameters hbody name args

/-- Everything that an evaluation asks of a world leads to a world that follows it. -/
theorem alike_follows {enter : Function → Nat → Run σ Outcome} (henter : EntersFollowing enter)
    {s : Nat} (hs : s < a.context.scopes.size) :
    Expr.Alike (fun w w' => w = w' ∧ Follows past events a w) Expr.Named (callFunction enter)
      (callFunction enter) (s : Index) where
  value _ := (follows_ask _).couples_self
  callable _ := (follows_ask _).couples_self
  call name args := (follows_callFunction henter hs name args).couples_self
  assign _ v hn := (follows_setVariable hs hn v).couples_self
  define _ _ _ hhead hbody := (follows_defineFunction hs hhead hbody).couples_self
  unary _ _ := (follows_onDice _).couples_self
  binary _ _ _ := (follows_onDice _).couples_self
  test _ := (follows_onDice _).couples_self

theorem follows_evalWithin (level : Nat) {s : Nat} (hs : s < a.context.scopes.size) {e : Expr}
    (he : e.All Expr.Named) :
    Keeps (Follows past events a) (evalWithin level (s : Index) e) fun _ => True := by
  induction level generalizing past events a s e with
  | zero =>
    have henter : EntersFollowing (σ := σ) fun f _ => throw (.callDepth f.name) :=
      fun _ _ _ _ _ _ _ => keeps_throw _
    exact (Expr.couples_evalWith (alike_follows henter hs) he).keeps_self
  | succ level ih =>
    have henter : EntersFollowing (σ := σ) fun f child => evalWithin level child f.body :=
      fun _ _ _ _ _ hchild hbody => ih hchild hbody
    exact (Expr.couples_evalWith (alike_follows henter hs) he).keeps_self

/-- An evaluation in a tidy world whose functions are recent leads to another one, and forgets no
name of the root scope. -/
theorem follows_evalArena (htidy : w.context.Tidy) (hrecent : w.Recent past) {s : Nat}
    (hs : s < w.context.scopes.size) {tree : Arena}
    (htree : ∀ e, tree.expr? = some e → e.All Expr.Named) :
    Follows past w.journal.toList w (evalArena tree (s : Index) w).2 := by
  have hstart := Follows.refl htidy hrecent
  unfold evalArena
  cases he : tree.expr? with
  | none => exact hstart
  | some e => exact (follows_evalWithin (levelsLeft w) hs (htree e he) w hstart).1

end World

end DiceTome
