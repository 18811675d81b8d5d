import DiceTome.Dice.Scripted
import DiceTome.Proofs.LineByLine
import DiceTome.Proofs.Reload
import DiceTome.Proofs.RootHistory

/-!
# The lines of a written context

A context is written with its functions first and its variables behind them. Which of them was
defined before which is not part of a context, but it can be told from the statements that made it.

* `World.Lived`: the worlds that statements lead to from an empty context, with the functions that
  were defined on the way and the names in the order in which they were first bound.
* `World.Lived.evalSource` and `World.Lived.evalTome`: texts lead to such worlds.
* `World.Settled.functions_eq` and `Scope.Tidy.values_eq`: functions and variables are listed in the
  order of their history.
* `World.Lived.dump_in_order`: the tome is parsed line by line, and its lines are in this order.
-/

namespace DiceTome

open Step World Token
open Context (variableLine)

/-! ## Lived worlds -/

/-- A statement of some tome. -/
def IsStatement (a : Arena) : Prop :=
  ∃ text as, parseTome text = .ok as ∧ a ∈ as

/-- What evaluating statements one after another makes of an empty context, whether they fail or
not. Between two statements everything but the context may change, and functions may be declared in
other contexts.

The first list has the functions that have been defined in the root scope, as the journal tells of
them. The second list has the names of the root scope; those that a statement binds for the first
time stand behind those that were bound before. -/
inductive World.Lived : {σ : Type} → World σ → List Function → List String → Prop
  | start {σ : Type} {w : World σ} (hcontext : w.context = {}) : Lived w [] []
  | meanwhile {σ τ : Type} {w : World σ} {w' : World τ} {defined : List Function}
    {bound : List String} (h : Lived w defined bound) (hcontext : w'.context = w.context)
    (hdeclared : w.declared ≤ w'.declared) : Lived w' defined bound
  | statement {σ : Type} [DiceSource σ] {w : World σ} {defined : List Function}
    {bound : List String} (h : Lived w defined bound) {a : Arena} (ha : IsStatement a) :
    Lived ((evalArena a).run w).2
      (defined ++ ((evalArena a).run w).2.definedSince w.journal.size)
      (bound ++ ((evalArena a).run w).2.context.rootScope.names.filter fun n => n ∉ bound)

theorem Expr.named_of_parsed {e : Expr} (h : e.Parsed) : e.Named := by
  cases e with
  | name n | call n _ => exact h.1
  | _ => trivial

/-- What statements are made of. -/
theorem IsStatement.parsed {a : Arena} (h : IsStatement a) :
    ∃ e : Expr, a = e.plant {} ∧ e.All Expr.Parsed := by
  obtain ⟨text, as, hparse, ha⟩ := h
  obtain ⟨kinds, es, hkinds, hes, rfl⟩ := parseTome_eq_ok_iff.mp hparse
  obtain ⟨e, he, rfl⟩ := List.mem_map.mp ha
  exact ⟨e, rfl, Expr.parsed_of_statements hkinds hes e he⟩

/-- What is parsed as one expression is a tome of one statement. -/
theorem isStatement_of_parseSource {text : String} {a : Arena} (h : parseSource text = .ok a) :
    IsStatement a := by
  obtain ⟨kinds, e, hkinds, he, rfl⟩ := parseSource_eq_ok_iff.mp h
  have hlevel : Climb.level 0 (kinds ++ []) = some (e, []) := Climb.level_append he nofun
  rw [List.append_nil] at hlevel
  have hne : kinds ≠ [] := by
    rintro rfl
    simp [Climb.parse] at he
  have hone : Climb.statements kinds = some [e] := by
    rw [Climb.statements_eq hne, hlevel, Option.bind_some, Climb.statements_nil]
    rfl
  exact ⟨text, _, parseTome_eq_ok_iff.mpr ⟨kinds, [e], hkinds, hone, rfl⟩,
    List.mem_singleton_self _⟩

namespace World

/-- What is known of a lived world in which some functions have been defined. -/
structure Settled (defined : List Function) (w : World σ) : Prop where
  tidy : w.context.Tidy
  lawful : w.context.Lawful Expr.Parsed
  recent : w.Recent defined

variable {σ : Type} {w : World σ} {defined : List Function} {bound : List String}

theorem Settled.size_pos (h : w.Settled defined) : 0 < w.context.scopes.size := by
  obtain ⟨s, hs, -⟩ := h.tidy.tree.root
  exact (Array.getElem?_eq_some_iff.mp hs).1

theorem evalArena_plant [DiceSource σ] (e : Expr) (scope : Index) :
    (evalArena (e.plant {}) scope : Run σ Outcome) = eval e scope := by
  rw [evalArena, Arena.expr?_plant]

/-- A statement keeps a world settled, and forgets no name of the root scope and no event. -/
theorem Settled.evalArena [DiceSource σ] (h : w.Settled defined) {a : Arena} (ha : IsStatement a) :
    ((evalArena a).run w).2.Settled
        (defined ++ ((World.evalArena a).run w).2.definedSince w.journal.size) ∧
      w.context.rootScope.names <+: ((World.evalArena a).run w).2.context.rootScope.names ∧
      w.journal.toList <+: ((World.evalArena a).run w).2.journal.toList := by
  obtain ⟨e, rfl, he⟩ := ha.parsed
  have hnamed : ∀ e', (e.plant {}).expr? = some e' → e'.All Expr.Named := by
    intro e' he'
    rw [Arena.expr?_plant] at he'
    cases he'
    exact he.imp fun _ => Expr.named_of_parsed
  have hfollows : Follows defined w.journal.toList w ((World.evalArena (e.plant {})).run w).2 :=
    follows_evalArena h.tidy h.recent h.size_pos hnamed
  refine ⟨⟨hfollows.tidy, ?_, hfollows.recent⟩, hfollows.names, hfollows.journal⟩
  rw [evalArena_plant]
  exact (keeps_eval (fun _ => Expr.sound_literal) Context.root he w h.lawful).1

/-- What is new in a longer list without repetitions. -/
theorem append_filter_new {xs ys : List String} (h : xs <+: ys) (hnodup : ys.Nodup) :
    xs ++ ys.filter (fun n => n ∉ xs) = ys := by
  obtain ⟨new, rfl⟩ := h
  have hnew := (List.nodup_append.mp hnodup).2.2
  have hold : xs.filter (fun n => n ∉ xs) = [] := by
    simp
  have hall : new.filter (fun n => n ∉ xs) = new := by
    refine List.filter_eq_self.mpr fun n hn => ?_
    rw [decide_eq_true_iff]
    exact fun hmem => hnew n hmem n hn rfl
  rw [List.filter_append, hold, hall, List.nil_append]

/-- The root scope has its names in the order in which they were first bound. -/
theorem Lived.settled (h : w.Lived defined bound) :
    w.Settled defined ∧ w.context.rootScope.names = bound := by
  induction h with
  | @start σ w hcontext =>
    refine ⟨⟨hcontext ▸ Context.tidy_empty, hcontext ▸ Context.lawful_empty, .nil, nofun, ?_⟩, ?_⟩
    · rw [hcontext]
      exact nofun
    · rw [hcontext]
      rfl
  | @meanwhile σ τ w w' defined bound _ hcontext hdeclared ih =>
    obtain ⟨⟨htidy, hlawful, hrecent⟩, hnames⟩ := ih
    rw [← hcontext] at htidy hlawful hnames
    exact ⟨⟨htidy, hlawful, hrecent.of_find? hdeclared fun _ _ hf => hcontext ▸ hf⟩, hnames⟩
  | @statement σ _ w defined bound _ a ha ih =>
    obtain ⟨hsettled, rfl⟩ := ih
    obtain ⟨hafter, hprefix, -⟩ := hsettled.evalArena ha
    refine ⟨hafter, (append_filter_new hprefix ?_).symm⟩
    exact hafter.tidy.rootScope.nodup.filter _

/-! ## Texts -/

/-- The second world is what some texts make of the first: it has lived through what the journal
tells of since then. -/
structure Outlives (w' w : World σ) (defined : List Function) : Prop where
  journal : w.journal.toList <+: w'.journal.toList
  lived : w'.Lived (defined ++ w'.definedSince w.journal.size) w'.context.rootScope.names

theorem Lived.outlives (h : w.Lived defined bound) : w.Outlives w defined := by
  refine ⟨List.prefix_rfl, ?_⟩
  rw [definedSince_size, List.append_nil, h.settled.2]
  exact h

/-- Nothing but the dice, the output and the journal has changed, and no function was defined. -/
theorem Outlives.meanwhile {w' w'' : World σ} (h : w'.Outlives w defined)
    (hcontext : w''.context = w'.context) (hdeclared : w''.declared = w'.declared)
    {e : List Event} (hjournal : w''.journal.toList = w'.journal.toList ++ e)
    (he : e.filterMap Event.rootDefinition? = []) : w''.Outlives w defined := by
  refine ⟨hjournal ▸ h.journal.trans (List.prefix_append _ _), ?_⟩
  have hsame : w''.definedSince w.journal.size = w'.definedSince w.journal.size := by
    have hsize := h.journal.length_le
    rw [Array.length_toList] at hsize
    rw [definedSince, hjournal, List.drop_append_of_le_length hsize, List.filterMap_append, he,
      List.append_nil, definedSince]
  rw [hsame, hcontext]
  exact h.lived.meanwhile hcontext (Nat.le_of_eq hdeclared.symm)

variable [DiceSource σ]

theorem Outlives.statement {w' : World σ} (h : w'.Outlives w defined) {a : Arena}
    (ha : IsStatement a) : ((evalArena a).run w').2.Outlives w defined := by
  obtain ⟨hsettled, -⟩ := h.lived.settled
  obtain ⟨-, -, hjournal⟩ := hsettled.evalArena ha
  have hafter := h.lived.statement ha
  refine ⟨h.journal.trans hjournal, ?_⟩
  have hdefined := definedSince_append h.journal hjournal
  rw [Array.length_toList] at hdefined
  rw [List.append_assoc, hdefined] at hafter
  rw [hafter.settled.2]
  exact hafter

/-- The text of one statement leads to a lived world. -/
theorem Lived.evalSource (h : w.Lived defined bound) (text : String) :
    ((World.evalSource text).run w).2.Outlives w defined := by
  have houtlives : ∀ {tokens a}, scan text = .ok tokens → Arena.parse tokens = .ok a →
      ((evalArena a).run w).2.Outlives w defined := by
    intro tokens a hscan hparse
    have hsource : parseSource text = .ok a := by
      simp only [parseSource, hscan]
      exact congrArg (Except.mapError _) hparse
    exact h.outlives.statement (isStatement_of_parseSource hsource)
  generalize hrun : (World.evalSource text).run w = run
  have hruns := sourceRuns_evalSource text Context.root w
  rw [hrun] at hruns
  obtain ⟨result, w'⟩ := run
  cases hruns with
  | uncut | empty | refused => exact h.outlives
  | failed hscan hparse heval =>
    have hafter := houtlives hscan hparse
    rwa [heval] at hafter
  | thrown hscan _ hparse heval hlast =>
    have hafter := houtlives hscan hparse
    rw [heval] at hafter
    rw [← congrArg Prod.snd hlast]
    exact hafter.meanwhile (e := []) rfl rfl (List.append_nil _).symm rfl

theorem Outlives.evalExprs {w' : World σ} (h : w'.Outlives w defined) {es : List Expr}
    (hes : ∀ e ∈ es, IsStatement (e.plant {})) :
    ((World.evalExprs es).run w').2.Outlives w defined := by
  induction es generalizing w' with
  | nil => exact h
  | cons e es ih =>
    have hafter := h.statement (hes e List.mem_cons_self)
    rw [evalArena_plant] at hafter
    rw [World.evalExprs, ExceptT.run, run_bind]
    cases hrun : eval e Context.root w' with
    | mk result between =>
      rw [ExceptT.run, hrun] at hafter
      cases result with
      | error err => exact hafter
      | ok o =>
        have hlast := ih hafter fun e he => hes e (List.mem_cons_of_mem _ he)
        dsimp only
        rw [run_bind]
        cases hmore : World.evalExprs es between with
        | mk result last =>
          rw [ExceptT.run, hmore] at hlast
          cases result <;> exact hlast

/-- A tome leads to a lived world. -/
theorem Lived.evalTome (h : w.Lived defined bound) (text : String) :
    ((World.evalTome text).run w).2.Outlives w defined := by
  cases hparse : parseTome text with
  | error err =>
    rw [evalTome_of_error hparse]
    exact h.outlives
  | ok as =>
    obtain ⟨kinds, es, -, -, rfl⟩ := parseTome_eq_ok_iff.mp hparse
    have hes : ∀ e ∈ es, IsStatement (e.plant {}) := fun e he =>
      ⟨text, _, hparse, List.mem_map_of_mem he⟩
    have hafter := h.outlives.evalExprs hes
    rw [evalTome_of_parse hparse]
    cases hrun : (World.evalExprs es).run w with
    | mk result w' =>
      rw [hrun] at hafter
      cases result with
      | error err => exact hafter
      | ok os =>
        exact hafter.meanwhile (e := [.evaluated os.length]) rfl rfl (Array.toList_push ..) rfl

end World

/-! ## Functions and variables in order -/

namespace Scope

variable {s : Scope}

/-- What the only binding of a name is found as. -/
theorem find?_of_mem (hnodup : s.keys.Nodup) {n : String} {b : Binding}
    (h : (n, b) ∈ s.bindings) : s.find? n = some b := by
  obtain ⟨before, behind, hsplit⟩ := List.append_of_mem h
  refine List.lookup_eq_some_iff.mpr ⟨before, behind, hsplit, fun p hp => ?_⟩
  rw [keys, hsplit, List.map_append, List.nodup_append] at hnodup
  rw [bne_iff_ne]
  rintro rfl
  exact hnodup.2.2 _ (List.mem_map_of_mem hp) _ List.mem_cons_self rfl

/-- Whether a name is bound to a function in the scope itself. -/
def holdsFunction (s : Scope) (n : String) : Bool :=
  match s.find? n with
  | some (.function _) => true
  | _ => false

theorem holdsFunction_iff {n : String} :
    s.holdsFunction n = true ↔ ∃ f, s.find? n = some (.function f) := by
  unfold holdsFunction
  split
  · rename_i f hf
    exact ⟨fun _ => ⟨f, hf⟩, fun _ => rfl⟩
  · rename_i hnone
    exact ⟨nofun, fun ⟨f, hf⟩ => absurd hf (hnone f)⟩

/-- The variable of a name in the scope itself, if it has a value. -/
def saved? (s : Scope) (n : String) : Option (String × Value) :=
  match s.find? n with
  | some (.value v) => if v.isEmpty then none else some (n, v)
  | _ => none

theorem Tidy.mem_functions_iff (h : s.Tidy j) {f : Function} :
    f ∈ s.functions ↔ s.find? f.name = some (.function f) := by
  rw [mem_functions]
  constructor
  · rintro ⟨n, hmem⟩
    obtain rfl : f.name = n := (h.tidy n _ hmem).2.name_eq
    exact find?_of_mem h.nodup hmem
  · intro hfind
    obtain ⟨before, behind, hsplit, -⟩ := List.lookup_eq_some_iff.mp hfind
    exact ⟨f.name, by simp [hsplit]⟩

/-- The variables of a scope stand in the order of its names. -/
theorem Tidy.values_eq (h : s.Tidy j) :
    (s.values.filter fun p => !p.2.isEmpty) = s.names.filterMap s.saved? := by
  rw [values, names, keys, List.filter_filterMap, List.filterMap_filter, List.filterMap_map]
  refine List.filterMap_congr fun p hp => ?_
  obtain ⟨n, b⟩ := p
  have hfind := find?_of_mem h.nodup hp
  have htidy := h.tidy n b hp
  cases b with
  | value v =>
    have hname : isName n = true := htidy
    simp only [Function.comp_apply, hname, if_true, saved?, hfind, Option.filter]
    by_cases hv : v.isEmpty = true <;> simp [hv]
  | function f => simp [saved?, hfind]
  | child i => simp [saved?, hfind]

end Scope

namespace World

variable {σ : Type} {w : World σ} {defined : List Function} {bound : List String}

/-- The most recent definitions of the names that still stand for functions in the root scope, in
the order in which they were made. -/
def standing (defined : List Function) (w : World σ) : List Function :=
  (Function.latest defined).filter fun f => w.context.rootScope.holdsFunction f.name

theorem standing_sublist : (w.standing defined).Sublist defined :=
  List.filter_sublist.trans Function.latest_sublist

/-- The functions of the root scope are listed in the order of their definitions. -/
theorem Settled.functions_eq (h : w.Settled defined) :
    w.context.rootScope.functions = w.standing defined := by
  have hmem : ∀ f, f ∈ w.context.rootScope.functions ↔ f ∈ w.standing defined := by
    intro f
    rw [h.tidy.rootScope.mem_functions_iff, standing, List.mem_filter, Scope.holdsFunction_iff]
    constructor
    · exact fun hf => ⟨h.recent.latest _ f hf, f, hf⟩
    · rintro ⟨hf, g, hg⟩
      -- there is no other most recent definition of the name
      have hname : g.name = f.name := (h.tidy.rootScope.find? hg).2.name_eq
      have hsame := List.inj_on_of_nodup_map Function.nodup_latest (h.recent.latest _ g hg) hf hname
      rwa [hsame] at hg
  have hnumbers : (defined.map Function.declaration).Nodup :=
    List.pairwise_map.mpr (h.recent.sorted.imp fun hlt => Nat.ne_of_lt hlt)
  have hsorted : (w.context.rootScope.functions).Pairwise
      fun f g => f.declaration ≤ g.declaration := by
    refine (List.pairwise_mergeSort ?_ ?_ _).imp fun hle => of_decide_eq_true hle
    · exact fun f g k hfg hgk => decide_eq_true
        (Nat.le_trans (of_decide_eq_true hfg) (of_decide_eq_true hgk))
    · intro f g
      rw [← Bool.decide_or, decide_eq_true_iff]
      exact Nat.le_total _ _
  have hstanding := h.recent.sorted.sublist (standing_sublist (w := w))
  have hnodup : w.context.rootScope.functions.Nodup :=
    .of_map Function.name (List.nodup_append.mp h.lawful.nodup_names).1
  have hnodup' : (w.standing defined).Nodup :=
    .of_map Function.declaration (hnumbers.sublist (standing_sublist.map Function.declaration))
  -- a list that is sorted by different numbers is determined by its members
  refine List.Perm.eq_of_pairwise (fun f g hf hg hfg hgf => ?_) hsorted
    (hstanding.imp Nat.le_of_lt) ((List.perm_ext_iff_of_nodup hnodup hnodup').mpr hmem)
  have hf' : f ∈ defined := standing_sublist.subset ((hmem f).mp hf)
  exact List.inj_on_of_nodup_map hnumbers hf' (standing_sublist.subset hg) (Nat.le_antisymm hfg hgf)

/-- A tome is written with the functions first, each where it was defined last, and then the
variables that have a value, each where its name was first bound in the root scope. If the lines are
parsed by themselves, the tome is parsed line by line with the same listings. -/
theorem Lived.dump_in_order (h : w.Lived defined bound) :
    w.context.dumpLines =
        (w.standing defined).map Function.render ++
          ((bound.filterMap w.context.rootScope.saved?).map fun p => variableLine p.1 p.2) ∧
      ((∀ line ∈ w.context.dumpLines, ∃ a, parseSource line = .ok a) →
        ∃ as, parseTome w.context.dump = .ok as ∧
          List.Forall₂ (fun line a => parseSource line = .ok a) w.context.dumpLines as) := by
  obtain ⟨hsettled, rfl⟩ := h.settled
  refine ⟨?_, fun hlines => ?_⟩
  · rw [← hsettled.functions_eq, ← hsettled.tidy.rootScope.values_eq]
    rfl
  · obtain ⟨as, has⟩ := exists_parses hlines
    exact ⟨as, parseTome_joinLines has hsettled.lawful.named_dumpLines, has⟩

/-- A world in which a function and a variable have been defined again. -/
def redefined : World ScriptedDice :=
  ((World.evalTome
    "b = 1\nf(x) = b\na = 2\ng() = if a then b\nf(x) = x\nb = 3").run { dice := {} }).2

theorem lived_redefined : redefined.Lived (redefined.definedSince 0) ["b", "f", "a", "g"] := by
  have hstart : Lived ({ dice := {} } : World ScriptedDice) [] [] := .start rfl
  have hnames : redefined.context.rootScope.names = ["b", "f", "a", "g"] := by
    decide +kernel
  rw [← hnames]
  exact (hstart.evalTome "b = 1\nf(x) = b\na = 2\ng() = if a then b\nf(x) = x\nb = 3").lived

/-- The function that was defined again is the last one; the variable keeps its place. Behind the
first line the parser still waits for an alternative. -/
theorem dump_in_order_redefined :
    redefined.Lived (redefined.definedSince 0) ["b", "f", "a", "g"] ∧
      (redefined.definedSince 0).map Function.render =
        ["f(x) = b", "g() = if a then b", "f(x) = x"] ∧
      redefined.context.dumpLines = ["g() = if a then b", "f(x) = x", "b = 3", "a = 2"] ∧
      (∀ line ∈ redefined.context.dumpLines, ∃ a, parseSource line = .ok a) ∧
      ∃ as, parseTome redefined.context.dump = .ok as ∧
        List.Forall₂ (fun line a => parseSource line = .ok a) redefined.context.dumpLines as := by
  obtain ⟨horder, hparse⟩ := lived_redefined.dump_in_order
  have hlines : redefined.context.dumpLines =
      ["g() = if a then b", "f(x) = x", "b = 3", "a = 2"] := by
    rw [horder]
    decide +kernel
  have haccepted : ∀ line ∈ redefined.context.dumpLines, ∃ a, parseSource line = .ok a := by
    have hok : ∀ line ∈ ["g() = if a then b", "f(x) = x", "b = 3", "a = 2"],
        (parseSource line).isOk = true := by
      decide +kernel
    intro line hline
    have hline := hok line (hlines ▸ hline)
    cases hread : parseSource line with
    | ok a => exact ⟨a, rfl⟩
    | error err =>
      rw [hread] at hline
      cases hline
  exact ⟨lived_redefined, by decide +kernel, hlines, haccepted, hparse haccepted⟩

end World

end DiceTome
