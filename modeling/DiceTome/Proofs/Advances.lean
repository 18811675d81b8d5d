import DiceTome.Proofs.Declarations
import DiceTome.Proofs.RootHistory

/-!
# What evaluation never takes back

Whatever an evaluation does to the scopes, it does five things to its world at most: it changes the
context, draws from the dice, counts a declaration, prints a line and enters an event into the
journal. What all of these leave true is true behind the evaluation, whether it fails or not. So the
dice only go on, the count and the journal only grow, and nothing that has been printed is lost.

* `World.Lasting`: invariants that nothing of this breaks.
* `World.Lasting.keeps_evalArena` and `World.Lasting.evalTome`: evaluations keep such invariants.
* `World.Advances` is how far a world has come on its way from another one; `World.advances_evalTome`
  says that a tome brings it forward.
-/

namespace DiceTome

open Step

variable {σ : Type}

theorem Step.keeps_throw_bind {inv : s → Prop} (err : EvalError) {f : α → Step s β} :
    Keeps inv (throw err >>= f) fun _ => True :=
  fun _ hst => ⟨hst, nofun⟩

/-- The second state of the source comes from the first one by drawing dice. -/
inductive DiceSource.Leads [DiceSource σ] : σ → σ → Prop
  | refl (dice : σ) : Leads dice dice
  | draw {a b : σ} (h : Leads a b) (die : Int) : Leads a (DiceSource.draw die b).2

theorem DiceSource.Leads.trans [DiceSource σ] {a b c : σ} (h : Leads a b) (h' : Leads b c) :
    Leads a c := by
  induction h' with
  | refl => exact h
  | draw _ die ih => exact .draw ih die

namespace World

variable [DiceSource σ]

/-! ## Lasting invariants -/

/-- The invariant says nothing about the context, and holds on when a die is thrown, a declaration
counted, a line printed or an event recorded. -/
structure Lasting (inv : World σ → Prop) : Prop where
  context : ∀ w context, inv w → inv { w with context }
  draw : ∀ w die, inv w → inv { w with dice := (DiceSource.draw die w.dice).2 }
  declare : ∀ w, inv w → inv { w with declared := w.declared + 1 }
  print : ∀ w line, inv w → inv { w with output := w.output ++ line ++ "\n" }
  record : ∀ w e, inv w → inv { w with journal := w.journal.push e }

namespace Lasting

variable {inv : World σ → Prop} (h : Lasting inv)
include h

/-- A step over the dice is one draw after another if it cannot tell apart sources that show the same
faces. -/
theorem keeps_onDice {step : Step σ α}
    (hstep : ∀ D : σ → σ → Prop, DiceSource.Similar D → Couples D step step) :
    Keeps inv (onDice step) fun _ => True := by
  intro w hw
  -- The source is compared with itself, and the relation carries the invariant along.
  let D (a b : σ) : Prop := a = b ∧ inv { w with dice := a }
  have hD : DiceSource.Similar D := by
    rintro die a _ ⟨rfl, ha⟩
    exact ⟨rfl, rfl, h.draw _ die ha⟩
  obtain ⟨-, -, hbehind⟩ := hstep D hD w.dice w.dice ⟨rfl, hw⟩
  exact ⟨hbehind, fun _ _ => trivial⟩

omit [DiceSource σ] h in
theorem keeps_ask (question : Context → Except EvalError α) :
    Keeps inv (ask question) fun _ => True :=
  keeps_get.bind fun _ _ => keeps_ofExcept fun _ _ => trivial

theorem keeps_record (e : Event) : Keeps inv (World.record e) fun _ => True :=
  keeps_modify fun w => h.record w e

theorem keeps_bind (scope : Index) (name : String) (b : Binding) :
    Keeps inv (World.bind scope name b) fun _ => True :=
  keeps_modify fun w => h.context w _

theorem keeps_setVariable (scope : Index) (name : String) (v : Value) :
    Keeps inv (setVariable scope name v) fun _ => True :=
  (keeps_ask _).bind fun _ _ => h.keeps_bind _ _ _

theorem keeps_defineFunction (scope : Index) (callee : String) (body : Expr) (names : List String) :
    Keeps inv (defineFunction scope callee body names) fun _ => True := by
  intro w hw
  rw [defineFunction, run_bind, run_get]
  dsimp only
  rw [run_bind, run_modify]
  refine Keeps.bind (keeps_ask _) (fun _ _ => ?_) _ (h.declare w hw)
  exact (h.keeps_bind _ _ _).bind fun _ _ => h.keeps_record _

/-! ## Scopes -/

theorem keeps_pushScope (parent : Index) (name : String) :
    Keeps inv (pushScope parent name) fun _ => True := by
  refine keeps_get.bind fun w _ => Keeps.bind (keeps_modify fun w => h.context w _) fun _ _ => ?_
  refine (keeps_ask _).bind fun _ _ => (h.keeps_bind _ _ _).bind fun _ _ => ?_
  exact (h.keeps_record _).bind fun _ _ => keeps_pure trivial

theorem keeps_closeInnermost : Keeps inv closeInnermost fun _ => True := by
  refine keeps_get.bind fun w _ => Keeps.bind (keeps_modify fun w => h.context w _) fun _ _ => ?_
  by_cases hstray : innermostIsStray w.context = true
  · simp only [if_pos hstray]
    exact keeps_throw_bind _
  · simp only [if_neg hstray]
    cases w.context.scopes.back? with
    | none => exact keeps_pure trivial
    | some s => exact h.keeps_record _

/-! ## Calls -/

theorem openAlike : OpenAlike fun w w' => w = w' ∧ inv w where
  size_eq := by
    rintro w _ ⟨rfl, -⟩
    rfl
  record e := (h.keeps_record e).couples_self
  bind scope n v := (h.keeps_bind scope n (.value v)).couples_self
  push parent name := (h.keeps_pushScope parent name).couples_self
  close := h.keeps_closeInnermost.couples_self

theorem keeps_callBuiltin (name : String) (args : List Value) :
    Keeps inv (callBuiltin name args) fun _ => True := by
  have hcall : Keeps inv (onDice (Builtin.call name args)) fun _ => True :=
    h.keeps_onDice fun _ hD => Builtin.couples_call hD name args
  have hprint (line : String) : Keeps inv (World.printLine line) fun _ => True :=
    keeps_modify fun w => h.print w line
  exact (couples_callBuiltin_of hcall.couples_self fun line => (hprint line).couples_self).keeps_self

theorem keeps_callFunction {enter : Function → Nat → Run σ Outcome}
    (henter : ∀ f child, Keeps inv (enter f child) fun _ => True) (scope : Index) (name : String)
    (args : List Value) : Keeps inv (callFunction enter scope name args) fun _ => True := by
  rw [callFunction_eq]
  refine (keeps_ask _).bind fun found _ => ?_
  cases found with
  | none => exact h.keeps_callBuiltin name args
  | some f =>
    exact (h.openAlike.invoke rfl rfl (fun child => (henter f child).couples_self) name
      args).keeps_self

/-! ## Evaluations -/

/-- An evaluation asks nothing of its world that breaks the invariant. -/
theorem alike {enter : Function → Nat → Run σ Outcome}
    (henter : ∀ f child, Keeps inv (enter f child) fun _ => True) (scope : Index) :
    Expr.Alike (fun w w' => w = w' ∧ inv w) (fun _ => True) (callFunction enter)
      (callFunction enter) scope where
  value _ := (keeps_ask _).couples_self
  callable _ := (keeps_ask _).couples_self
  call name args := (h.keeps_callFunction henter scope name args).couples_self
  assign name v _ := (h.keeps_setVariable scope name v).couples_self
  define callee names body _ _ := (h.keeps_defineFunction scope callee body names).couples_self
  unary op o :=
    (h.keeps_onDice fun _ hD => couples_alone (Outcome.couples_unary hD op) o).couples_self
  binary op _ _ :=
    (h.keeps_onDice fun _ hD => couples_alone (Outcome.couples_binary hD op) _).couples_self
  test o :=
    (h.keeps_onDice fun _ hD => Outcome.couples_through (Outcome.couples_asBool hD) o).couples_self

theorem keeps_evalWithin (level : Nat) (scope : Index) (e : Expr) :
    Keeps inv (evalWithin level scope e) fun _ => True := by
  have he : ∀ e : Expr, e.All fun _ => True := Expr.All.of_forall fun _ => trivial
  induction level generalizing scope e with
  | zero => exact (Expr.couples_evalWith (h.alike (fun _ _ => keeps_throw _) scope) (he e)).keeps_self
  | succ level ih =>
    exact (Expr.couples_evalWith (h.alike (fun f child => ih child f.body) scope) (he e)).keeps_self

theorem keeps_evalArena (a : Arena) (scope : Index) :
    Keeps inv (evalArena a scope) fun _ => True :=
  (couples_evalArena_of h.openAlike.size_eq fun e _ level =>
    (h.keeps_evalWithin level scope e).couples_self).keeps_self

theorem keeps_evalStatements (statements : List Arena) :
    Keeps inv (evalStatements statements) fun _ => True := by
  induction statements with
  | nil => exact keeps_pure trivial
  | cons a statements ih =>
    refine (h.keeps_evalArena a Context.root).bind fun o _ => ?_
    exact ih.bind fun _ _ => keeps_pure trivial

/-- The invariant holds behind a tome, however far its evaluation has come. -/
theorem evalTome (source : String) {w : World σ} (hw : inv w) :
    inv ((World.evalTome source).run w).2 := by
  cases hparse : parseTome source with
  | error e => rwa [evalTome_of_error hparse]
  | ok statements =>
    have hstatements := (h.keeps_evalStatements statements w hw).1
    rw [evalTome_of_ok hparse]
    cases hrun : evalStatements statements w with
    | mk result w' =>
      rw [hrun] at hstatements
      cases result with
      | error e => exact hstatements
      | ok os => exact h.record w' _ hstatements

end Lasting

/-! ## Worlds that have come further -/

/-- The second world has come further: more dice may have been thrown, more functions declared and
more been written. -/
structure Advances (a w : World σ) : Prop where
  dice : DiceSource.Leads a.dice w.dice
  declared : a.declared ≤ w.declared
  output : ∃ printed, w.output = a.output ++ printed
  journal : a.journal.toList <+: w.journal.toList

theorem Advances.refl (w : World σ) : Advances w w where
  dice := .refl w.dice
  declared := Nat.le_refl _
  output := ⟨"", String.append_empty.symm⟩
  journal := List.prefix_rfl

theorem Advances.trans {a b c : World σ} (h : Advances a b) (h' : Advances b c) : Advances a c where
  dice := h.dice.trans h'.dice
  declared := Nat.le_trans h.declared h'.declared
  output := by
    obtain ⟨printed, hprinted⟩ := h.output
    obtain ⟨printed', hprinted'⟩ := h'.output
    exact ⟨printed ++ printed', by rw [hprinted', hprinted, String.append_assoc]⟩
  journal := h.journal.trans h'.journal

/-- Nothing that happens in an evaluation takes a world back. -/
theorem lasting_advances (a : World σ) : Lasting (Advances a) where
  context _ _ h := ⟨h.dice, h.declared, h.output, h.journal⟩
  draw _ die h := ⟨.draw h.dice die, h.declared, h.output, h.journal⟩
  declare _ h := ⟨h.dice, Nat.le_succ_of_le h.declared, h.output, h.journal⟩
  print w line h := by
    obtain ⟨printed, hprinted⟩ := h.output
    refine ⟨h.dice, h.declared, ⟨printed ++ line ++ "\n", ?_⟩, h.journal⟩
    simp only [hprinted, String.append_assoc]
  record w e h := by
    refine ⟨h.dice, h.declared, h.output, ?_⟩
    rw [Array.toList_push]
    exact h.journal.trans (List.prefix_append _ _)

/-- A tome brings the world forward, also if it fails at one of its statements. -/
theorem advances_evalTome (source : String) (w : World σ) :
    Advances w ((evalTome source).run w).2 :=
  (lasting_advances w).evalTome source (Advances.refl w)

end World

end DiceTome
