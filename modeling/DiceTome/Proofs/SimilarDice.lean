import DiceTome.Proofs.Calls
import DiceTome.Tome

/-!
# Sources of dice that cannot be told apart

An evaluation uses a source of dice only to draw from it. If two sources always show the same faces,
then everything that is done with them gives the same results.

* `DiceSource.Similar`: related states of two sources show the same faces, and are related again
  after a draw.
* `World.Matches`: two worlds are the same but for their dice, which are related.
* `World.couples_evalArena_matches`: evaluations over similar sources give the same result and leave
  worlds behind that match again.
-/

namespace DiceTome

open Step

variable {σ τ : Type}

/-- Related states of two sources of dice show the same faces. -/
def DiceSource.Similar [DiceSource σ] [DiceSource τ] (D : σ → τ → Prop) : Prop :=
  ∀ (die : Int) a b, D a b → (DiceSource.draw die a).1 = (DiceSource.draw die b).1 ∧
    D (DiceSource.draw die a).2 (DiceSource.draw die b).2

/-- States of which one part is the same and the other one is related. -/
def Beside (D : σ → τ → Prop) (a : t × σ) (b : t × τ) : Prop :=
  a.1 = b.1 ∧ D a.2 b.2

/-! ## Parts of a state -/

namespace Step

theorem couples_within {s s' t t' : Type} {R : s → s' → Prop} {R' : t → t' → Prop} {view : s → t}
    {view' : s' → t'} {update : t → s → s} {update' : t' → s' → s'} {x : Step t α} {y : Step t' α}
    (h : Couples R' x y) (hview : ∀ a b, R a b → R' (view a) (view' b))
    (hupdate : ∀ a b, R a b → ∀ p q, R' p q → R (update p a) (update' q b)) :
    Couples R (within view update x) (within view' update' y) := by
  intro a b hab
  obtain ⟨hresult, hrel⟩ := h _ _ (hview a b hab)
  exact ⟨hresult, hupdate a b hab _ _ hrel⟩

variable {D : σ → τ → Prop}

theorem couples_alone {x : Step (t × σ) α} {y : Step (t × τ) α} (h : Couples (Beside D) x y)
    (part : t) : Couples D (alone part x) (alone part y) := by
  intro a b hab
  obtain ⟨hresult, hrel⟩ := h (part, a) (part, b) ⟨rfl, hab⟩
  exact ⟨hresult, hrel.2⟩

theorem couples_get_beside {f : t × σ → Step (t × σ) α} {g : t × τ → Step (t × τ) α}
    (h : ∀ part a b, Couples (Beside D) (f (part, a)) (g (part, b))) :
    Couples (Beside D) (get >>= f) (get >>= g) := by
  refine couples_get_bind fun a b hab => ?_
  obtain ⟨part, a⟩ := a
  obtain ⟨part', b⟩ := b
  obtain ⟨rfl, -⟩ : part = part' ∧ D a b := hab
  exact h part a b

theorem couples_modify_fst (change : t → t) :
    Couples (Beside D) (modify fun st : t × σ => (change st.1, st.2))
      (modify fun st : t × τ => (change st.1, st.2)) :=
  couples_modify fun _ _ hab => ⟨congrArg change hab.1, hab.2⟩

end Step

/-! ## Throwing dice -/

section

open DiceSource (Similar)

variable [DiceSource σ] [DiceSource τ] {D : σ → τ → Prop}

theorem Roll.drawOnto_similar (hD : Similar D) (die : Int) (n : Nat) (faces : List Int)
    {a : σ} {b : τ} (hab : D a b) : (drawOnto die n faces a).1 = (drawOnto die n faces b).1 ∧
      D (drawOnto die n faces a).2 (drawOnto die n faces b).2 := by
  induction n generalizing faces a b with
  | zero => exact ⟨rfl, hab⟩
  | succ n ih =>
    obtain ⟨hface, hrest⟩ := hD die a b hab
    simp only [drawOnto, hface]
    exact ih _ hrest

theorem Roll.couples_throw (hD : Similar D) (r : Roll) : Couples D r.throw r.throw := by
  have hdraw : Couples D (modifyGet (drawFaces r.die r.count.toNat) : Step σ (List Int))
      (modifyGet (drawFaces r.die r.count.toNat)) := by
    intro a b hab
    obtain ⟨hfaces, hrest⟩ := drawOnto_similar hD r.die r.count.toNat [] hab
    exact ⟨congrArg (fun faces => Except.ok (List.reverse faces)) hfaces, hrest⟩
  by_cases hdie : r.die < 1
  · simp only [Roll.throw, if_pos hdie]
    exact couples_throw_bind _
  · by_cases hmany : maxDice < r.count
    · simp only [Roll.throw, if_neg hdie, if_pos hmany]
      exact couples_throw_bind _
    · simp only [Roll.throw, if_neg hdie, if_neg hmany]
      exact hdraw.bind fun _ => couples_pure _

namespace Value

theorem couples_throwLogged (hD : Similar D) (r : Roll) :
    Couples (Beside D) (throwLogged r) (throwLogged r) := by
  have hthrow : Couples (Beside D)
      (within Prod.snd (fun dice st => (st.1, dice)) r.throw : Step (List Rolled × σ) Rolled)
      (within Prod.snd (fun dice st => (st.1, dice)) r.throw) :=
    couples_within (Roll.couples_throw hD r) (fun _ _ h => h.2) fun _ _ h _ _ h' => ⟨h.1, h'⟩
  refine hthrow.bind fun rolled => ?_
  exact (couples_modify_fst (· ++ [rolled])).bind fun _ => couples_pure _

mutual

theorem couples_resolve (hD : Similar D) (deep : Bool) : ∀ v : Value,
    Couples (Beside D) (v.resolve deep) (v.resolve deep)
  | roll r => couples_throwLogged hD r
  | list items => by
    rw [resolve, resolve]
    cases deep with
    | true => exact (couples_resolveAll hD true items).bind fun _ => couples_pure _
    | false => exact couples_pure _
  | bool _ | decimal _ | natural _ | outcome _ | rolls _ | string _ | empty => couples_pure _

theorem couples_resolveAll (hD : Similar D) (deep : Bool) : ∀ vs : List Value,
    Couples (Beside D) (resolveAll deep vs) (resolveAll deep vs)
  | [] => couples_pure _
  | v :: vs => by
    rw [resolveAll, resolveAll]
    refine (couples_resolve hD deep v).bind fun x => ?_
    exact (couples_resolveAll hD deep vs).bind fun _ => couples_pure _

end

end Value

/-! ## Operators -/

namespace Outcome

theorem couples_resolve (hD : Similar D) (deep : Bool) :
    Couples (Beside D) (resolve deep) (resolve deep) := by
  refine couples_get_beside fun o _ _ => ?_
  refine Couples.bind (couples_within (Value.couples_resolve hD deep o.value) ?_ ?_) fun value => ?_
  · exact fun _ _ h => ⟨congrArg Outcome.rolls h.1, h.2⟩
  · exact fun _ _ h p q h' => ⟨by simp only [h.1, h'.1], h'.2⟩
  · exact (couples_modify_fst fun o : Outcome => { o with value }).bind fun _ => couples_pure _

theorem couples_asDecimal (hD : Similar D) : Couples (Beside D) asDecimal asDecimal :=
  (couples_resolve hD true).bind fun _ => couples_ofExcept _

theorem couples_asNatural (hD : Similar D) : Couples (Beside D) asNatural asNatural :=
  (couples_resolve hD true).bind fun _ => couples_ofExcept _

theorem couples_asBool (hD : Similar D) : Couples (Beside D) asBool asBool :=
  (couples_resolve hD false).bind fun _ => couples_ofExcept _

theorem couples_asString (hD : Similar D) : Couples (Beside D) asString asString :=
  (couples_resolve hD false).bind fun _ => couples_pure _

theorem couples_faces (hD : Similar D) : Couples (Beside D) faces faces :=
  (couples_resolve hD false).bind fun _ => couples_ofExcept _

omit [DiceSource σ] [DiceSource τ] in
theorem couples_through {x : Step (Outcome × σ) α} {y : Step (Outcome × τ) α}
    (h : Couples (Beside D) x y) (o : Outcome) : Couples D (o.through x) (o.through y) := by
  intro a b hab
  obtain ⟨hresult, hrest⟩ := h (o, a) (o, b) ⟨rfl, hab⟩
  simp only [through, ExceptT.run]
  cases hx : x (o, a) with
  | mk result st =>
    cases hy : y (o, b) with
    | mk result' st' =>
      rw [hx, hy] at hresult hrest
      obtain ⟨o₁, d₁⟩ := st
      obtain ⟨o₂, d₂⟩ := st'
      obtain ⟨rfl, hd⟩ : o₁ = o₂ ∧ D d₁ d₂ := hrest
      dsimp only at hresult
      subst hresult
      cases result <;> exact ⟨rfl, hd⟩

theorem couples_resolved (hD : Similar D) (o : Outcome) : Couples D o.resolved o.resolved :=
  (couples_through (couples_resolve hD false) o).bind fun _ => couples_pure _

omit [DiceSource σ] [DiceSource τ] in
theorem couples_carry (v : Value) :
    Couples (Beside D) (carry v : Step (Outcome × σ) Outcome) (carry v) :=
  couples_get_beside fun _ _ _ => couples_pure _

omit [DiceSource σ] [DiceSource τ] in
theorem couples_flagged (set : Roll → Roll) :
    Couples (Beside D) (flagged set : Step (Outcome × σ) Outcome) (flagged set) := by
  refine couples_get_beside fun o _ _ => ?_
  dsimp only
  cases o.value with
  | roll r => exact couples_carry _
  | _ => exact couples_throw _

theorem couples_unary (hD : Similar D) (op : UnaryOp) :
    Couples (Beside D) (unary op) (unary op) := by
  cases op with
  | neg => exact (couples_asDecimal hD).bind fun _ => couples_carry _
  | not => exact (couples_asBool hD).bind fun _ => couples_carry _
  | sort => exact (couples_faces hD).bind fun _ => couples_carry _
  | advantage => exact couples_flagged _
  | disadvantage => exact couples_flagged _

omit [DiceSource σ] [DiceSource τ] in
theorem couples_onLeft {x : Step (Outcome × σ) α} {y : Step (Outcome × τ) α}
    (h : Couples (Beside D) x y) : Couples (Beside D) (Operands.onLeft x) (Operands.onLeft y) :=
  couples_within h (fun _ _ h => ⟨congrArg Operands.left h.1, h.2⟩)
    fun _ _ h _ _ h' => ⟨by simp only [h.1, h'.1], h'.2⟩

omit [DiceSource σ] [DiceSource τ] in
theorem couples_onRight {x : Step (Outcome × σ) α} {y : Step (Outcome × τ) α}
    (h : Couples (Beside D) x y) : Couples (Beside D) (Operands.onRight x) (Operands.onRight y) :=
  couples_within h (fun _ _ h => ⟨congrArg Operands.right h.1, h.2⟩)
    fun _ _ h _ _ h' => ⟨by simp only [h.1, h'.1], h'.2⟩

omit [DiceSource σ] [DiceSource τ] in
theorem couples_merge (v : Value) :
    Couples (Beside D) (Operands.merge v : Step (Operands × σ) Outcome) (Operands.merge v) :=
  couples_get_beside fun _ _ _ => couples_pure _

theorem couples_arithmetic (hD : Similar D) (op : BinaryOp) (f : Float → Float → Float) :
    Couples (Beside D) (arithmetic op f) (arithmetic op f) :=
  (couples_onLeft (couples_asDecimal hD)).bind fun _ =>
    (couples_onRight (couples_asDecimal hD)).bind fun _ =>
      (couples_ofExcept _).bind fun _ => couples_merge _

theorem couples_compare (hD : Similar D) (f : Float → Float → Bool) :
    Couples (Beside D) (compare f) (compare f) :=
  (couples_onLeft (couples_asDecimal hD)).bind fun _ =>
    (couples_onRight (couples_asDecimal hD)).bind fun _ => couples_merge _

theorem couples_connective (hD : Similar D) (f : Bool → Bool → Bool) :
    Couples (Beside D) (connective f) (connective f) :=
  (couples_onLeft (couples_asBool hD)).bind fun _ =>
    (couples_onRight (couples_asBool hD)).bind fun _ => couples_merge _

theorem couples_concat (hD : Similar D) : Couples (Beside D) concat concat :=
  (couples_onLeft (couples_asString hD)).bind fun _ =>
    (couples_onRight (couples_asString hD)).bind fun _ => couples_merge _

theorem couples_keep (hD : Similar D) : Couples (Beside D) keep keep :=
  (couples_onLeft (couples_faces hD)).bind fun _ =>
    (couples_onRight (couples_asNatural hD)).bind fun _ => couples_merge _

omit [DiceSource σ] [DiceSource τ] in
theorem couples_same : Couples (Beside D) (same : Step (Operands × σ) Outcome) same :=
  couples_get_beside fun _ _ _ => (couples_ofExcept _).bind fun _ => couples_merge _

theorem couples_binary (hD : Similar D) (op : BinaryOp) :
    Couples (Beside D) (binary op) (binary op) := by
  unfold binary
  cases op with
  | add =>
    refine couples_get_beside fun operands _ _ => ?_
    dsimp only
    split
    · exact couples_concat hD
    · exact couples_arithmetic hD _ _
  | sub | mul | div | pow => exact couples_arithmetic hD _ _
  | and | or => exact couples_connective hD _
  | equal => exact couples_same
  | greater | less | greaterEqual | lessEqual => exact couples_compare hD _
  | keep => exact couples_keep hD
  | discard | assign => exact couples_get_beside fun _ _ _ => couples_merge _

end Outcome

/-! ## Builtin functions -/

namespace Builtin

open Outcome

theorem couples_rounding (hD : Similar D) (round : Float → Except EvalError Int) (o : Outcome) :
    Couples D (rounding round o) (rounding round o) :=
  (couples_through (couples_asDecimal hD) o).bind fun _ =>
    (couples_ofExcept _).bind fun _ => couples_pure _

theorem couples_decimalsOf (hD : Similar D) (os : List Outcome) :
    Couples D (decimalsOf os) (decimalsOf os) := by
  induction os with
  | nil => exact couples_pure _
  | cons o os ih =>
    exact (couples_through (couples_asDecimal hD) o).bind fun _ => ih.bind fun _ => couples_pure _

theorem couples_stringsOf (hD : Similar D) (os : List Outcome) :
    Couples D (stringsOf os) (stringsOf os) := by
  induction os with
  | nil => exact couples_pure _
  | cons o os ih =>
    exact (couples_through (couples_asString hD) o).bind fun _ => ih.bind fun _ => couples_pure _

theorem couples_resolveLone (hD : Similar D) (args : List Outcome) :
    Couples D (resolveLone args) (resolveLone args) := by
  rcases args with _ | ⟨o, _ | ⟨_, _⟩⟩
  · exact couples_pure _
  · exact (couples_through (couples_resolve hD true) o).bind fun _ => couples_pure _
  · exact couples_pure _

theorem couples_extreme (hD : Similar D) (better : Float → Float → Bool) (args : List Outcome) :
    Couples D (extreme better args) (extreme better args) := by
  refine (couples_resolveLone hD args).bind fun args => (couples_ofExcept _).bind fun items => ?_
  cases items with
  | none => exact (couples_decimalsOf hD _).bind fun _ => couples_pure _
  | some items => exact (couples_decimalsOf hD _).bind fun _ => couples_pure _

theorem couples_run (hD : Similar D) (f : Builtin) (args : List Outcome) :
    Couples D (f.run args) (f.run args) := by
  have hitems : ∀ o : Outcome, Couples D (o.through resolve) (o.through resolve) :=
    couples_through (couples_resolve hD false)
  have hindex : ∀ o : Outcome, Couples D (o.through asNatural) (o.through asNatural) :=
    couples_through (couples_asNatural hD)
  unfold run
  split
  · exact couples_rounding hD _ _
  · exact couples_rounding hD _ _
  · exact couples_rounding hD _ _
  · split
    · exact couples_pure _
    · exact (couples_through (couples_asDecimal hD) _).bind fun _ => couples_pure _
  · exact couples_extreme hD _ _
  · exact couples_extreme hD _ _
  · exact (couples_ofExcept _).bind fun _ => couples_pure _
  · exact (couples_ofExcept _).bind fun _ => couples_pure _
  · refine (hitems _).bind fun r => ?_
    obtain ⟨v, x⟩ := r
    cases v with
    | string s => exact couples_pure _
    | _ => exact (couples_ofExcept _).bind fun _ => couples_pure _
  · exact (hitems _).bind fun _ => (couples_ofExcept _).bind fun _ => (hindex _).bind fun _ =>
      (couples_ofExcept _).bind fun _ => couples_pure _
  · exact (hitems _).bind fun _ => (couples_ofExcept _).bind fun _ => (hindex _).bind fun _ =>
      (couples_ofExcept _).bind fun _ => couples_pure _
  · exact (couples_stringsOf hD _).bind fun _ => couples_pure _
  · exact couples_throw _

theorem couples_call (hD : Similar D) (name : String) (args : List Value) :
    Couples D (call name args) (call name args) := by
  unfold call
  split
  · exact couples_throw _
  · split
    · exact (couples_run hD _ _).bind fun _ => couples_pure _
    · exact couples_throw _

end Builtin

end

/-! ## Worlds -/

/-- The worlds are the same but for their dice, which are related. -/
structure World.Matches (D : σ → τ → Prop) (w : World σ) (w' : World τ) : Prop where
  context : w.context = w'.context
  declared : w.declared = w'.declared
  output : w.output = w'.output
  journal : w.journal = w'.journal
  dice : D w.dice w'.dice

namespace World

variable {D : σ → τ → Prop}

theorem couples_ask_matches (question : Context → Except EvalError α) :
    Couples (Matches D) (ask question) (ask question) :=
  couples_ask fun _ _ h => congrArg question h.context

theorem couples_onDice_matches {x : Step σ α} {y : Step τ α} (h : Couples D x y) :
    Couples (Matches D) (onDice x) (onDice y) :=
  couples_within h (fun _ _ h => h.dice) fun _ _ h _ _ h' => { h with dice := h' }

theorem couples_record_matches (e : Event) : Couples (Matches D) (record e) (record e) :=
  couples_modify fun _ _ h => { h with journal := congrArg (·.push e) h.journal }

theorem couples_printLine_matches (line : String) :
    Couples (Matches D) (printLine line) (printLine line) :=
  couples_modify fun _ _ h => { h with output := congrArg (· ++ line ++ "\n") h.output }

theorem couples_bind_matches (scope : Index) (name : String) (b : Binding) :
    Couples (Matches D) (bind scope name b) (bind scope name b) :=
  couples_modify fun _ _ h => { h with context := congrArg (·.bind scope name b) h.context }

theorem couples_setVariable_matches (scope : Index) (n : String) (v : Value) :
    Couples (Matches D) (setVariable scope n v) (setVariable scope n v) :=
  (couples_ask_matches _).bind fun _ => couples_bind_matches _ _ _

theorem couples_defineFunction_matches (scope : Index) (callee : String) (body : Expr)
    (names : List String) :
    Couples (Matches D) (defineFunction scope callee body names)
      (defineFunction scope callee body names) := by
  refine couples_get_bind fun a b hab => ?_
  rw [hab.declared]
  refine (couples_modify fun _ _ h => { h with declared := rfl }).bind fun _ => ?_
  refine (couples_ask_matches _).bind fun _ => (couples_bind_matches _ _ _).bind fun _ => ?_
  exact couples_record_matches _

theorem couples_pushScope_matches (parent : Index) (name : String) :
    Couples (Matches D) (pushScope parent name) (pushScope parent name) := by
  refine couples_get_bind fun a b hab => ?_
  rw [hab.context]
  refine (couples_modify fun a b h => ?_).bind fun _ => ?_
  · exact { h with context := by simp only [h.context] }
  refine (couples_ask_matches _).bind fun _ => (couples_bind_matches _ _ _).bind fun _ => ?_
  exact (couples_record_matches _).bind fun _ => couples_pure _

theorem couples_closeInnermost_matches :
    Couples (Matches D) (closeInnermost : Run σ Unit) closeInnermost := by
  refine couples_get_bind fun a b hab => ?_
  rw [hab.context]
  refine (couples_modify fun _ _ h =>
    { h with context := congrArg dropInnermost h.context }).bind fun _ => ?_
  by_cases hstray : innermostIsStray b.context = true
  · simp only [if_pos hstray]
    exact couples_throw_bind _
  · simp only [if_neg hstray]
    cases b.context.scopes.back? with
    | none => exact couples_pure _
    | some s => exact couples_record_matches _

theorem openAlike_matches : OpenAlike (Matches D) where
  size_eq _ _ h := by rw [h.context]
  record := couples_record_matches
  bind _ _ _ := couples_bind_matches _ _ _
  push := couples_pushScope_matches
  close := couples_closeInnermost_matches

open DiceSource (Similar)

variable [DiceSource σ] [DiceSource τ]

theorem couples_callBuiltin_matches (hD : Similar D) (name : String) (args : List Value) :
    Couples (Matches D) (callBuiltin name args) (callBuiltin name args) :=
  couples_callBuiltin_of (couples_onDice_matches (Builtin.couples_call hD name args))
    couples_printLine_matches

theorem alike_callFunction_matches (hD : Similar D) {enter : Function → Nat → Run σ Outcome}
    {enter' : Function → Nat → Run τ Outcome}
    (henter : ∀ f child, Couples (Matches D) (enter f child) (enter' f child)) (scope : Index) :
    Expr.Alike (Matches D) (fun _ => True) (callFunction enter) (callFunction enter') scope where
  value _ := couples_ask_matches _
  callable _ := couples_ask_matches _
  call name args := by
    rw [callFunction_eq, callFunction_eq]
    refine (couples_ask_matches _).bind fun found => ?_
    cases found with
    | none => exact couples_callBuiltin_matches hD name args
    | some f => exact openAlike_matches.invoke rfl rfl (henter f) name args
  assign n v _ := couples_setVariable_matches scope n v
  define callee names body _ _ := couples_defineFunction_matches scope callee body names
  unary op o := couples_onDice_matches (couples_alone (Outcome.couples_unary hD op) o)
  binary op _ _ := couples_onDice_matches (couples_alone (Outcome.couples_binary hD op) _)
  test o := couples_onDice_matches (Outcome.couples_through (Outcome.couples_asBool hD) o)

theorem couples_evalWithin_matches (hD : Similar D) (level : Nat) (scope : Index) (e : Expr) :
    Couples (Matches D) (evalWithin level scope e) (evalWithin level scope e) := by
  have he : ∀ e : Expr, e.All fun _ => True := Expr.All.of_forall fun _ => trivial
  induction level generalizing scope e with
  | zero =>
    exact Expr.couples_evalWith
      (alike_callFunction_matches hD (fun _ _ => couples_throw _) scope) (he e)
  | succ level ih =>
    exact Expr.couples_evalWith
      (alike_callFunction_matches hD (fun f child => ih child f.body) scope) (he e)

/-- Evaluations over sources of dice that cannot be told apart give the same result. -/
theorem couples_evalArena_matches (hD : Similar D) (a : Arena) (scope : Index) :
    Couples (Matches D) (evalArena a scope) (evalArena a scope) :=
  couples_evalArena_of (fun _ _ h => by rw [h.context]) fun e _ level =>
    couples_evalWithin_matches hD level scope e

end World

end DiceTome
