import DiceTome.Step

/-!
# What steps keep

A step over a state may fail, and keeps what it has done to the state when it does. An invariant of
the states is therefore shown for both ends of a step.

* `Step.run_bind` is what two steps one after another do.
* `Step.Keeps`: the step keeps an invariant, whether it fails or not, and a result that it gives has
  a property.
* `Step.Ends`: what a step leaves behind if it succeeds.
* `Step.Couples`: two steps give the same result on related states and leave related states behind.
-/

namespace DiceTome.Step

/-- Two computations one after another. -/
theorem run_bind (x : ExceptT ε (StateM s) α) (f : α → ExceptT ε (StateM s) β) (st : s) :
    (x >>= f) st =
      match x st with
      | (.ok a, st) => f a st
      | (.error e, st) => (.error e, st) := by
  show (ExceptT.bindCont f (x st).1) (x st).2 = _
  cases x st with
  | mk result st => cases result <;> rfl

theorem run_get (st : s) : (get : Step s s) st = (.ok st, st) := rfl

theorem run_modify (change : s → s) (st : s) :
    (modify change : Step s Unit) st = (.ok (), change st) := rfl

theorem run_pure (a : α) (st : s) : (pure a : Step s α) st = (.ok a, st) := rfl

theorem run_andThen (last : Step s Unit) (step : Step s α) (st : s) :
    andThen last step st =
      match last (step st).2 with
      | (.ok _, st') => ((step st).1, st')
      | (.error e, st') => (.error e, st') := rfl

/-- The step keeps the invariant, and a result that it gives satisfies `q`. -/
def Keeps (inv : s → Prop) (step : Step s α) (q : α → Prop) : Prop :=
  ∀ st, inv st → inv (step st).2 ∧ ∀ a, (step st).1 = .ok a → q a

variable {inv : s → Prop} {q : α → Prop} {r : β → Prop}

theorem keeps_pure {a : α} (h : q a) : Keeps inv (pure a) q := by
  intro st hst
  refine ⟨hst, ?_⟩
  rintro _ ⟨⟩
  exact h

theorem keeps_throw (err : EvalError) : Keeps inv (throw err) q :=
  fun _ hst => ⟨hst, nofun⟩

theorem Keeps.bind {x : Step s α} {f : α → Step s β} (hx : Keeps inv x q)
    (hf : ∀ a, q a → Keeps inv (f a) r) : Keeps inv (x >>= f) r := by
  intro st hst
  obtain ⟨hinv, hq⟩ := hx st hst
  rw [run_bind]
  cases hrun : x st with
  | mk result st' =>
    rw [hrun] at hinv hq
    cases result with
    | error e => exact ⟨hinv, nofun⟩
    | ok a => exact hf a (hq a rfl) st' hinv

theorem Keeps.mono {x : Step s α} {q' : α → Prop} (h : Keeps inv x q) (hq : ∀ a, q a → q' a) :
    Keeps inv x q' :=
  fun st hst => ⟨(h st hst).1, fun a ha => hq a ((h st hst).2 a ha)⟩

theorem keeps_get : Keeps inv (get : Step s s) inv := by
  intro st hst
  refine ⟨hst, ?_⟩
  rintro _ ⟨⟩
  exact hst

theorem keeps_modify {change : s → s} (h : ∀ st, inv st → inv (change st)) :
    Keeps inv (modify change : Step s Unit) fun _ => True :=
  fun st hst => ⟨h st hst, fun _ _ => trivial⟩

theorem keeps_ofExcept {result : Except EvalError α} (h : ∀ a, result = .ok a → q a) :
    Keeps inv (ofExcept result) q :=
  fun _ hst => ⟨hst, h⟩

/-- The last step is run whether the first one fails or not. -/
theorem keeps_andThen {last : Step s Unit} {step : Step s α} (hstep : Keeps inv step q)
    (hlast : Keeps inv last fun _ => True) : Keeps inv (andThen last step) q := by
  intro st hst
  obtain ⟨hinv, hq⟩ := hstep st hst
  have hdone := (hlast _ hinv).1
  rw [run_andThen]
  cases hclose : last (step st).2 with
  | mk close st' =>
    rw [hclose] at hdone
    cases close with
    | ok _ => exact ⟨hdone, hq⟩
    | error _ => exact ⟨hdone, nofun⟩

/-! ## Steps that succeed -/

/-- If the step succeeds from the given state, its result and the state behind it satisfy `q`. -/
def Ends (step : Step s α) (st : s) (q : α → s → Prop) : Prop :=
  ∀ a, (step st).1 = .ok a → q a (step st).2

theorem ends_pure {st : s} {a : α} {q : α → s → Prop} (h : q a st) : Ends (pure a) st q := by
  rintro _ ⟨⟩
  exact h

theorem ends_throw (err : EvalError) {st : s} {q : α → s → Prop} : Ends (throw err) st q :=
  nofun

theorem ends_throw_bind (err : EvalError) {st : s} {f : α → Step s β} {q : β → s → Prop} :
    Ends (throw err >>= f) st q :=
  nofun

theorem ends_ofExcept {result : Except EvalError α} {st : s} {q : α → s → Prop}
    (h : ∀ a, result = .ok a → q a st) : Ends (ofExcept result) st q :=
  h

theorem ends_get {st : s} {q : s → s → Prop} (h : q st st) : Ends get st q := by
  rintro _ ⟨⟩
  exact h

theorem ends_modify {change : s → s} {st : s} {q : Unit → s → Prop} (h : q () (change st)) :
    Ends (modify change) st q :=
  fun _ _ => h

theorem Ends.bind {x : Step s α} {f : α → Step s β} {st : s} {q : α → s → Prop} {r : β → s → Prop}
    (hx : Ends x st q) (hf : ∀ a st, q a st → Ends (f a) st r) : Ends (x >>= f) st r := by
  intro b hb
  rw [run_bind] at hb ⊢
  cases hrun : x st with
  | mk result st' =>
    rw [hrun] at hb
    cases result with
    | error err => cases hb
    | ok a =>
      have hq := hx a (by rw [hrun])
      rw [hrun] at hq
      exact hf a st' hq b hb

theorem Ends.mono {step : Step s α} {st : s} {q r : α → s → Prop} (h : Ends step st q)
    (hqr : ∀ a st, q a st → r a st) : Ends step st r :=
  fun a ha => hqr a _ (h a ha)

theorem Ends.and {step : Step s α} {st : s} {q r : α → s → Prop} (h : Ends step st q)
    (h' : Ends step st r) : Ends step st fun a st => q a st ∧ r a st :=
  fun a ha => ⟨h a ha, h' a ha⟩

theorem ends_within {view : s → t} {update : t → s → s} {step : Step t α} {st : s}
    {q : α → s → Prop} (h : Ends step (view st) fun a part => q a (update part st)) :
    Ends (within view update step) st q :=
  h

theorem ends_alone {part : t} {step : Step (t × s) α} {st : s} {q : α → s → Prop}
    (h : Ends step (part, st) fun a st => q a st.2) : Ends (alone part step) st q :=
  h

/-! ## Two steps side by side -/

/-- The steps give the same result or failure on related states, and leave related states behind. -/
def Couples (R : s → t → Prop) (x : Step s α) (y : Step t α) : Prop :=
  ∀ a b, R a b → (x a).1 = (y b).1 ∧ R (x a).2 (y b).2

variable {t : Type} {R : s → t → Prop}

theorem couples_pure (a : α) : Couples R (pure a) (pure a) :=
  fun _ _ h => ⟨rfl, h⟩

theorem couples_throw (err : EvalError) : Couples R (throw err : Step s α) (throw err) :=
  fun _ _ h => ⟨rfl, h⟩

theorem couples_throw_bind (err : EvalError) {f : α → Step s β} {g : α → Step t β} :
    Couples R (throw err >>= f) (throw err >>= g) :=
  fun _ _ h => ⟨rfl, h⟩

theorem couples_ofExcept (result : Except EvalError α) :
    Couples R (ofExcept result) (ofExcept result) :=
  fun _ _ h => ⟨rfl, h⟩

theorem Couples.bind {x : Step s α} {y : Step t α} {f : α → Step s β} {g : α → Step t β}
    (hx : Couples R x y) (hf : ∀ a, Couples R (f a) (g a)) : Couples R (x >>= f) (y >>= g) := by
  intro a b hab
  obtain ⟨hresult, hrel⟩ := hx a b hab
  rw [run_bind, run_bind]
  cases hrun : x a with
  | mk result a' =>
    cases hrun' : y b with
    | mk result' b' =>
      rw [hrun, hrun'] at hresult hrel
      dsimp only at hresult hrel
      subst hresult
      cases result with
      | error err => exact ⟨rfl, hrel⟩
      | ok v => exact hf v a' b' hrel

/-- Steps that first look at the state. -/
theorem couples_get_bind {f : s → Step s α} {g : t → Step t α}
    (h : ∀ a b, R a b → Couples R (f a) (g b)) : Couples R (get >>= f) (get >>= g) := by
  intro a b hab
  rw [run_bind, run_bind, run_get, run_get]
  exact h a b hab a b hab

theorem couples_andThen {last : Step s Unit} {last' : Step t Unit} {x : Step s α} {y : Step t α}
    (hx : Couples R x y) (hlast : Couples R last last') :
    Couples R (andThen last x) (andThen last' y) := by
  intro a b hab
  obtain ⟨hresult, hrel⟩ := hx a b hab
  obtain ⟨hclose, hrest⟩ := hlast _ _ hrel
  rw [run_andThen, run_andThen]
  cases hfirst : last (x a).2 with
  | mk close a' =>
    cases hsecond : last' (y b).2 with
    | mk close' b' =>
      rw [hfirst, hsecond] at hclose hrest
      dsimp only at hclose hrest
      subst hclose
      cases close with
      | ok _ => exact ⟨hresult, hrest⟩
      | error _ => exact ⟨rfl, hrest⟩

theorem couples_modify {change : s → s} {change' : t → t}
    (h : ∀ a b, R a b → R (change a) (change' b)) :
    Couples R (modify change : Step s Unit) (modify change') :=
  fun a b hab => ⟨rfl, h a b hab⟩

end DiceTome.Step
