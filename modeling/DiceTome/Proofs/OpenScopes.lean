import DiceTome.Proofs.Failures
import DiceTome.Proofs.Reachable

/-!
# Scopes that are open

While an expression is evaluated, scopes are opened and closed again. The journal tells of each of
them, so it can be replayed: it never speaks of a scope that is not the next or the last one, and it
never gets above a bound, because no call is made while too many scopes are open.

* `Event.Path` replays events from one number of open scopes to another.
* `Context.exists_lookup`: where scopes lie in earlier ones, looking up a name has an answer.
* `World.Steady`: a world on the way of an evaluation, and how it got there.
* `World.guards_evalArena`: evaluations keep worlds steady and do not fail because of scopes.
-/

namespace DiceTome

open Step World

/-! ## Replaying the journal -/

namespace Event

/-- Whether the event tells of a scope that is opened or closed. -/
def movesScopes : Event → Bool
  | pushed _ _ _ | popped _ _ => true
  | _ => false

/-- The events lead from one number of open scopes to another. Each scope that is opened is the next
one, each that is closed is the last one, and there are never more than `cap`. -/
inductive Path (cap : Nat) : Nat → List Event → Nat → Prop
  | done {n : Nat} (h : n ≤ cap) : Path cap n [] n
  | opening {n m : Nat} {name : String} {parent : Index} {events : List Event} (h : n < cap)
      (hrest : Path cap (n + 1) events m) : Path cap n (.pushed n name parent :: events) m
  | closing {n m : Nat} {name : String} {events : List Event} (h : n < cap)
      (hrest : Path cap n events m) : Path cap (n + 1) (.popped n name :: events) m
  | other {n m : Nat} {e : Event} {events : List Event} (he : e.movesScopes = false)
      (hrest : Path cap n events m) : Path cap n (e :: events) m

theorem Path.append {cap n m k : Nat} {events more : List Event} (h : Path cap n events m)
    (hmore : Path cap m more k) : Path cap n (events ++ more) k := by
  induction h with
  | done => exact hmore
  | opening h _ ih => exact .opening h (ih hmore)
  | closing h _ ih => exact .closing h (ih hmore)
  | other he _ ih => exact .other he (ih hmore)

theorem Path.le {cap n m : Nat} {events : List Event} (h : Path cap n events m) :
    n ≤ cap ∧ m ≤ cap := by
  induction h with
  | done h => exact ⟨h, h⟩
  | opening h _ ih => exact ⟨Nat.le_of_lt h, ih.2⟩
  | closing h _ ih => exact ⟨h, ih.2⟩
  | other _ _ ih => exact ih

end Event

/-! ## Looking up names -/

namespace Context

variable {c c' : Context} {K : Set Nat}

/-- Every scope that lies in another one lies in an earlier one. -/
def Ordered (c : Context) : Prop :=
  ∀ i p, c.LiesIn i p → p < i

theorem IsTree.ordered (h : c.IsTree) : c.Ordered :=
  fun _ _ => h.liesIn_lt

theorem Frame.ordered (h : Frame K c c') (hc : c.Ordered) : c'.Ordered := by
  rintro i p ⟨t', ht', hparent'⟩
  have hlt : i < c.scopes.size := by
    rw [← h.size_eq]
    exact (Array.getElem?_eq_some_iff.mp ht').1
  have ht := Array.getElem?_eq_getElem hlt
  obtain ⟨u, hu, hparent, -⟩ := h.place i _ ht
  rw [ht'] at hu
  cases hu
  exact hc i p ⟨_, ht, hparent.symm.trans hparent'⟩

theorem Ordered.opened (h : c.Ordered) {j : Nat} (hj : j < c.scopes.size) (name : String) :
    (c.opened j name).Ordered := by
  rintro i p ⟨t, ht, hparent⟩
  rw [getElem?_opened hj] at ht
  split at ht
  · rename_i hi
    cases ht
    have hp : j = p := Int.ofNat_inj.mp (Option.some.inj hparent)
    omega
  · split at ht
    · obtain ⟨old, hold, rfl⟩ := Option.map_eq_some_iff.mp ht
      exact h i p ⟨old, hold, hparent⟩
    · exact h i p ⟨t, ht, hparent⟩

/-- A chain of scopes ends before the steps that are allowed for it are used up. -/
theorem exists_lookupWithin (hK : c.SelfContained K) (hc : c.Ordered) {steps s : Nat}
    (hs : s ∈ K) (hsteps : s < steps) (name : String) :
    ∃ found, c.lookupWithin name steps (s : Index) = .ok found := by
  induction steps generalizing s with
  | zero => exact absurd hsteps (Nat.not_lt_zero s)
  | succ steps ih =>
    obtain ⟨t, ht⟩ : ∃ t, c.scopes[s]? = some t := ⟨_, Array.getElem?_eq_getElem (hK.lt s hs)⟩
    simp only [lookupWithin, scope?_natCast, ht]
    cases t.find? name with
    | some b => exact ⟨_, rfl⟩
    | none =>
      cases hparent : t.parent with
      | none => exact ⟨_, rfl⟩
      | some index =>
        obtain ⟨p, hp, rfl⟩ := hK.parent s hs t ht index hparent
        have hlt : p < s := hc s p ⟨t, ht, hparent⟩
        exact ih hp (by omega)

/-- Looking up a name has an answer. -/
theorem exists_lookup (hK : c.SelfContained K) (hc : c.Ordered) {s : Nat} (hs : s ∈ K)
    (name : String) : ∃ found, c.lookup (s : Index) name = .ok found :=
  exists_lookupWithin hK hc hs (hK.lt s hs) name

theorem exists_value? (hK : c.SelfContained K) (hc : c.Ordered) {s : Nat} (hs : s ∈ K)
    (name : String) : ∃ found, c.value? (s : Index) name = .ok found := by
  obtain ⟨found, hfound⟩ := exists_lookup hK hc hs name
  rw [value?, hfound]
  rcases found with _ | ⟨owner, v | f | i⟩ <;> exact ⟨_, rfl⟩

theorem exists_function? (hK : c.SelfContained K) (hc : c.Ordered) {s : Nat} (hs : s ∈ K)
    (name : String) : ∃ found, c.function? (s : Index) name = .ok found := by
  obtain ⟨found, hfound⟩ := exists_lookup hK hc hs name
  rw [function?, hfound]
  rcases found with _ | ⟨owner, v | f | i⟩ <;> exact ⟨_, rfl⟩

theorem exists_isCallable (hK : c.SelfContained K) (hc : c.Ordered) {s : Nat} (hs : s ∈ K)
    (name : String) : ∃ found, c.isCallable (s : Index) name = .ok found := by
  obtain ⟨found, hfound⟩ := exists_function? hK hc hs name
  exact ⟨_, by rw [isCallable, hfound]; rfl⟩

end Context

/-! ## Steady worlds -/

/-- A world on the way of an evaluation that started as `a`: the scopes in `K` are enough to look up
names, no scope has been moved, and the journal says how it got there. -/
structure World.Steady (cap : Nat) (K : Set Nat) (a w : World σ) : Prop where
  twins : Twins (fun _ _ => True) K a a w w
  ordered : a.context.Ordered
  path : ∃ events, w.journal.toList = a.journal.toList ++ events ∧
    Event.Path cap a.context.scopes.size events w.context.scopes.size

namespace World.Steady

variable {σ : Type} {cap : Nat} {K : Set Nat} {a w w' : World σ}

theorem start (hK : a.context.SelfContained K) (hordered : a.context.Ordered)
    (hcap : a.context.scopes.size ≤ cap) : Steady cap K a a where
  twins := Twins.self hK trivial
  ordered := hordered
  path := ⟨[], by simp, .done hcap⟩

theorem contained (h : Steady cap K a w) : w.context.SelfContained K :=
  h.twins.contained

theorem size_eq (h : Steady cap K a w) : w.context.scopes.size = a.context.scopes.size :=
  h.twins.frame₁.size_eq

theorem ordered_now (h : Steady cap K a w) : w.context.Ordered :=
  h.twins.frame₁.ordered h.ordered

theorem lookup (h : Steady cap K a w) {s : Nat} (hs : s ∈ K) (name : String) :
    ∃ found, w.context.lookup (s : Index) name = .ok found :=
  Context.exists_lookup h.contained h.ordered_now hs name

theorem scope (h : Steady cap K a w) {s : Nat} (hs : s ∈ K) :
    ∃ t, w.context.scope (s : Index) = .ok t := by
  rw [Context.scope, Context.scope?_natCast, Array.getElem?_eq_getElem (h.contained.lt s hs)]
  exact ⟨_, rfl⟩

/-- A step that enters nothing into the journal and moves no scope. -/
theorem unrecorded (h : Steady cap K a w) (htwins : Twins (fun _ _ => True) K a a w' w')
    (hjournal : w'.journal = w.journal) : Steady cap K a w' where
  twins := htwins
  ordered := h.ordered
  path := by
    obtain ⟨events, hevents, hpath⟩ := h.path
    have hsize : w'.context.scopes.size = w.context.scopes.size := by
      rw [htwins.frame₁.size_eq, h.size_eq]
    exact ⟨events, by rw [hjournal]; exact hevents, by rw [hsize]; exact hpath⟩

/-- An event that opens and closes no scope. -/
theorem record (h : Steady cap K a w) {e : Event} (he : e.movesScopes = false) :
    Steady cap K a { w with journal := w.journal.push e } where
  twins := h.twins.journal _ _
  ordered := h.ordered
  path := by
    obtain ⟨events, hevents, hpath⟩ := h.path
    refine ⟨events ++ [e], by simp [hevents], hpath.append (.other he (.done hpath.le.2))⟩

theorem onDice (h : Steady cap K a w) (dice : σ) : Steady cap K a { w with dice } :=
  h.unrecorded (h.twins.onDice dice) rfl

theorem printLine (h : Steady cap K a w) (line : String) :
    Steady cap K a { w with output := w.output ++ line ++ "\n" } :=
  h.unrecorded (h.twins.printLine line) rfl

theorem bind (h : Steady cap K a w) {j : Nat} (hj : j ∈ K) {name : String} {b : Binding}
    (hb : ∀ f, b = .function f → f.scope = (j : Index)) :
    Steady cap K a { w with context := w.context.bind (j : Index) name b } :=
  h.unrecorded (h.twins.bind hj hb fun _ _ => trivial) rfl

/-- While a scope is open, the world is steady from there on. -/
theorem opened (h : Steady cap K a w) {j : Nat} (hj : j ∈ K)
    (hcap : w.context.scopes.size < cap) (name : String) :
    Steady cap (insert w.context.scopes.size K) (w.opened j name) (w.opened j name) where
  twins := h.twins.opened upkeep_any hj name
  ordered := h.ordered_now.opened (h.contained.lt j hj) name
  path := ⟨[], by simp, .done (by simp only [World.opened, Context.size_opened]; exact hcap)⟩

/-- When the scope is closed, the world is steady as before. -/
theorem closed (h : Steady cap K a w) {j : Nat} (hj : j ∈ K)
    (hcap : w.context.scopes.size < cap) {name : String} {b : World σ}
    (hb : Steady cap (insert w.context.scopes.size K) (w.opened j name) b) :
    Steady cap K a (b.closed name) where
  twins := h.twins.closed upkeep_any hj hb.twins
  ordered := h.ordered
  path := by
    obtain ⟨events, hevents, hpath⟩ := h.path
    obtain ⟨inner, hinner, hpath'⟩ := hb.path
    have hsize : b.context.scopes.size = w.context.scopes.size + 1 := by
      rw [hb.size_eq, World.opened, Context.size_opened]
    have hsize' : (b.closed name).context.scopes.size = w.context.scopes.size := by
      rw [World.closed, Context.size_dropInnermost, hsize, Nat.add_sub_cancel]
    rw [hsize, World.opened, Context.size_opened] at hpath'
    refine ⟨events ++ (.pushed w.context.scopes.size name j ::
      (inner ++ [.popped w.context.scopes.size name])), ?_, ?_⟩
    · simp [World.closed, hinner, World.opened, hevents, hsize]
    · rw [hsize']
      have hclose : Event.Path cap (w.context.scopes.size + 1)
          [.popped w.context.scopes.size name] w.context.scopes.size :=
        .closing hcap (.done (Nat.le_of_lt hcap))
      exact hpath.append (.opening hcap (hpath'.append hclose))

end World.Steady

/-! ## Evaluations keep worlds steady -/

namespace World

variable {σ : Type} {cap : Nat} {K : Set Nat} {a : World σ}

theorem guards_ask {question : Context → Except EvalError α} {inv : World σ → Prop}
    (h : ∀ w, inv w → ∃ x, question w.context = .ok x) : Guards inv (ask question) := by
  intro w hw
  obtain ⟨x, hx⟩ := h w hw
  rw [run_ask, hx]
  exact ⟨hw, proper_ok x⟩

theorem guards_record {e : Event} (he : e.movesScopes = false) :
    Guards (Steady cap K a) (record e) :=
  guards_modify fun _ h => h.record he

theorem guards_bind {j : Nat} (hj : j ∈ K) {name : String} {b : Binding}
    (hb : ∀ f, b = .function f → f.scope = (j : Index)) :
    Guards (Steady cap K a) (bind (j : Index) name b) :=
  guards_modify fun _ h => h.bind hj hb

theorem guards_setVariable {s : Nat} (hs : s ∈ K) (n : String) (v : Value) :
    Guards (Steady cap K a) (setVariable (s : Index) n v) := by
  refine guards_ask_bind (q := fun found => ∀ owner b, found = some (owner, b) →
    ∃ j ∈ K, owner = ((j : Nat) : Index)) (fun w hw => ?_) fun found hq => ?_
  · obtain ⟨found, hfound⟩ := hw.lookup hs n
    refine ⟨found, hfound, ?_⟩
    rintro owner b rfl
    obtain ⟨j, hj, howner, -⟩ := hw.contained.lookup hs hfound
    exact ⟨j, hj, howner⟩
  · rcases found with _ | ⟨owner, b⟩
    · exact guards_bind hs nofun
    · obtain ⟨j, hj, rfl⟩ := hq owner b rfl
      exact guards_bind hj nofun

theorem guards_defineFunction {s : Nat} (hs : s ∈ K) (callee : String) (body : Expr)
    (names : List String) :
    Guards (Steady cap K a) (defineFunction (s : Index) callee body names) := by
  refine guards_get_bind fun w _ => ?_
  refine (guards_modify fun w' hw' => ?_).bind fun _ => ?_
  · exact hw'.unrecorded { hw'.twins with declared := rfl } rfl
  refine (guards_ask fun w' hw' => hw'.scope hs).bind fun _ => ?_
  refine (guards_bind hs ?_).bind fun _ => guards_record rfl
  rintro f ⟨⟩
  rfl

theorem guards_bindArguments {s : Nat} (hs : s ∈ K) (names : List String) (args : List Value) :
    Guards (Steady cap K a) (bindArguments (s : Index) names args) := by
  induction names generalizing args with
  | nil => exact guards_pure _
  | cons n names ih =>
    cases args with
    | nil => exact guards_pure _
    | cons v args =>
      have hbind : Guards (Steady cap K a) (bind (s : Index) n (.value v)) := guards_bind hs nofun
      exact hbind.bind fun _ => ih args

/-- The body of a function keeps worlds steady that know its scope. -/
def EntersSteadily (cap : Nat) (enter : Function → Nat → Run σ Outcome) : Prop :=
  ∀ (K : Set Nat) (a : World σ) (f : Function) (child : Nat), child ∈ K →
    Guards (Steady cap K a) (enter f child)

theorem guards_invoke (hcap : maxCallDepth < cap) {enter : Function → Nat → Run σ Outcome}
    (henter : EntersSteadily cap enter) {f : Function} {j : Nat} (hj : j ∈ K)
    (hscope : f.scope = (j : Index)) (name : String) (args : List Value) :
    Guards (Steady cap K a) (f.invoke enter name args) := by
  refine Function.guards_invoke hscope (fun w hw => hw.contained.lt j hj) fun w hw hdepth => ?_
  have hcalled := hw.record (e := .called name args) rfl
  have hlt : w.context.scopes.size < cap := Nat.lt_of_le_of_lt hdepth hcap
  refine ⟨_, hcalled.opened hj hlt name, ?_, fun b hb => ⟨?_, hcalled.closed hj hlt hb⟩⟩
  · refine (guards_bindArguments (Set.mem_insert _ _) f.parameters args).bind fun _ => ?_
    exact henter _ _ f _ (Set.mem_insert _ _)
  · exact hb.twins.frame₁.endsWith (c := w.context) (hw.contained.lt j hj)

/-- A world with a tidy context is steady, and calls stay below the bound on its scopes. -/
theorem steady_of_tidy {w : World σ} (h : w.context.Tidy) :
    maxCallDepth < max w.context.scopes.size (maxCallDepth + 1) ∧
      Steady (max w.context.scopes.size (maxCallDepth + 1)) { i | i < w.context.scopes.size } w w :=
  ⟨Nat.lt_of_lt_of_le (Nat.lt_succ_self _) (Nat.le_max_right _ _),
    Steady.start h.selfContained_all h.tree.ordered (Nat.le_max_left _ _)⟩

variable [DiceSource σ]

theorem guards_callBuiltin (name : String) (args : List Value) :
    Guards (Steady cap K a) (callBuiltin name args) := by
  refine (guards_onDice (fun _ dice h => h.onDice dice) (Builtin.spares_call name args)).bind
    fun reply => ?_
  obtain ⟨result, printed⟩ := reply
  cases printed with
  | none => exact guards_pure _
  | some line =>
    have hprint : Guards (Steady cap K a) (World.printLine line) :=
      guards_modify fun _ h => h.printLine line
    exact hprint.bind fun _ => guards_pure _

theorem guards_callFunction (hcap : maxCallDepth < cap)
    {enter : Function → Nat → Run σ Outcome} (henter : EntersSteadily cap enter) {s : Nat}
    (hs : s ∈ K) (name : String) (args : List Value) :
    Guards (Steady cap K a) (callFunction enter (s : Index) name args) := by
  rw [callFunction_eq]
  refine guards_ask_bind (q := fun found => ∀ f, found = some f → ∃ j ∈ K,
    f.scope = ((j : Nat) : Index)) (fun w hw => ?_) fun found hq => ?_
  · obtain ⟨found, hfound⟩ := Context.exists_function? hw.contained hw.ordered_now hs name
    refine ⟨found, hfound, ?_⟩
    rintro f rfl
    obtain ⟨j, hj, hscope, -⟩ := hw.contained.function? hs hfound
    exact ⟨j, hj, hscope⟩
  · cases found with
    | none => exact guards_callBuiltin name args
    | some f =>
      obtain ⟨j, hj, hscope⟩ := hq f rfl
      exact guards_invoke hcap henter hj hscope name args

theorem guarded_callFunction (hcap : maxCallDepth < cap)
    {enter : Function → Nat → Run σ Outcome} (henter : EntersSteadily cap enter) {s : Nat}
    (hs : s ∈ K) : Expr.Guarded (Steady cap K a) (callFunction enter) (s : Index) where
  value n := guards_ask fun _ hw => Context.exists_value? hw.contained hw.ordered_now hs n
  callable n := guards_ask fun _ hw => Context.exists_isCallable hw.contained hw.ordered_now hs n
  call := guards_callFunction hcap henter hs
  assign := guards_setVariable hs
  define := guards_defineFunction hs
  dice _ dice h := h.onDice dice

theorem guards_evalWithin (hcap : maxCallDepth < cap) (level : Nat) {s : Nat} (hs : s ∈ K)
    (e : Expr) : Guards (Steady cap K a) (evalWithin level (s : Index) e) := by
  induction level generalizing K a s e with
  | zero =>
    exact Expr.guards_evalWith (guarded_callFunction hcap (fun _ _ _ _ _ => guards_throw rfl) hs) e
  | succ level ih =>
    exact Expr.guards_evalWith
      (guarded_callFunction hcap (fun _ _ f _ hchild => ih hchild f.body) hs) e

/-- Evaluations keep worlds steady and do not fail because of scopes. -/
theorem guards_evalArena (hcap : maxCallDepth < cap) {s : Nat} (hs : s ∈ K) (tree : Arena) :
    Guards (Steady cap K a) (evalArena tree (s : Index)) := by
  unfold evalArena
  cases tree.expr? with
  | none => exact guards_pure _
  | some e => exact guards_get_bind fun w _ => guards_evalWithin hcap _ hs e

theorem steady_evalArena {w : World σ} (h : w.context.Tidy) {s : Nat}
    (hs : s < w.context.scopes.size) (tree : Arena) :
    Steady (max w.context.scopes.size (maxCallDepth + 1)) { i | i < w.context.scopes.size } w
        (evalArena tree (s : Index) w).2 ∧
      Proper (evalArena tree (s : Index) w).1 := by
  have hmem : s ∈ { i | i < w.context.scopes.size } := hs
  obtain ⟨hcap, hstart⟩ := steady_of_tidy h
  exact guards_evalArena hcap hmem tree w hstart

end World

end DiceTome
