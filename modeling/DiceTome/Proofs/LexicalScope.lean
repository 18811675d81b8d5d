import DiceTome.Proofs.Calls
import Mathlib.Data.Set.Insert

/-!
# Lexical scope

An evaluation sees the scopes on the chain of the scope it is made in, and no others. This holds
through calls: a function is found on the chain, and its body is evaluated in a scope below the one
it is bound in, which is on the chain too.

* `Context.SelfContained`: some scopes are enough to look up names from any of them.
* `World.Twins`: two worlds agree on such scopes, and have left all others as they were.
* `couples_evalWithin`: evaluations in a scope that twins share give the same result and leave twins
  behind.
-/

namespace DiceTome

open Step World

/-! ## Scopes that are enough to look up names -/

namespace Context

/-- Scopes with those that they lie in. The functions that are bound in them know where. -/
structure SelfContained (c : Context) (K : Set Nat) : Prop where
  lt : ∀ i ∈ K, i < c.scopes.size
  parent : ∀ i ∈ K, ∀ t, c.scopes[i]? = some t → ∀ index, t.parent = some index →
    ∃ p ∈ K, index = (p : Index)
  function : ∀ i ∈ K, ∀ t, c.scopes[i]? = some t → ∀ n f, (n, Binding.function f) ∈ t.bindings →
    f.scope = (i : Index)

variable {c c' : Context} {K : Set Nat}

/-- What a name stands for depends on the scopes that are seen. -/
theorem SelfContained.lookup_congr (h : c.SelfContained K) (hsize : c'.scopes.size = c.scopes.size)
    (hagree : ∀ i ∈ K, c.scopes[i]? = c'.scopes[i]?) {s : Nat} (hs : s ∈ K) (name : String) :
    c.lookup (s : Index) name = c'.lookup (s : Index) name := by
  unfold lookup
  rw [hsize]
  generalize c.scopes.size = steps
  induction steps generalizing s with
  | zero => rfl
  | succ steps ih =>
    simp only [lookupWithin, scope?_natCast, ← hagree s hs]
    cases ht : c.scopes[s]? with
    | none => rfl
    | some t =>
      simp only
      cases t.find? name with
      | some b => rfl
      | none =>
        cases hparent : t.parent with
        | none => rfl
        | some index =>
          obtain ⟨p, hp, rfl⟩ := h.parent s hs t ht index hparent
          exact ih hp

/-- What a name stands for is bound in a scope that is seen. -/
theorem SelfContained.lookup (h : c.SelfContained K) {s : Nat} (hs : s ∈ K) {name : String}
    {owner : Index} {b : Binding} (hb : c.lookup (s : Index) name = .ok (some (owner, b))) :
    ∃ j ∈ K, owner = (j : Index) ∧ ∃ t, c.scopes[j]? = some t ∧ (name, b) ∈ t.bindings := by
  unfold Context.lookup at hb
  generalize c.scopes.size = steps at hb
  induction steps generalizing s with
  | zero => cases hb
  | succ steps ih =>
    rw [lookupWithin, scope?_natCast] at hb
    cases ht : c.scopes[s]? with
    | none =>
      rw [ht] at hb
      cases hb
    | some t =>
      simp only [ht] at hb
      cases hfind : t.find? name with
      | some found =>
        simp only [hfind] at hb
        cases hb
        obtain ⟨before, behind, hsplit, -⟩ := List.lookup_eq_some_iff.mp hfind
        exact ⟨s, hs, rfl, t, ht, by simp [hsplit]⟩
      | none =>
        simp only [hfind] at hb
        cases hparent : t.parent with
        | none =>
          simp only [hparent] at hb
          cases hb
        | some index =>
          simp only [hparent] at hb
          obtain ⟨p, hp, rfl⟩ := h.parent s hs t ht index hparent
          exact ih hp hb

theorem SelfContained.function? (h : c.SelfContained K) {s : Nat} (hs : s ∈ K) {name : String}
    {f : Function} (hf : c.function? (s : Index) name = .ok (some f)) :
    ∃ j ∈ K, f.scope = (j : Index) ∧
      ∃ t, c.scopes[j]? = some t ∧ (name, Binding.function f) ∈ t.bindings := by
  obtain ⟨owner, hlookup⟩ := lookup_of_function? hf
  obtain ⟨j, hj, -, t, ht, hmem⟩ := h.lookup hs hlookup
  exact ⟨j, hj, h.function j hj t ht name f hmem, t, ht, hmem⟩

theorem SelfContained.congr (h : c.SelfContained K) (hsize : c'.scopes.size = c.scopes.size)
    (hagree : ∀ i ∈ K, c.scopes[i]? = c'.scopes[i]?) : c'.SelfContained K := by
  refine ⟨fun i hi => hsize ▸ h.lt i hi, fun i hi t ht => ?_, fun i hi t ht => ?_⟩
  · exact h.parent i hi t ((hagree i hi).trans ht)
  · exact h.function i hi t ((hagree i hi).trans ht)

theorem SelfContained.bind (h : c.SelfContained K) {j : Nat} {name : String} {b : Binding}
    (hb : ∀ f, b = .function f → f.scope = (j : Index)) :
    (c.bind (j : Index) name b).SelfContained K := by
  have hget := getElem?_modifyScope c j
  refine ⟨fun i hi => ?_, fun i hi t ht => ?_, fun i hi t ht => ?_⟩
  · rw [Context.bind, size_modifyScope]
    exact h.lt i hi
  · rw [Context.bind, hget] at ht
    split at ht
    · obtain ⟨old, hold, rfl⟩ := Option.map_eq_some_iff.mp ht
      exact h.parent i hi old hold
    · exact h.parent i hi t ht
  · rw [Context.bind, hget] at ht
    split at ht
    · rename_i heq
      subst heq
      obtain ⟨old, hold, rfl⟩ := Option.map_eq_some_iff.mp ht
      intro n f hmem
      rcases Scope.mem_insertInto hmem with ⟨-, hf⟩ | hmem
      · exact hb f hf.symm
      · exact h.function j hi old hold n f hmem
    · exact h.function i hi t ht

/-! ## Contexts that differ in some scopes only -/

/-- The second context has the scopes of the first, each in its place; those that are not in `K` are
the same. -/
structure Frame (K : Set Nat) (c c' : Context) : Prop where
  size_eq : c'.scopes.size = c.scopes.size
  outside : ∀ i ∉ K, c'.scopes[i]? = c.scopes[i]?
  place : ∀ (i : Nat) t, c.scopes[i]? = some t →
    ∃ t', c'.scopes[i]? = some t' ∧ t'.parent = t.parent ∧ t'.name = t.name

theorem Frame.refl (K : Set Nat) (c : Context) : Frame K c c :=
  ⟨rfl, fun _ _ => rfl, fun _ t ht => ⟨t, ht, rfl, rfl⟩⟩

theorem Frame.bind (h : Frame K c c') {j : Nat} (hj : j ∈ K) (name : String) (b : Binding) :
    Frame K c (c'.bind (j : Index) name b) := by
  have hget := getElem?_modifyScope c' j
  refine ⟨?_, fun i hi => ?_, fun i t ht => ?_⟩
  · rw [Context.bind, size_modifyScope]
    exact h.size_eq
  · rw [Context.bind, hget, if_neg (fun heq : j = i => hi (heq ▸ hj))]
    exact h.outside i hi
  · obtain ⟨t', ht', hparent, hname⟩ := h.place i t ht
    rw [Context.bind, hget, ht']
    split
    · exact ⟨_, rfl, hparent, hname⟩
    · exact ⟨t', rfl, hparent, hname⟩

/-! ## Scopes that are opened and closed again -/

theorem SelfContained.opened (h : c.SelfContained K) {j : Nat} (hj : j ∈ K) (name : String) :
    (c.opened j name).SelfContained (insert c.scopes.size K) := by
  have hget := getElem?_opened (h.lt j hj) name
  refine ⟨fun i hi => ?_, fun i hi t ht index hparent => ?_, fun i hi t ht n f hmem => ?_⟩
  · rw [size_opened]
    rcases Set.mem_insert_iff.mp hi with rfl | hi
    · exact Nat.lt_succ_self _
    · exact Nat.lt_succ_of_lt (h.lt i hi)
  · rw [hget] at ht
    split at ht
    · cases ht
      exact ⟨j, Set.mem_insert_of_mem _ hj, (Option.some.inj hparent).symm⟩
    · have hi : i ∈ K := (Set.mem_insert_iff.mp hi).resolve_left ‹_›
      have hold : ∃ p ∈ K, index = (p : Index) := by
        split at ht
        · obtain ⟨old, hold, rfl⟩ := Option.map_eq_some_iff.mp ht
          exact h.parent i hi old hold index hparent
        · exact h.parent i hi t ht index hparent
      obtain ⟨p, hp, heq⟩ := hold
      exact ⟨p, Set.mem_insert_of_mem _ hp, heq⟩
  · rw [hget] at ht
    split at ht
    · cases ht
      cases hmem
    · have hi : i ∈ K := (Set.mem_insert_iff.mp hi).resolve_left ‹_›
      split at ht
      · obtain ⟨old, hold, rfl⟩ := Option.map_eq_some_iff.mp ht
        rcases Scope.mem_insertInto hmem with ⟨-, hf⟩ | hmem
        · cases hf
        · exact h.function i hi old hold n f hmem
      · exact h.function i hi t ht n f hmem

/-- While a scope is open it stays the last one. -/
theorem Frame.endsWith {b : Context} {j : Nat} (hj : j < c.scopes.size) {name : String}
    (h : Frame K (c.opened j name) b) : b.EndsWith c.scopes.size j name := by
  obtain ⟨hsize, hlt, t, ht, hparent, hname⟩ := endsWith_opened hj name
  obtain ⟨t', ht', hparent', hname'⟩ := h.place _ t ht
  exact ⟨h.size_eq.trans hsize, hlt, t', ht', hparent'.trans hparent, hname'.trans hname⟩

/-- A scope that is still there when the one that was opened is closed again. -/
theorem Frame.place_dropInnermost {b : Context} {j : Nat} (hj : j < c.scopes.size) {name : String}
    (h : Frame K (c.opened j name) b) {i : Nat} {t : Scope} (ht : c.scopes[i]? = some t) :
    ∃ t', (World.dropInnermost b).scopes[i]? = some t' ∧ t'.parent = t.parent ∧
      t'.name = t.name := by
  have hlt : i < c.scopes.size := (Array.getElem?_eq_some_iff.mp ht).1
  have hopened : ∃ u, (c.opened j name).scopes[i]? = some u ∧ u.parent = t.parent ∧
      u.name = t.name := by
    rw [getElem?_opened hj, if_neg (Nat.ne_of_lt hlt), ht]
    split
    · exact ⟨_, rfl, rfl, rfl⟩
    · exact ⟨t, rfl, rfl, rfl⟩
  obtain ⟨u, hu, hparent, hname⟩ := hopened
  obtain ⟨u', hu', hparent', hname'⟩ := h.place i u hu
  rw [getElem?_dropInnermost (h.endsWith hj), if_neg (Nat.not_le.mpr hlt), hu']
  split
  · exact ⟨_, rfl, hparent'.trans hparent, hname'.trans hname⟩
  · exact ⟨u', rfl, hparent'.trans hparent, hname'.trans hname⟩

theorem Frame.dropInnermost {a b : Context} (h : Frame K a c) (hc : c.SelfContained K) {j : Nat}
    (hj : j ∈ K) {name : String} (hb : Frame (insert c.scopes.size K) (c.opened j name) b) :
    Frame K a (World.dropInnermost b) := by
  have hlt := hc.lt j hj
  refine ⟨?_, fun i hi => ?_, fun i t ht => ?_⟩
  · rw [size_dropInnermost, hb.size_eq, size_opened, Nat.add_sub_cancel]
    exact h.size_eq
  · rw [getElem?_dropInnermost (hb.endsWith hlt), ← h.outside i hi]
    split
    · rename_i hle
      exact (Array.getElem?_eq_none hle).symm
    · rename_i hnot
      have hne : i ≠ c.scopes.size := by omega
      have hji : j ≠ i := fun heq => hi (heq ▸ hj)
      rw [if_neg hji, hb.outside i (by simp [hne, hi]), getElem?_opened hlt, if_neg hne, if_neg hji]
  · obtain ⟨t', ht', hparent, hname⟩ := h.place i t ht
    obtain ⟨u, hu, hparent', hname'⟩ := hb.place_dropInnermost hlt ht'
    exact ⟨u, hu, hparent'.trans hparent, hname'.trans hname⟩

theorem SelfContained.dropInnermost {b : Context} (h : c.SelfContained K) {j : Nat} (hj : j ∈ K)
    {name : String} (hframe : Frame (insert c.scopes.size K) (c.opened j name) b)
    (hb : b.SelfContained (insert c.scopes.size K)) : (World.dropInnermost b).SelfContained K := by
  have hlt := h.lt j hj
  refine ⟨fun i hi => ?_, fun i hi t ht index hparent => ?_, fun i hi t ht n f hmem => ?_⟩
  · rw [size_dropInnermost, hframe.size_eq, size_opened, Nat.add_sub_cancel]
    exact h.lt i hi
  · -- the scope lies where it did before the new one was opened
    have hold := Array.getElem?_eq_getElem (h.lt i hi)
    obtain ⟨t', ht', hparent', -⟩ := hframe.place_dropInnermost hlt hold
    rw [ht] at ht'
    cases ht'
    exact h.parent i hi _ hold index (hparent'.symm.trans hparent)
  · rw [getElem?_dropInnermost (hframe.endsWith hlt)] at ht
    have hi' : i ∈ insert c.scopes.size K := Set.mem_insert_of_mem _ hi
    split at ht
    · cases ht
    · split at ht
      · obtain ⟨old, hold, rfl⟩ := Option.map_eq_some_iff.mp ht
        exact hb.function i hi' old hold n f (List.mem_filter.mp hmem).1
      · exact hb.function i hi' t ht n f hmem

end Context

/-! ## Twins -/

/-- A relation between the context at the start of an evaluation and the contexts on the way, which
binding the names and bodies of expressions with parts in `p` and calling functions keeps. -/
structure Context.Upkeep (p : Expr → Prop) (S : Context → Context → Prop) : Prop where
  value : ∀ {a c : Context}, S a c → ∀ {j : Nat}, j < c.scopes.size → ∀ {n : String}, p (.name n) →
    ∀ v, S a (c.bind (j : Index) n (.value v))
  function : ∀ {a c : Context}, S a c → ∀ {j : Nat}, j < c.scopes.size → ∀ {f : Function},
    f.scope = (j : Index) → (Expr.call f.name (f.parameters.map .name)).All p → f.body.All p →
    S a (c.bind (j : Index) f.name (.function f))
  defined : ∀ {a c : Context}, S a c → ∀ {j : Nat} {t : Scope}, c.scopes[j]? = some t →
    ∀ {n : String} {f : Function}, (n, Binding.function f) ∈ t.bindings →
    (∀ parameter ∈ f.parameters, p (.name parameter)) ∧ f.body.All p
  opened : ∀ {a c : Context}, S a c → ∀ {j : Nat}, j < c.scopes.size → ∀ name,
    S (c.opened j name) (c.opened j name)
  closed : ∀ {a b c : Context}, S a c → ∀ {j : Nat}, j < c.scopes.size → ∀ {name},
    S (c.opened j name) b → S a (World.dropInnermost b)

/-- Two worlds that started as `a₁` and `a₂` agree on the scopes in `K`, on the dice and on what has
been written since, and have left all other scopes as they were. -/
structure World.Twins (S : Context → Context → Prop) (K : Set Nat) (a₁ a₂ w₁ w₂ : World σ) :
    Prop where
  contained : w₁.context.SelfContained K
  size_eq : w₂.context.scopes.size = w₁.context.scopes.size
  agree : ∀ i ∈ K, w₁.context.scopes[i]? = w₂.context.scopes[i]?
  frame₁ : Context.Frame K a₁.context w₁.context
  frame₂ : Context.Frame K a₂.context w₂.context
  kept₁ : S a₁.context w₁.context
  kept₂ : S a₂.context w₂.context
  dice : w₁.dice = w₂.dice
  declared : w₁.declared = w₂.declared
  output : ∃ text, w₁.output = a₁.output ++ text ∧ w₂.output = a₂.output ++ text

namespace World.Twins

variable {σ : Type} {p : Expr → Prop} {S : Context → Context → Prop} {K : Set Nat}
  {a₁ a₂ w₁ w₂ : World σ}

theorem bind (h : Twins S K a₁ a₂ w₁ w₂) {j : Nat} (hj : j ∈ K) {name : String} {b : Binding}
    (hb : ∀ f, b = .function f → f.scope = (j : Index))
    (hS : ∀ {a c : Context}, S a c → j < c.scopes.size → S a (c.bind (j : Index) name b)) :
    Twins S K a₁ a₂ { w₁ with context := w₁.context.bind (j : Index) name b }
      { w₂ with context := w₂.context.bind (j : Index) name b } := by
  refine { h with
    contained := h.contained.bind hb
    size_eq := ?_
    agree := fun i hi => ?_
    frame₁ := h.frame₁.bind hj name b
    frame₂ := h.frame₂.bind hj name b
    kept₁ := hS h.kept₁ (h.contained.lt j hj)
    kept₂ := hS h.kept₂ (h.size_eq ▸ h.contained.lt j hj) }
  · simp only [Context.bind, Context.size_modifyScope]
    exact h.size_eq
  · simp only [Context.bind, Context.getElem?_modifyScope, h.agree i hi]

theorem opened (U : Context.Upkeep p S) (h : Twins S K a₁ a₂ w₁ w₂) {j : Nat} (hj : j ∈ K)
    (name : String) :
    Twins S (insert w₁.context.scopes.size K) (w₁.opened j name) (w₂.opened j name)
      (w₁.opened j name) (w₂.opened j name) := by
  have hlt := h.contained.lt j hj
  have hlt' : j < w₂.context.scopes.size := h.size_eq ▸ hlt
  refine { h with
    contained := h.contained.opened hj name
    size_eq := ?_
    agree := fun i hi => ?_
    frame₁ := Context.Frame.refl _ _
    frame₂ := Context.Frame.refl _ _
    kept₁ := U.opened h.kept₁ hlt name
    kept₂ := U.opened h.kept₂ hlt' name
    output := ⟨"", by simp, by simp⟩ }
  · simp only [World.opened, Context.size_opened, h.size_eq]
  · simp only [World.opened, Context.getElem?_opened hlt, Context.getElem?_opened hlt', h.size_eq]
    split
    · rfl
    · rw [h.agree i ((Set.mem_insert_iff.mp hi).resolve_left ‹_›)]

theorem closed (U : Context.Upkeep p S) (h : Twins S K a₁ a₂ w₁ w₂) {j : Nat} (hj : j ∈ K)
    {name : String} {b₁ b₂ : World σ} (hb : Twins S (insert w₁.context.scopes.size K)
      (w₁.opened j name) (w₂.opened j name) b₁ b₂) :
    Twins S K a₁ a₂ (b₁.closed name) (b₂.closed name) := by
  have hlt := h.contained.lt j hj
  have hlt' : j < w₂.context.scopes.size := h.size_eq ▸ hlt
  have hframe₂ : Context.Frame (insert w₂.context.scopes.size K) (w₂.context.opened j name)
      b₂.context := by
    rw [h.size_eq]
    exact hb.frame₂
  have hend₂ : b₂.context.EndsWith w₁.context.scopes.size j name := by
    rw [← h.size_eq]
    exact hframe₂.endsWith hlt'
  refine { hb with
    contained := h.contained.dropInnermost hj hb.frame₁ hb.contained
    size_eq := ?_
    agree := fun i hi => ?_
    frame₁ := h.frame₁.dropInnermost h.contained hj hb.frame₁
    frame₂ := h.frame₂.dropInnermost (h.contained.congr h.size_eq h.agree) hj hframe₂
    kept₁ := U.closed h.kept₁ hlt hb.kept₁
    kept₂ := U.closed h.kept₂ hlt' hb.kept₂
    output := ?_ }
  · simp only [World.closed, Context.size_dropInnermost, hb.size_eq]
  · simp only [World.closed, Context.getElem?_dropInnermost (hb.frame₁.endsWith hlt),
      Context.getElem?_dropInnermost hend₂, hb.agree i (Set.mem_insert_of_mem _ hi)]
  · obtain ⟨text, h₁, h₂⟩ := h.output
    obtain ⟨more, h₁', h₂'⟩ := hb.output
    exact ⟨text ++ more, by rw [← String.append_assoc, ← h₁]; exact h₁',
      by rw [← String.append_assoc, ← h₂]; exact h₂'⟩

theorem journal (h : Twins S K a₁ a₂ w₁ w₂) (j₁ j₂ : Array Event) :
    Twins S K a₁ a₂ { w₁ with journal := j₁ } { w₂ with journal := j₂ } :=
  { h with }

theorem onDice (h : Twins S K a₁ a₂ w₁ w₂) (dice : σ) :
    Twins S K a₁ a₂ { w₁ with dice } { w₂ with dice } :=
  { h with dice := rfl }

theorem printLine (h : Twins S K a₁ a₂ w₁ w₂) (line : String) :
    Twins S K a₁ a₂ { w₁ with output := w₁.output ++ line ++ "\n" }
      { w₂ with output := w₂.output ++ line ++ "\n" } := by
  obtain ⟨text, h₁, h₂⟩ := h.output
  refine { h with output := ⟨text ++ line ++ "\n", ?_, ?_⟩ }
  · simp only [h₁, String.append_assoc]
  · simp only [h₂, String.append_assoc]

theorem lookup_eq (h : Twins S K a₁ a₂ w₁ w₂) {s : Nat} (hs : s ∈ K) (name : String) :
    w₁.context.lookup (s : Index) name = w₂.context.lookup (s : Index) name :=
  h.contained.lookup_congr h.size_eq h.agree hs name

theorem value?_eq (h : Twins S K a₁ a₂ w₁ w₂) {s : Nat} (hs : s ∈ K) (name : String) :
    w₁.context.value? (s : Index) name = w₂.context.value? (s : Index) name := by
  unfold Context.value?
  rw [h.lookup_eq hs]

theorem function?_eq (h : Twins S K a₁ a₂ w₁ w₂) {s : Nat} (hs : s ∈ K) (name : String) :
    w₁.context.function? (s : Index) name = w₂.context.function? (s : Index) name := by
  unfold Context.function?
  rw [h.lookup_eq hs]

theorem isCallable_eq (h : Twins S K a₁ a₂ w₁ w₂) {s : Nat} (hs : s ∈ K) (name : String) :
    w₁.context.isCallable (s : Index) name = w₂.context.isCallable (s : Index) name := by
  unfold Context.isCallable
  rw [h.function?_eq hs]

end World.Twins

/-! ## Evaluations of twins -/

namespace World

variable {σ : Type} {p : Expr → Prop} {S : Context → Context → Prop} {K : Set Nat}
  {a₁ a₂ : World σ}

theorem couples_bind {j : Nat} (hj : j ∈ K) {name : String} {b : Binding}
    (hb : ∀ f, b = .function f → f.scope = (j : Index))
    (hS : ∀ {a c : Context}, S a c → j < c.scopes.size → S a (c.bind (j : Index) name b)) :
    Couples (Twins S K a₁ a₂) (bind (j : Index) name b) (bind (j : Index) name b) :=
  couples_modify fun _ _ h => h.bind hj hb hS

theorem couples_record (e : Event) : Couples (Twins S K a₁ a₂) (record e) (record e) :=
  couples_modify fun _ _ h => h.journal _ _

theorem couples_onDice (step : Step σ α) :
    Couples (Twins S K a₁ a₂) (onDice step) (onDice step) := by
  intro w₁ w₂ h
  simp only [onDice, within, ExceptT.run, ← h.dice]
  exact ⟨rfl, h.onDice _⟩

theorem couples_setVariable (U : Context.Upkeep p S) {s : Nat} (hs : s ∈ K) {n : String}
    (hn : p (.name n)) (v : Value) :
    Couples (Twins S K a₁ a₂) (setVariable (s : Index) n v) (setVariable (s : Index) n v) := by
  have hbind : ∀ j ∈ K, Couples (Twins S K a₁ a₂) (bind ((j : Nat) : Index) n (.value v))
      (bind (j : Index) n (.value v)) := fun j hj =>
    couples_bind hj nofun fun h hlt => U.value h hlt hn v
  refine couples_ask_bind (q := fun found => ∀ owner b, found = some (owner, b) →
      ∃ j ∈ K, owner = ((j : Nat) : Index))
    (fun _ _ h => h.lookup_eq hs n) (fun _ _ h found hfound owner b heq => ?_) fun found hq => ?_
  · obtain ⟨j, hj, howner, -⟩ := h.contained.lookup hs (heq ▸ hfound)
    exact ⟨j, hj, howner⟩
  · rcases found with _ | ⟨owner, b⟩
    · exact hbind s hs
    · obtain ⟨j, hj, rfl⟩ := hq owner b rfl
      exact hbind j hj

theorem couples_defineFunction (U : Context.Upkeep p S) {s : Nat} (hs : s ∈ K) {callee : String}
    {names : List String} {body : Expr} (hhead : (Expr.call callee (names.map .name)).All p)
    (hbody : body.All p) :
    Couples (Twins S K a₁ a₂) (defineFunction (s : Index) callee body names)
      (defineFunction (s : Index) callee body names) := by
  refine couples_get_bind fun w₁ w₂ h => ?_
  rw [← h.declared]
  refine (couples_modify fun _ _ h => ?_).bind fun _ => ?_
  · exact { h with declared := rfl }
  refine (couples_ask fun _ _ h => ?_).bind fun _ => ?_
  · simp only [Context.scope, Context.scope?_natCast, h.agree s hs]
  refine Couples.bind ?_ fun _ => couples_record _
  refine couples_bind hs ?_ fun h hlt =>
    U.function (f := ⟨callee, body, names, s, w₁.declared + 1⟩) h hlt rfl hhead hbody
  rintro f ⟨⟩
  rfl

theorem couples_bindArguments (U : Context.Upkeep p S) {s : Nat} (hs : s ∈ K) {names : List String}
    (hnames : ∀ n ∈ names, p (.name n)) (args : List Value) :
    Couples (Twins S K a₁ a₂) (bindArguments (s : Index) names args)
      (bindArguments (s : Index) names args) := by
  refine couples_bindArguments_of (fun n hn v => ?_) args
  exact couples_bind hs nofun fun h hlt => U.value h hlt (hnames n hn) v

/-- The body of a function is evaluated alike in twins that share its scope. -/
def EntersAlike (p : Expr → Prop) (S : Context → Context → Prop)
    (enter : Function → Nat → Run σ Outcome) : Prop :=
  ∀ (K : Set Nat) (a₁ a₂ : World σ) (f : Function) (child : Nat), child ∈ K → f.body.All p →
    Couples (Twins S K a₁ a₂) (enter f child) (enter f child)

theorem couples_invoke (U : Context.Upkeep p S) {enter : Function → Nat → Run σ Outcome}
    (henter : EntersAlike p S enter) {f : Function} {j : Nat} (hj : j ∈ K)
    (hscope : f.scope = (j : Index)) (hnames : ∀ n ∈ f.parameters, p (.name n))
    (hbody : f.body.All p) (name : String) (args : List Value) :
    Couples (Twins S K a₁ a₂) (f.invoke enter name args) (f.invoke enter name args) := by
  refine Function.couples_invoke hscope (fun _ _ h => h.size_eq)
    (fun _ _ h => h.contained.lt j hj) fun w₁ w₂ h => ?_
  have hcalled := h.journal (w₁.journal.push (.called name args))
    (w₂.journal.push (.called name args))
  refine ⟨_, hcalled.opened U hj name, ?_, fun b₁ b₂ hb => ⟨?_, ?_, hcalled.closed U hj hb⟩⟩
  · refine (couples_bindArguments U (Set.mem_insert _ _) hnames args).bind fun _ => ?_
    exact henter _ _ _ f _ (Set.mem_insert _ _) hbody
  · exact hb.frame₁.endsWith (h.contained.lt j hj)
  · have hend := hb.frame₂.endsWith (c := w₂.context) (h.size_eq ▸ h.contained.lt j hj)
    rw [h.size_eq] at hend
    exact hend

variable [DiceSource σ]

theorem couples_callBuiltin (name : String) (args : List Value) :
    Couples (Twins S K a₁ a₂) (callBuiltin name args) (callBuiltin name args) :=
  couples_callBuiltin_of (couples_onDice _) fun line =>
    couples_modify fun _ _ h => h.printLine line

theorem couples_callFunction (U : Context.Upkeep p S) {enter : Function → Nat → Run σ Outcome}
    (henter : EntersAlike p S enter) {s : Nat} (hs : s ∈ K) (name : String) (args : List Value) :
    Couples (Twins S K a₁ a₂) (callFunction enter (s : Index) name args)
      (callFunction enter (s : Index) name args) := by
  rw [callFunction_eq]
  refine couples_ask_bind (q := fun found => ∀ f, found = some f → ∃ j ∈ K,
      f.scope = ((j : Nat) : Index) ∧ (∀ n ∈ f.parameters, p (.name n)) ∧ f.body.All p)
    (fun _ _ h => h.function?_eq hs name) (fun _ _ h found hfound f hf => ?_) fun found hq => ?_
  · obtain ⟨j, hj, hscope, t, ht, hmem⟩ := h.contained.function? hs (hf ▸ hfound)
    exact ⟨j, hj, hscope, U.defined h.kept₁ ht hmem⟩
  · cases found with
    | none => exact couples_callBuiltin name args
    | some f =>
      obtain ⟨j, hj, hscope, hnames, hbody⟩ := hq f rfl
      exact couples_invoke U henter hj hscope hnames hbody name args

/-- Everything that an evaluation asks of twins is alike. -/
theorem alike_callFunction (U : Context.Upkeep p S) {enter : Function → Nat → Run σ Outcome}
    (henter : EntersAlike p S enter) {s : Nat} (hs : s ∈ K) :
    Expr.Alike (Twins S K a₁ a₂) p (callFunction enter) (callFunction enter) (s : Index) where
  value n := couples_ask fun _ _ h => h.value?_eq hs n
  callable n := couples_ask fun _ _ h => h.isCallable_eq hs n
  call := couples_callFunction U henter hs
  assign _ v hn := couples_setVariable U hs hn v
  define _ _ _ hhead hbody := couples_defineFunction U hs hhead hbody
  unary _ _ := couples_onDice _
  binary _ _ _ := couples_onDice _
  test _ := couples_onDice _

/-- Evaluations of one expression in a scope that twins share give the same result and leave twins
behind. -/
theorem couples_evalWithin (U : Context.Upkeep p S) (level : Nat) {s : Nat} (hs : s ∈ K) {e : Expr}
    (he : e.All p) : Couples (Twins S K a₁ a₂) (evalWithin level (s : Index) e)
      (evalWithin level (s : Index) e) := by
  induction level generalizing K a₁ a₂ s e with
  | zero =>
    exact Expr.couples_evalWith
      (alike_callFunction U (fun _ _ _ _ _ _ _ => couples_throw _) hs) he
  | succ level ih =>
    exact Expr.couples_evalWith
      (alike_callFunction U (fun _ _ _ _ _ hchild hbody => ih hchild hbody) hs) he

theorem couples_evalArena (U : Context.Upkeep p S) {s : Nat} (hs : s ∈ K) {a : Arena}
    (ha : ∀ e, a.expr? = some e → e.All p) :
    Couples (Twins S K a₁ a₂) (evalArena a (s : Index)) (evalArena a (s : Index)) :=
  couples_evalArena_of (fun _ _ h => h.size_eq) fun e he level =>
    couples_evalWithin U level hs (ha e he)

end World

end DiceTome
