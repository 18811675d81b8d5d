import DiceTome.Proofs.Bindings
import DiceTome.Proofs.ScannedKinds
import Mathlib.Logic.Relation

/-!
# The tree of scopes

The scopes of a context form a tree: every scope but the root lies in an earlier one, which lists it
under a name of its own. Functions know the scope they are bound in.

* `Context.IsTree` says so of a context, and `Context.Tidy` adds what is needed to keep it so: names
  in a scope are identifiers, except for those of the scopes below it.
* `Context.Tidy.bind_value`, `Context.Tidy.bind_function`, `Context.Tidy.opened` and
  `Context.Tidy.dropInnermost`: binding names, opening and closing scopes keep a context tidy.
* `Context.OnChain`: the scopes that are seen from a scope.
-/

namespace DiceTome

open Token (isName)

/-! ## Names of scopes -/

namespace Scope

theorem toList_childKey (name : String) (i : Nat) :
    (childKey name i).toList = '<' :: (name.toList ++ ':' :: (Nat.toDigits 10 i ++ ['>'])) := by
  have htext : childKey name i = "<" ++ name ++ ":" ++ Nat.repr i ++ ">" := rfl
  rw [htext]
  simp [Nat.toList_repr]

/-- The name under which a scope is listed tells its index. -/
theorem childKey_inj {a b : String} {i j : Nat} (h : childKey a i = childKey b j) : i = j := by
  -- the digits are what stands behind the last colon
  have hcolon : ∀ (name : String) (k : Nat),
      (childKey name k).toList.reverse.takeWhile (· != ':') = '>' :: (Nat.toDigits 10 k).reverse := by
    intro name k
    have hdigits : ∀ c ∈ (Nat.toDigits 10 k).reverse, (c != ':') = true := by
      intro c hc
      have hdigit := Nat.isDigit_of_mem_toDigits (by decide) (by decide) (List.mem_reverse.mp hc)
      rw [bne_iff_ne]
      rintro rfl
      exact absurd hdigit (by decide)
    simp [toList_childKey, List.takeWhile_append_of_pos hdigits]
  have hsame := hcolon a i
  rw [h, hcolon b j, List.cons.injEq, List.reverse_inj] at hsame
  have hvalues := congrArg (Nat.ofDigitChars 10 · 0) hsame.2
  simp only [Nat.ofDigitChars_toDigits (b := 10) (by decide) (by decide)] at hvalues
  exact hvalues.symm

theorem childKey_ne_of_isName {n : String} (h : isName n = true) (name : String) (i : Nat) :
    childKey name i ≠ n := by
  rintro rfl
  obtain ⟨c, cs, hchars, hstart, -⟩ := Token.isName_iff.mp h
  rw [toList_childKey] at hchars
  cases hchars
  exact absurd hstart (by decide)

/-! ## Scopes below a scope -/

/-- The scopes that a scope lists below it, with the names it lists them under. -/
def children (s : Scope) : List (String × Nat) :=
  s.bindings.filterMap fun
    | (name, .child i) => some (name, i)
    | _ => none

theorem mem_children {s : Scope} {key : String} {i : Nat} :
    (key, i) ∈ s.children ↔ (key, Binding.child i) ∈ s.bindings := by
  simp only [children, List.mem_filterMap]
  constructor
  · rintro ⟨⟨name, b⟩, hmem, hb⟩
    cases b with
    | child j =>
      cases hb
      exact hmem
    | _ => cases hb
  · exact fun hmem => ⟨_, hmem, rfl⟩

theorem insertInto_of_not_mem {name : String} (b : Binding) {bindings : List (String × Binding)}
    (h : name ∉ bindings.map Prod.fst) : insertInto name b bindings = bindings ++ [(name, b)] := by
  induction bindings with
  | nil => rfl
  | cons first rest ih =>
    simp only [List.map_cons, List.mem_cons, not_or] at h
    simp [insertInto, Ne.symm h.1, ih h.2]

/-- Binding a name that lists no scope keeps the list of the scopes below. -/
theorem children_insert {s : Scope} {name : String} {b : Binding} (hb : ∀ i, b ≠ .child i)
    (hname : ∀ i, (name, Binding.child i) ∉ s.bindings) : (s.insert name b).children = s.children := by
  obtain ⟨parent, scopeName, bindings⟩ := s
  simp only [children, insert] at hname ⊢
  induction bindings with
  | nil =>
    cases b with
    | child i => exact absurd rfl (hb i)
    | _ => rfl
  | cons first rest ih =>
    obtain ⟨m, old⟩ := first
    have hrest := ih fun i hi => hname i (List.mem_cons_of_mem _ hi)
    simp only [insertInto]
    split
    · rename_i heq
      subst heq
      cases old with
      | child i => exact absurd List.mem_cons_self (hname i)
      | _ =>
        cases b with
        | child i => exact absurd rfl (hb i)
        | _ => rfl
    · simp only [List.filterMap_cons, hrest]

theorem children_insert_child {s : Scope} {key : String} {i : Nat} (h : key ∉ s.keys) :
    (s.insert key (.child i)).children = s.children ++ [(key, i)] := by
  simp [children, insert, insertInto_of_not_mem _ h]

theorem children_erase (s : Scope) (key : String) :
    (s.erase key).children = s.children.filter fun p => p.1 ≠ key := by
  obtain ⟨parent, scopeName, bindings⟩ := s
  simp only [children, erase]
  induction bindings with
  | nil => rfl
  | cons first rest ih =>
    obtain ⟨m, b⟩ := first
    by_cases hm : m = key <;> cases b <;> simp_all

@[simp]
theorem parent_insert (s : Scope) (name : String) (b : Binding) :
    (s.insert name b).parent = s.parent := rfl

@[simp]
theorem name_insert (s : Scope) (name : String) (b : Binding) : (s.insert name b).name = s.name :=
  rfl

@[simp]
theorem parent_erase (s : Scope) (name : String) : (s.erase name).parent = s.parent := rfl

@[simp]
theorem name_erase (s : Scope) (name : String) : (s.erase name).name = s.name := rfl

theorem erase_insert {s : Scope} {name : String} (b : Binding) (h : name ∉ s.keys) :
    (s.insert name b).erase name = s := by
  obtain ⟨parent, scopeName, bindings⟩ := s
  simp only [erase, insert, insertInto_of_not_mem _ h, List.filter_append]
  have hall : bindings.filter (fun p => decide (p.1 ≠ name)) = bindings := by
    refine List.filter_eq_self.mpr fun p hp => ?_
    rw [decide_eq_true_iff]
    exact fun heq => h (List.mem_map.mpr ⟨p, hp, heq⟩)
  rw [hall]
  simp

end Scope

/-! ## Trees of scopes -/

namespace Context

/-- The scopes form a tree: only the root lies in no scope, every other scope lies in an earlier
one, and every scope lists exactly those that lie in it. -/
structure IsTree (c : Context) : Prop where
  root : ∃ s, c.scopes[0]? = some s ∧ s.parent = none
  parent : ∀ i s, c.scopes[i]? = some s → i ≠ 0 → ∃ p : Nat, p < i ∧ s.parent = some (p : Index)
  nodup_children : ∀ (p : Nat) s, c.scopes[p]? = some s → (s.children.map Prod.snd).Nodup
  mem_children : ∀ (p : Nat) s, c.scopes[p]? = some s → ∀ key i, (key, i) ∈ s.children ↔
    ∃ t, c.scopes[i]? = some t ∧ t.parent = some (p : Index) ∧ key = Scope.childKey t.name i

/-- The second context has the same scopes as the first, with the same scopes below each of them. -/
structure SameTree (c c' : Context) : Prop where
  size_eq : c'.scopes.size = c.scopes.size
  scope : ∀ (i : Nat) s, c.scopes[i]? = some s → ∃ s', c'.scopes[i]? = some s' ∧
    s'.parent = s.parent ∧ s'.name = s.name ∧ s'.children = s.children

variable {c c' c'' : Context}

theorem SameTree.refl (c : Context) : SameTree c c :=
  ⟨rfl, fun _ s hs => ⟨s, hs, rfl, rfl, rfl⟩⟩

theorem SameTree.trans (h : SameTree c c') (h' : SameTree c' c'') : SameTree c c'' := by
  refine ⟨h'.size_eq.trans h.size_eq, fun i s hs => ?_⟩
  obtain ⟨s', hs', hparent, hname, hchildren⟩ := h.scope i s hs
  obtain ⟨s'', hs'', hparent', hname', hchildren'⟩ := h'.scope i s' hs'
  exact ⟨s'', hs'', hparent'.trans hparent, hname'.trans hname, hchildren'.trans hchildren⟩

theorem SameTree.symm (h : SameTree c c') : SameTree c' c := by
  refine ⟨h.size_eq.symm, fun i s' hs' => ?_⟩
  have hlt : i < c.scopes.size := by
    rw [← h.size_eq]
    exact (Array.getElem?_eq_some_iff.mp hs').1
  obtain ⟨t, ht, hparent, hname, hchildren⟩ := h.scope i _ (Array.getElem?_eq_getElem hlt)
  rw [hs'] at ht
  cases ht
  exact ⟨_, Array.getElem?_eq_getElem hlt, hparent.symm, hname.symm, hchildren.symm⟩

theorem IsTree.of_sameTree (h : c.IsTree) (hsame : SameTree c c') : c'.IsTree := by
  constructor
  · obtain ⟨s, hs, hroot⟩ := h.root
    obtain ⟨s', hs', hparent, -⟩ := hsame.scope 0 s hs
    exact ⟨s', hs', hparent.trans hroot⟩
  · intro i s' hs' hi
    obtain ⟨s, hs, hparent, -⟩ := hsame.symm.scope i s' hs'
    rw [← hparent]
    exact h.parent i s hs hi
  · intro p s' hs'
    obtain ⟨s, hs, -, -, hchildren⟩ := hsame.symm.scope p s' hs'
    rw [← hchildren]
    exact h.nodup_children p s hs
  · intro p s' hs' key i
    obtain ⟨s, hs, -, -, hchildren⟩ := hsame.symm.scope p s' hs'
    rw [← hchildren, h.mem_children p s hs]
    constructor
    · rintro ⟨t, ht, hparent, rfl⟩
      obtain ⟨t', ht', hparent', hname', -⟩ := hsame.scope i t ht
      exact ⟨t', ht', hparent'.trans hparent, by rw [hname']⟩
    · rintro ⟨t', ht', hparent', rfl⟩
      obtain ⟨t, ht, hparent, hname, -⟩ := hsame.symm.scope i t' ht'
      exact ⟨t, ht, hparent.trans hparent', by rw [hname]⟩

/-! ## Scopes that are seen from a scope -/

/-- The scope `i` lies in the scope `p`. -/
def LiesIn (c : Context) (i p : Nat) : Prop :=
  ∃ s, c.scopes[i]? = some s ∧ s.parent = some (p : Index)

/-- The scope `i` is the scope `s`, or `s` lies in it, however deep. -/
def OnChain (c : Context) : Nat → Nat → Prop :=
  Relation.ReflTransGen c.LiesIn

theorem IsTree.liesIn_lt (h : c.IsTree) {i p : Nat} (hp : c.LiesIn i p) : p < i := by
  obtain ⟨s, hs, hparent⟩ := hp
  by_cases hi : i = 0
  · subst hi
    obtain ⟨root, hroot, hnone⟩ := h.root
    rw [hs] at hroot
    cases hroot
    rw [hnone] at hparent
    cases hparent
  · obtain ⟨q, hlt, hq⟩ := h.parent i s hs hi
    rw [hparent] at hq
    have heq : p = q := Int.ofNat_inj.mp (Option.some.inj hq)
    omega

theorem IsTree.onChain_le (h : c.IsTree) {s i : Nat} (hi : c.OnChain s i) : i ≤ s := by
  induction hi with
  | refl => exact Nat.le_refl s
  | tail _ hp ih => exact Nat.le_trans (Nat.le_of_lt (h.liesIn_lt hp)) ih

/-! ## Changing a scope -/

@[simp]
theorem scope?_natCast (c : Context) (i : Nat) : c.scope? (i : Index) = c.scopes[i]? := by
  unfold scope?
  rw [Index.position?_natCast]
  split
  · rfl
  · rename_i h
    exact (Array.getElem?_eq_none (Nat.not_lt.mp h)).symm

@[simp]
theorem size_modifyScope (c : Context) (index : Index) (change : Scope → Scope) :
    (c.modifyScope index change).scopes.size = c.scopes.size := by
  unfold modifyScope
  split <;> simp

theorem getElem?_modifyScope (c : Context) (j i : Nat) (change : Scope → Scope) :
    (c.modifyScope (j : Index) change).scopes[i]? =
      if j = i then c.scopes[i]?.map change else c.scopes[i]? := by
  unfold modifyScope
  rw [Index.position?_natCast]
  split
  · rename_i k hk
    split at hk
    · cases hk
      exact Array.getElem?_modify
    · cases hk
  · rename_i hk
    split at hk
    · cases hk
    · rename_i hlt
      split
      · rename_i heq
        subst heq
        rw [Array.getElem?_eq_none (Nat.not_lt.mp hlt)]
        rfl
      · rfl

/-- A change that keeps what a scope lies in, its name and the scopes below it keeps the tree. -/
theorem sameTree_modifyScope {j : Nat} {change : Scope → Scope}
    (h : ∀ s, c.scopes[j]? = some s → (change s).parent = s.parent ∧ (change s).name = s.name ∧
      (change s).children = s.children) : SameTree c (c.modifyScope (j : Index) change) := by
  refine ⟨size_modifyScope c _ change, fun i s hs => ?_⟩
  rw [getElem?_modifyScope, hs]
  split
  · rename_i heq
    exact ⟨change s, rfl, h s (heq ▸ hs)⟩
  · exact ⟨s, rfl, rfl, rfl, rfl⟩

end Context

/-! ## Tidy contexts -/

/-- The names in a part of an expression are identifiers. -/
def Expr.Named : Expr → Prop
  | name n | call n _ => isName n = true
  | _ => True

/-- A function that knows its name and the scope `j` it is bound in, and whose names are
identifiers. -/
structure Function.Tidy (j : Nat) (n : String) (f : Function) : Prop where
  name_eq : f.name = n
  scope_eq : f.scope = (j : Index)
  parameters : ∀ parameter ∈ f.parameters, isName parameter = true
  body : f.body.All Expr.Named

/-- What an identifier is bound to in the scope `j`; scopes are listed under other names. -/
def Binding.Tidy (j : Nat) (n : String) : Binding → Prop
  | .value _ => isName n = true
  | .function f => isName n = true ∧ f.Tidy j n
  | .child _ => True

/-- No name is bound twice in the scope `j`, and every identifier is bound tidily. -/
structure Scope.Tidy (j : Nat) (s : Scope) : Prop where
  nodup : s.keys.Nodup
  tidy : ∀ n b, (n, b) ∈ s.bindings → b.Tidy j n

theorem Scope.Tidy.insert {j : Nat} {s : Scope} (h : s.Tidy j) {name : String} {b : Binding}
    (hb : b.Tidy j name) : (s.insert name b).Tidy j := by
  refine ⟨nodup_keys_insert name b h.nodup, fun n b' hmem => ?_⟩
  rcases mem_insertInto hmem with ⟨rfl, rfl⟩ | hold
  · exact hb
  · exact h.tidy n b' hold

theorem Scope.Tidy.erase {j : Nat} {s : Scope} (h : s.Tidy j) (key : String) :
    (s.erase key).Tidy j :=
  ⟨h.nodup.sublist (List.filter_sublist.map _), fun n b hmem =>
    h.tidy n b (List.mem_filter.mp hmem).1⟩

namespace Context

variable {c : Context}

/-- A tree of scopes, each of them tidy. -/
structure Tidy (c : Context) : Prop where
  tree : c.IsTree
  scope : ∀ (j : Nat) s, c.scopes[j]? = some s → s.Tidy j

theorem Tidy.modifyScope (h : c.Tidy) {j : Nat} {change : Scope → Scope}
    (hsame : SameTree c (c.modifyScope (j : Index) change))
    (hchange : ∀ s, c.scopes[j]? = some s → s.Tidy j → (change s).Tidy j) :
    (c.modifyScope (j : Index) change).Tidy := by
  refine ⟨h.tree.of_sameTree hsame, fun i s hs => ?_⟩
  rw [getElem?_modifyScope] at hs
  split at hs
  · rename_i heq
    subst heq
    obtain ⟨old, hold, rfl⟩ := Option.map_eq_some_iff.mp hs
    exact hchange old hold (h.scope j old hold)
  · exact h.scope i s hs

/-- Binding an identifier keeps the tree. -/
theorem Tidy.sameTree_bind (h : c.Tidy) (j : Nat) {name : String} {b : Binding}
    (hname : isName name = true) (hb : ∀ k, b ≠ .child k) :
    SameTree c (c.bind (j : Index) name b) := by
  refine sameTree_modifyScope fun s hs => ⟨rfl, rfl, Scope.children_insert hb fun k hk => ?_⟩
  obtain ⟨t, -, -, hkey⟩ := (h.tree.mem_children j s hs name k).mp (Scope.mem_children.mpr hk)
  exact Scope.childKey_ne_of_isName hname t.name k hkey.symm

theorem Tidy.bind_value (h : c.Tidy) (j : Nat) {name : String} (hname : isName name = true)
    (v : Value) : (c.bind (j : Index) name (.value v)).Tidy :=
  h.modifyScope (h.sameTree_bind j hname nofun) fun _ _ hs => hs.insert hname

theorem Tidy.bind_function (h : c.Tidy) {j : Nat} {name : String} (hname : isName name = true)
    {f : Function} (hf : f.Tidy j name) : (c.bind (j : Index) name (.function f)).Tidy :=
  h.modifyScope (h.sameTree_bind j hname nofun) fun _ _ hs => hs.insert ⟨hname, hf⟩

theorem tidy_empty : Tidy {} := by
  have honly : ∀ (i : Nat) s, (#[{}] : Array Scope)[i]? = some s → i = 0 ∧ s = {} := by
    intro i s hs
    have hlt : i < 1 := (Array.getElem?_eq_some_iff.mp hs).1
    obtain rfl : i = 0 := by omega
    exact ⟨rfl, (Option.some.inj hs).symm⟩
  refine ⟨⟨⟨{}, rfl, rfl⟩, fun i s hs hi => ?_, fun p s hs => ?_, fun p s hs key i => ?_⟩,
    fun j s hs => ?_⟩
  · exact absurd (honly i s hs).1 hi
  · rw [(honly p s hs).2]
    exact List.nodup_nil
  · rw [(honly p s hs).2]
    refine ⟨nofun, fun ⟨t, ht, hparent, _⟩ => ?_⟩
    rw [(honly i t ht).2] at hparent
    cases hparent
  · rw [(honly j s hs).2]
    exact ⟨List.nodup_nil, nofun⟩

/-! ## Opening a scope -/

/-- The context with a new scope in the scope `j`. -/
def opened (c : Context) (j : Nat) (name : String) : Context :=
  Context.bind ⟨c.scopes.push { parent := some (j : Index), name }⟩ (j : Index)
    (Scope.childKey name c.scopes.size) (.child c.scopes.size)

@[simp]
theorem size_opened (c : Context) (j : Nat) (name : String) :
    (c.opened j name).scopes.size = c.scopes.size + 1 := by
  simp [opened, Context.bind]

theorem getElem?_opened {j : Nat} (hj : j < c.scopes.size) (name : String) (i : Nat) :
    (c.opened j name).scopes[i]? =
      if i = c.scopes.size then some { parent := some (j : Index), name }
      else if j = i then c.scopes[i]?.map
        (·.insert (Scope.childKey name c.scopes.size) (.child c.scopes.size))
      else c.scopes[i]? := by
  rw [opened, Context.bind, getElem?_modifyScope, Array.getElem?_push]
  split
  · rename_i hji
    subst hji
    rw [if_neg (Nat.ne_of_lt hj), if_neg (Nat.ne_of_lt hj)]
  · rfl

/-- A scope is listed under a name that is new to the scope it lies in. -/
theorem Tidy.childKey_not_mem (h : c.Tidy) {j : Nat} {s : Scope} (hs : c.scopes[j]? = some s)
    (name : String) {k : Nat} (hk : c.scopes.size ≤ k) : Scope.childKey name k ∉ s.keys := by
  intro hmem
  obtain ⟨⟨key, b⟩, hb, hkey⟩ := List.mem_map.mp hmem
  subst hkey
  have htidy := (h.scope j s hs).tidy _ b hb
  cases b with
  | value v => exact Scope.childKey_ne_of_isName htidy name k rfl
  | function f => exact Scope.childKey_ne_of_isName htidy.1 name k rfl
  | child i =>
    obtain ⟨t, ht, -, hkey⟩ := (h.tree.mem_children j s hs _ i).mp (Scope.mem_children.mpr hb)
    have hlt : i < c.scopes.size := (Array.getElem?_eq_some_iff.mp ht).1
    have heq : k = i := Scope.childKey_inj hkey
    omega

/-- A scope from before is as it was once another one is opened, but for the new scope below it. -/
theorem Tidy.exists_of_opened (h : c.Tidy) {j : Nat} (hj : j < c.scopes.size) (name : String)
    {i : Nat} {old : Scope} (hold : c.scopes[i]? = some old) :
    ∃ s, (c.opened j name).scopes[i]? = some s ∧ s.parent = old.parent ∧ s.name = old.name ∧
      s.Tidy i ∧ s.children = old.children ++
        if i = j then [(Scope.childKey name c.scopes.size, c.scopes.size)] else [] := by
  have hlt : i < c.scopes.size := (Array.getElem?_eq_some_iff.mp hold).1
  rw [getElem?_opened hj, if_neg (Nat.ne_of_lt hlt), hold]
  by_cases hi : j = i
  · subst hi
    rw [if_pos rfl, if_pos rfl]
    exact ⟨_, rfl, rfl, rfl, (h.scope j old hold).insert trivial,
      Scope.children_insert_child (h.childKey_not_mem hold name (Nat.le_refl _))⟩
  · rw [if_neg hi, if_neg (Ne.symm hi)]
    exact ⟨old, rfl, rfl, rfl, h.scope i old hold, (List.append_nil _).symm⟩

/-- A scope is the one that was opened, or one from before. -/
theorem Tidy.opened_cases (h : c.Tidy) {j : Nat} (hj : j < c.scopes.size) {name : String} {i : Nat}
    {s : Scope} (hs : (c.opened j name).scopes[i]? = some s) :
    (i = c.scopes.size ∧ s = { parent := some (j : Index), name }) ∨
      ∃ old, c.scopes[i]? = some old ∧ s.parent = old.parent ∧ s.name = old.name ∧ s.Tidy i ∧
        s.children = old.children ++
          if i = j then [(Scope.childKey name c.scopes.size, c.scopes.size)] else [] := by
  by_cases hi : i = c.scopes.size
  · rw [getElem?_opened hj, if_pos hi] at hs
    exact .inl ⟨hi, (Option.some.inj hs).symm⟩
  · have hsize := (Array.getElem?_eq_some_iff.mp hs).1
    rw [size_opened] at hsize
    have hlt : i < c.scopes.size := by omega
    obtain ⟨s', hs', hrest⟩ := h.exists_of_opened hj name (Array.getElem?_eq_getElem hlt)
    rw [hs] at hs'
    cases hs'
    exact .inr ⟨_, Array.getElem?_eq_getElem hlt, hrest⟩

/-- The scopes that lie in a scope are those from before, and the new one if it was opened there. -/
theorem Tidy.lies_opened_iff (h : c.Tidy) {j : Nat} (hj : j < c.scopes.size) {name key : String}
    {p i : Nat} :
    (∃ t, (c.opened j name).scopes[i]? = some t ∧ t.parent = some (p : Index) ∧
        key = Scope.childKey t.name i) ↔
      (∃ t, c.scopes[i]? = some t ∧ t.parent = some (p : Index) ∧
        key = Scope.childKey t.name i) ∨
      (p = j ∧ i = c.scopes.size ∧ key = Scope.childKey name c.scopes.size) := by
  constructor
  · rintro ⟨t, ht, hparent, rfl⟩
    rcases h.opened_cases hj ht with ⟨rfl, rfl⟩ | ⟨old, hold, hp, hn, -⟩
    · exact .inr ⟨(Int.ofNat_inj.mp (Option.some.inj hparent)).symm, rfl, rfl⟩
    · exact .inl ⟨old, hold, hp.symm.trans hparent, by rw [hn]⟩
  · rintro (⟨t, ht, hparent, rfl⟩ | ⟨rfl, rfl, rfl⟩)
    · obtain ⟨s, hs, hp, hn, -⟩ := h.exists_of_opened hj name ht
      exact ⟨s, hs, hp.trans hparent, by rw [hn]⟩
    · exact ⟨_, (getElem?_opened hj name _).trans (if_pos rfl), rfl, rfl⟩

/-- The scopes below a scope come before the end of the context. -/
theorem IsTree.lt_of_mem_children (h : c.IsTree) {p : Nat} {s : Scope}
    (hs : c.scopes[p]? = some s) {key : String} {i : Nat} (hi : (key, i) ∈ s.children) :
    i < c.scopes.size := by
  obtain ⟨t, ht, -⟩ := (h.mem_children p s hs key i).mp hi
  exact (Array.getElem?_eq_some_iff.mp ht).1

theorem Tidy.opened (h : c.Tidy) {j : Nat} (hj : j < c.scopes.size) (name : String) :
    (c.opened j name).Tidy := by
  refine ⟨⟨?_, fun i s hs hi => ?_, fun p s hs => ?_, fun p s hs key i => ?_⟩, fun i s hs => ?_⟩
  · obtain ⟨s, hs, hroot⟩ := h.tree.root
    obtain ⟨s', hs', hp, -⟩ := h.exists_of_opened hj name hs
    exact ⟨s', hs', hp.trans hroot⟩
  · rcases h.opened_cases hj hs with ⟨rfl, rfl⟩ | ⟨old, hold, hp, -⟩
    · exact ⟨j, hj, rfl⟩
    · rw [hp]
      exact h.tree.parent i old hold hi
  · rcases h.opened_cases hj hs with ⟨rfl, rfl⟩ | ⟨old, hold, -, -, -, hchildren⟩
    · exact List.nodup_nil
    · rw [hchildren, List.map_append, List.nodup_append]
      refine ⟨h.tree.nodup_children p old hold, by split <;> simp, fun a ha b hb => ?_⟩
      obtain ⟨⟨key, i⟩, hi, rfl⟩ := List.mem_map.mp ha
      have hlt := h.tree.lt_of_mem_children hold hi
      have hb' : b = c.scopes.size := by
        split at hb <;> simp_all
      exact hb' ▸ Nat.ne_of_lt hlt
  · rw [h.lies_opened_iff hj]
    rcases h.opened_cases hj hs with ⟨rfl, rfl⟩ | ⟨old, hold, -, -, -, hchildren⟩
    · -- nothing lies in the new scope
      refine ⟨nofun, ?_⟩
      rintro (⟨t, ht, hparent, -⟩ | ⟨rfl, -, -⟩)
      · have hlt := h.tree.liesIn_lt ⟨t, ht, hparent⟩
        have hlt' : i < c.scopes.size := (Array.getElem?_eq_some_iff.mp ht).1
        omega
      · omega
    · rw [hchildren, List.mem_append, h.tree.mem_children p old hold]
      split <;> simp [*, and_comm]
  · rcases h.opened_cases hj hs with ⟨rfl, rfl⟩ | ⟨old, -, -, -, htidy, -⟩
    · exact ⟨List.nodup_nil, nofun⟩
    · exact htidy

/-! ## Closing a scope -/

@[simp]
theorem size_dropInnermost (c : Context) :
    (World.dropInnermost c).scopes.size = c.scopes.size - 1 := by
  unfold World.dropInnermost
  split
  · rename_i h
    have hsize : c.scopes.size = 0 := by simpa using h
    omega
  · dsimp only
    split <;> simp

/-- The last scope of the context is `k`, has the given name and lies in the earlier scope `j`. -/
structure EndsWith (c : Context) (k j : Nat) (name : String) : Prop where
  size_eq : c.scopes.size = k + 1
  lt : j < k
  last : ∃ t, c.scopes[k]? = some t ∧ t.parent = some (j : Index) ∧ t.name = name

theorem endsWith_opened {j : Nat} (hj : j < c.scopes.size) (name : String) :
    (c.opened j name).EndsWith c.scopes.size j name := by
  refine ⟨size_opened c j name, hj, { parent := some (j : Index), name }, ?_, rfl, rfl⟩
  rw [getElem?_opened hj, if_pos rfl]

theorem getElem?_dropInnermost {k j : Nat} {name : String} (h : c.EndsWith k j name) (i : Nat) :
    (World.dropInnermost c).scopes[i]? =
      if k ≤ i then none
      else if j = i then c.scopes[i]?.map (·.erase (Scope.childKey name k))
      else c.scopes[i]? := by
  obtain ⟨hsize, -, t, ht, hparent, rfl⟩ := h
  have hback : c.scopes.back? = some t := by
    rw [Array.back?_eq_getElem?, hsize]
    exact ht
  have hpop : c.scopes.pop.size = k := by simp [hsize]
  unfold World.dropInnermost
  rw [hback]
  dsimp only
  rw [hparent]
  dsimp only
  rw [getElem?_modifyScope, hpop, Array.getElem?_pop, hsize, Nat.add_sub_cancel]
  by_cases hi : i < k
  · rw [if_pos hi, if_neg (Nat.not_le.mpr hi)]
  · rw [if_neg hi, if_pos (Nat.not_lt.mp hi)]
    split <;> rfl

/-- Closing the scope that was opened last. -/
theorem Tidy.dropInnermost_opened (h : c.Tidy) {j : Nat} (hj : j < c.scopes.size) (name : String) :
    World.dropInnermost (c.opened j name) = c := by
  have hget := getElem?_dropInnermost (endsWith_opened hj name)
  have hscopes : (World.dropInnermost (c.opened j name)).scopes = c.scopes := by
    refine Array.ext_getElem? fun i => ?_
    rw [hget, getElem?_opened hj]
    split
    · rename_i hle
      exact (Array.getElem?_eq_none hle).symm
    · rename_i hlt
      have hne : i ≠ c.scopes.size := by omega
      simp only [if_neg hne]
      split
      · rename_i heq
        subst heq
        cases hs : c.scopes[j]? with
        | none => rfl
        | some s =>
          have hnew := h.childKey_not_mem hs name (Nat.le_refl _)
          rw [Option.map_some, Option.map_some, Scope.erase_insert _ hnew]
      · rfl
  exact congrArg Context.mk hscopes

/-- The last scope of a tree, unless it is the root. -/
theorem IsTree.endsWith (h : c.IsTree) {k : Nat} (hsize : c.scopes.size = k + 1) (hk : k ≠ 0) :
    ∃ j name, c.EndsWith k j name := by
  have hlt : k < c.scopes.size := by omega
  have ht := Array.getElem?_eq_getElem hlt
  obtain ⟨j, hj, hparent⟩ := h.parent k _ ht hk
  exact ⟨j, _, hsize, hj, _, ht, hparent, rfl⟩

theorem SameTree.endsWith (h : SameTree c c') {k j : Nat} {name : String}
    (hend : c.EndsWith k j name) : c'.EndsWith k j name := by
  obtain ⟨hsize, hlt, t, ht, hparent, hname⟩ := hend
  obtain ⟨t', ht', hparent', hname', -⟩ := h.scope k t ht
  exact ⟨h.size_eq.trans hsize, hlt, t', ht', hparent'.trans hparent, hname'.trans hname⟩

theorem SameTree.dropInnermost (h : SameTree c c') {k j : Nat} {name : String}
    (hend : c.EndsWith k j name) :
    SameTree (World.dropInnermost c) (World.dropInnermost c') := by
  refine ⟨by simp [h.size_eq], fun i s hs => ?_⟩
  rw [getElem?_dropInnermost hend] at hs
  rw [getElem?_dropInnermost (h.endsWith hend)]
  split at hs
  · cases hs
  · rename_i hlt
    rw [if_neg hlt]
    split at hs
    · obtain ⟨old, hold, rfl⟩ := Option.map_eq_some_iff.mp hs
      obtain ⟨s', hs', hp, hn, hch⟩ := h.scope i old hold
      rw [if_pos ‹_›, hs']
      exact ⟨_, rfl, hp, hn, by simp only [Scope.children_erase, hch]⟩
    · obtain ⟨s', hs', hp, hn, hch⟩ := h.scope i s hs
      rw [if_neg ‹_›, hs']
      exact ⟨s', rfl, hp, hn, hch⟩

/-- The scopes below a scope are those from before, but for the last one. -/
theorem Tidy.mem_children_erase (h : c.Tidy) {k j : Nat} {name : String}
    (hend : c.EndsWith k j name) {s : Scope} (hs : c.scopes[j]? = some s) {key : String} {q : Nat} :
    (key, q) ∈ (s.erase (Scope.childKey name k)).children ↔ (key, q) ∈ s.children ∧ q ≠ k := by
  obtain ⟨-, -, t, ht, -, rfl⟩ := hend
  rw [Scope.children_erase, List.mem_filter]
  refine and_congr_right fun hq => ?_
  obtain ⟨t', ht', -, rfl⟩ := (h.tree.mem_children j s hs key q).mp hq
  rw [decide_eq_true_iff]
  refine not_congr ⟨Scope.childKey_inj, ?_⟩
  rintro rfl
  rw [ht] at ht'
  cases ht'
  rfl

/-- The last scope is listed by the scope it lies in only. -/
theorem Tidy.ne_of_mem_children (h : c.Tidy) {k j : Nat} {name : String}
    (hend : c.EndsWith k j name) {i : Nat} (hi : j ≠ i) {s : Scope} (hs : c.scopes[i]? = some s)
    {key : String} {q : Nat} (hq : (key, q) ∈ s.children) : q ≠ k := by
  rintro rfl
  obtain ⟨-, -, t, ht, hparent, -⟩ := hend
  obtain ⟨t', ht', hparent', -⟩ := (h.tree.mem_children i s hs key q).mp hq
  rw [ht] at ht'
  cases ht'
  rw [hparent] at hparent'
  exact hi (Int.ofNat_inj.mp (Option.some.inj hparent'))

/-- Once the last scope is closed, a scope is one from before, but for the scopes below it. -/
theorem Tidy.dropInnermost_cases (h : c.Tidy) {k j : Nat} {name : String}
    (hend : c.EndsWith k j name) {i : Nat} {s : Scope}
    (hs : (World.dropInnermost c).scopes[i]? = some s) :
    i < k ∧ ∃ old, c.scopes[i]? = some old ∧ s.parent = old.parent ∧ s.name = old.name ∧
      s.Tidy i ∧ (s.children.map Prod.snd).Sublist (old.children.map Prod.snd) ∧
      ∀ key q, (key, q) ∈ s.children ↔ (key, q) ∈ old.children ∧ q ≠ k := by
  rw [getElem?_dropInnermost hend] at hs
  split at hs
  · cases hs
  · rename_i hlt
    refine ⟨Nat.not_le.mp hlt, ?_⟩
    split at hs
    · rename_i heq
      subst heq
      obtain ⟨old, hold, rfl⟩ := Option.map_eq_some_iff.mp hs
      refine ⟨old, hold, rfl, rfl, (h.scope j old hold).erase _, ?_, fun key q =>
        h.mem_children_erase hend hold⟩
      rw [Scope.children_erase]
      exact List.filter_sublist.map _
    · rename_i hne
      exact ⟨s, hs, rfl, rfl, h.scope i s hs, List.Sublist.refl _, fun key q =>
        ⟨fun hq => ⟨hq, h.ne_of_mem_children hend hne hs hq⟩, And.left⟩⟩

/-- The scopes before the last one stay where they are. -/
theorem exists_of_dropInnermost {k j : Nat} {name : String} (hend : c.EndsWith k j name) {i : Nat}
    (hi : i < k) {old : Scope} (hold : c.scopes[i]? = some old) :
    ∃ s, (World.dropInnermost c).scopes[i]? = some s ∧ s.parent = old.parent ∧
      s.name = old.name := by
  rw [getElem?_dropInnermost hend, if_neg (Nat.not_le.mpr hi), hold]
  split
  · exact ⟨_, rfl, rfl, rfl⟩
  · exact ⟨old, rfl, rfl, rfl⟩

theorem Tidy.dropInnermost (h : c.Tidy) {k j : Nat} {name : String} (hend : c.EndsWith k j name) :
    (World.dropInnermost c).Tidy := by
  refine ⟨⟨?_, fun i s hs hi => ?_, fun p s hs => ?_, fun p s hs key q => ?_⟩, fun i s hs => ?_⟩
  · obtain ⟨s, hs, hroot⟩ := h.tree.root
    obtain ⟨s', hs', hp, -⟩ := exists_of_dropInnermost hend (Nat.zero_lt_of_lt hend.lt) hs
    exact ⟨s', hs', hp.trans hroot⟩
  · obtain ⟨-, old, hold, hp, -⟩ := h.dropInnermost_cases hend hs
    rw [hp]
    exact h.tree.parent i old hold hi
  · obtain ⟨-, old, hold, -, -, -, hsub, -⟩ := h.dropInnermost_cases hend hs
    exact (h.tree.nodup_children p old hold).sublist hsub
  · obtain ⟨-, old, hold, -, -, -, -, hmem⟩ := h.dropInnermost_cases hend hs
    rw [hmem, h.tree.mem_children p old hold]
    constructor
    · rintro ⟨⟨u, hu, hp, rfl⟩, hne⟩
      have hsize : q < c.scopes.size := (Array.getElem?_eq_some_iff.mp hu).1
      rw [hend.size_eq] at hsize
      obtain ⟨u', hu', hp', hn'⟩ := exists_of_dropInnermost hend (by omega) hu
      exact ⟨u', hu', hp'.trans hp, by rw [hn']⟩
    · rintro ⟨u', hu', hp', rfl⟩
      obtain ⟨hlt, u, hu, hp, hn, -⟩ := h.dropInnermost_cases hend hu'
      exact ⟨⟨u, hu, hp.symm.trans hp', by rw [hn]⟩, Nat.ne_of_lt hlt⟩
  · obtain ⟨-, -, -, -, -, htidy, -⟩ := h.dropInnermost_cases hend hs
    exact htidy

end Context

end DiceTome
