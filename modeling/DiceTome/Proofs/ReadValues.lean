import DiceTome.Evaluate
import DiceTome.Proofs.Steps
import DiceTome.Proofs.ValueText

/-!
# Values read back

The expression that a value is written as evaluates to a value again, but not always to the same
one: a negative natural comes back as a decimal, picked faces come back as a list of naturals, and a
roll whose flags cancel each other comes back without them.

* `Value.isStable`: the values that come back as they are.
* `Value.exists_comesBack`: any other value that is written as an expression comes back unequal, or
  is written in another way afterwards.
* `Value.unread_of_spelling`: what is written for a value without an expression is not read at all,
  unless it holds a number that is not finite.
-/

namespace DiceTome

open Token Step

namespace Value

mutual

/-- Whether the text of the value evaluates to the value. -/
def isStable : Value → Bool
  | bool _ | string _ => true
  | decimal x => x.isFinite
  | natural n => decide (0 ≤ n ∧ n ≤ maxNatural)
  | roll r => !(r.advantage && r.disadvantage)
  | list items => allStable items
  | outcome _ | rolls _ | empty => false

/-- Whether the texts of the values evaluate to them. -/
def allStable : List Value → Bool
  | [] => true
  | v :: vs => v.isStable && allStable vs

end

theorem allStable_iff {vs : List Value} :
    allStable vs = true ↔ ∀ v ∈ vs, v.isStable = true := by
  induction vs with
  | nil => simp [allStable]
  | cons v vs ih => simp [allStable, ih]

end Value

namespace Expr

/-- The expression evaluates to the value in every scope of every world, throws no dice on the way
and changes nothing. -/
def Denotes (e : Expr) (v : Value) : Prop :=
  ∀ ⦃σ : Type⦄ [DiceSource σ] (call : CallRule σ) (scope : Index) (w : World σ),
    e.evalWith call scope w = (.ok ⟨v, []⟩, w)

theorem denotes_literal (l : Literal) : (literal l).Denotes l.value := by
  intro σ _ call scope w
  rw [evalWith]
  rfl

theorem run_unary_literal [DiceSource σ] (op : UnaryOp) (l : Literal) (call : CallRule σ)
    (scope : Index) (w : World σ) :
    (unary op (literal l)).evalWith call scope w =
      World.onDice (alone ⟨l.value, []⟩ (Outcome.unary op)) w := by
  rw [evalWith, run_bind, denotes_literal]

theorem denotes_neg {l : Literal} {x : Float} (hroll : ∀ quantity die, l ≠ .roll quantity die)
    (h : l.value.asDecimal = .ok (.sum x)) :
    (unary .neg (literal l)).Denotes (.decimal (-x)) := by
  intro σ _ call scope w
  have hresolve : Outcome.resolve true ((⟨l.value, []⟩ : Outcome), w.dice) =
      (.ok l.value, (⟨l.value, []⟩, w.dice)) := by
    cases l with
    | roll quantity die => exact absurd rfl (hroll quantity die)
    | _ => rfl
  have hneg : Outcome.unary .neg ((⟨l.value, []⟩ : Outcome), w.dice) =
      (.ok ⟨.decimal (-x), []⟩, (⟨l.value, []⟩, w.dice)) := by
    rw [Outcome.unary, run_bind, Outcome.asDecimal, run_bind, hresolve]
    simp only [h]
    rfl
  rw [run_unary_literal]
  simp only [World.onDice, within, alone, ExceptT.run, hneg]

theorem denotes_flag (quantity die : Nat) :
    (unary .advantage (literal (.roll quantity die))).Denotes
        (.roll ⟨quantity, die, true, false⟩) ∧
      (unary .disadvantage (literal (.roll quantity die))).Denotes
        (.roll ⟨quantity, die, false, true⟩) := by
  constructor <;>
  · intro σ _ call scope w
    rw [run_unary_literal]
    rfl

theorem denotes_list {es : List Expr} {vs : List Value} (h : List.Forall₂ Denotes es vs) :
    (list es).Denotes (.list vs) := by
  intro σ _ call scope w
  have hall : evalAll call scope es w = (.ok (vs.map fun v => ⟨v, []⟩), w) := by
    induction h with
    | nil =>
      rw [evalAll]
      rfl
    | cons hv _ ih =>
      rw [evalAll, run_bind, hv call scope w]
      simp only
      rw [run_bind, ih]
      rfl
  have hgather : Outcome.gather (.list ((vs.map fun v => (⟨v, []⟩ : Outcome)).map Outcome.value))
      (vs.map fun v => ⟨v, []⟩) = ⟨.list vs, []⟩ := by
    simp [Outcome.gather, List.flatMap_map, Function.comp_def]
  rw [evalWith, run_bind, hall]
  exact congrArg (fun o => (Except.ok o, w)) hgather

end Expr

namespace Value

/-- The value comes back from the expression `e` as `v'`; if that makes no difference that can be
seen, it is a stable value. -/
structure ComesBack (v : Value) (e : Expr) (v' : Value) : Prop where
  denotes : e.Denotes v'
  spelled : ∃ e', v'.spelling = some e'
  eq_of_isStable : v.isStable = true → v' = v
  isStable_of_equals : v'.equals v = .ok true → v'.spelling = some e → v.isStable = true

theorem comesBack_self {v : Value} {e : Expr} (hspell : v.spelling = some e)
    (hdenotes : e.Denotes v) (hstable : v.isStable = true) : v.ComesBack e v :=
  ⟨hdenotes, ⟨e, hspell⟩, fun _ => rfl, fun _ _ => hstable⟩

theorem spelling_decimal {x : Float} (h : x.isFinite = true) :
    ∃ e, (decimal x).spelling = some e ∧
      (e = .literal (.decimal x) ∨ e = .unary .neg (.literal (.decimal (-x)))) := by
  obtain ⟨d, hd, -⟩ := Decimal.ofFloat?_spec h
  simp only [spelling, spellDecimal, hd, Option.map_some, Option.some.injEq, exists_eq_left']
  split
  · exact .inr rfl
  · exact .inl rfl

theorem comesBack_integer {n : Int} {e : Expr} (h : spellInteger n = some e) :
    ∃ v', (natural n).ComesBack e v' := by
  have hspell := h
  unfold spellInteger at h
  split at h
  · cases h
  · rename_i hle
    have hmax : n.natAbs ≤ maxNatural := Nat.le_of_not_lt hle
    split at h
    · rename_i hneg
      cases h
      obtain ⟨x, hx, hfinite⟩ := Decimal.ofInt?_natural hmax
      have hdecimal : (Literal.natural n.natAbs).value.asDecimal = .ok (.sum x) := by
        simp only [Literal.value, asDecimal, floatOfInt, hx]
        rfl
      obtain ⟨e', he', hcases⟩ := spelling_decimal (Decimal.isFinite_neg hfinite)
      refine ⟨.decimal (-x), Expr.denotes_neg (fun _ _ heq => by cases heq) hdecimal, ⟨e', he'⟩,
        ?_, ?_⟩
      · simp only [isStable, decide_eq_true_eq]
        omega
      · intro _ hsame
        rw [he'] at hsame
        rcases hcases with rfl | rfl <;> cases hsame
    · rename_i hneg
      cases h
      have hn : ((n.natAbs : Nat) : Int) = n := Int.natAbs_of_nonneg (Int.not_lt.mp hneg)
      refine ⟨natural n, comesBack_self hspell ?_ ?_⟩
      · have hdenotes := Expr.denotes_literal (.natural n.natAbs)
        rwa [Literal.value, hn] at hdenotes
      · simp only [isStable, decide_eq_true_eq]
        omega

theorem comesBack_decimal {x : Float} {e : Expr} (h : spellDecimal x = some e) :
    (decimal x).ComesBack e (decimal x) := by
  obtain ⟨d, hd, he⟩ := Option.map_eq_some_iff.mp h
  have hfinite : x.isFinite = true := Decimal.isFinite_of_ofFloat? hd
  refine comesBack_self h ?_ hfinite
  subst he
  split
  · have hneg := Expr.denotes_neg (l := .decimal (-x)) nofun rfl
    rwa [Decimal.neg_neg hfinite] at hneg
  · exact Expr.denotes_literal (.decimal x)

theorem comesBack_roll {r : Roll} (h : (roll r).Sound) :
    ∃ v', (roll r).ComesBack (spellRoll r) v' := by
  obtain ⟨quantity, die, -, -, hq, hd⟩ := h
  obtain ⟨q, d, advantage, disadvantage⟩ := r
  dsimp only at hq hd
  subst hq hd
  obtain ⟨hadvantage, hdisadvantage⟩ := Expr.denotes_flag quantity die
  cases advantage with
  | false =>
    cases disadvantage with
    | false => exact ⟨_, comesBack_self rfl (Expr.denotes_literal (.roll quantity die)) rfl⟩
    | true => exact ⟨_, comesBack_self rfl hdisadvantage rfl⟩
  | true =>
    cases disadvantage with
    | false => exact ⟨_, comesBack_self rfl hadvantage rfl⟩
    | true =>
      refine ⟨_, Expr.denotes_literal (.roll quantity die), ⟨_, rfl⟩, nofun, ?_⟩
      intro hequals _
      simp [Literal.value, equals] at hequals

/-! ## Lists -/

theorem allEqual_cons {x y : Value} {xs ys : List Value}
    (h : allEqual (x :: xs) (y :: ys) = .ok true) :
    x.equals y = .ok true ∧ allEqual xs ys = .ok true := by
  rw [allEqual] at h
  cases hfirst : x.equals y with
  | error err =>
    rw [hfirst] at h
    cases h
  | ok same =>
    rw [hfirst] at h
    cases same with
    | false => cases h
    | true => exact ⟨rfl, h⟩

theorem comesBack_items {vs : List Value} {es : List Expr} (h : spellAll vs = some es)
    (hvs : ∀ v ∈ vs, ∀ e, v.spelling = some e → ∃ v', v.ComesBack e v') :
    ∃ vs', List.Forall₂ Expr.Denotes es vs' ∧ (∃ es', spellAll vs' = some es') ∧
      vs'.length = vs.length ∧
      (allStable vs = true → vs' = vs) ∧
      (allEqual vs' vs = .ok true → spellAll vs' = some es → allStable vs = true) := by
  induction vs generalizing es with
  | nil =>
    cases h
    exact ⟨[], .nil, ⟨[], rfl⟩, rfl, fun _ => rfl, fun _ _ => rfl⟩
  | cons v vs ih =>
    obtain ⟨e, he, h⟩ := Option.bind_eq_some_iff.mp h
    obtain ⟨es, hes, rfl⟩ := Option.map_eq_some_iff.mp h
    obtain ⟨v', hdenotes, ⟨e', he'⟩, hstable, hback⟩ := hvs v List.mem_cons_self e he
    obtain ⟨vs', hall, ⟨es', hes'⟩, hlength, hstables, hbacks⟩ :=
      ih hes fun v hv => hvs v (List.mem_cons_of_mem _ hv)
    have hspell : spellAll (v' :: vs') = some (e' :: es') := by
      simp [spellAll, he', hes']
    refine ⟨v' :: vs', .cons hdenotes hall, ⟨_, hspell⟩, by simp [hlength], fun hs => ?_,
      fun hequal hsame => ?_⟩
    · simp only [allStable, Bool.and_eq_true] at hs
      rw [hstable hs.1, hstables hs.2]
    · obtain ⟨hfirst, hrest⟩ := allEqual_cons hequal
      rw [hspell, Option.some.injEq, List.cons.injEq] at hsame
      obtain ⟨rfl, rfl⟩ := hsame
      simp [allStable, hback hfirst he', hbacks hrest hes']

/-- A value that is written as an expression comes back from it. -/
theorem exists_comesBack {v : Value} {e : Expr} (hsound : v.Sound) (h : v.spelling = some e) :
    ∃ v', v.ComesBack e v' := by
  induction v generalizing e with
  | bool b =>
    cases h
    exact ⟨_, comesBack_self rfl (Expr.denotes_literal (.bool b)) rfl⟩
  | decimal x => exact ⟨_, comesBack_decimal h⟩
  | natural n => exact comesBack_integer h
  | roll r =>
    cases h
    exact comesBack_roll hsound
  | outcome r => cases hsound
  | rolls faces =>
    rw [spelling_rolls] at h
    obtain ⟨es, hes, rfl⟩ := Option.map_eq_some_iff.mp h
    obtain ⟨vs', hall, ⟨es', hes'⟩, -, -, -⟩ := comesBack_items hes fun v hv e he => by
      obtain ⟨n, -, rfl⟩ := List.mem_map.mp hv
      exact comesBack_integer he
    refine ⟨list vs', Expr.denotes_list hall, ⟨.list es', ?_⟩, nofun, ?_⟩
    · simp [spelling, hes']
    · intro hequals _
      simp [equals] at hequals
  | list items ih =>
    obtain ⟨es, hes, rfl⟩ := Option.map_eq_some_iff.mp h
    obtain ⟨vs', hall, ⟨es', hes'⟩, hlength, hstables, hbacks⟩ :=
      comesBack_items hes fun v hv e he => ih v hv (soundItems_iff.mp hsound v hv) he
    refine ⟨list vs', Expr.denotes_list hall, ⟨.list es', ?_⟩, ?_, ?_⟩
    · simp [spelling, hes']
    · intro hs
      rw [hstables hs]
    · intro hequals hsame
      rw [equals, if_pos hlength] at hequals
      simp only [spelling, hes', Option.map_some, Option.some.injEq, Expr.list.injEq] at hsame
      exact hbacks hequals (hes'.trans (congrArg some hsame))
  | string s =>
    cases h
    exact ⟨_, comesBack_self rfl (Expr.denotes_literal (.string s)) rfl⟩
  | empty => cases h

/-! ## Values without an expression -/

mutual

/-- Whether every decimal in the value is a finite number. -/
def isFinite : Value → Bool
  | decimal x => x.isFinite
  | list items => allFinite items
  | _ => true

/-- Whether every decimal in the values is a finite number. -/
def allFinite : List Value → Bool
  | [] => true
  | v :: vs => v.isFinite && allFinite vs

end

theorem allFinite_iff {vs : List Value} :
    allFinite vs = true ↔ ∀ v ∈ vs, v.isFinite = true := by
  induction vs with
  | nil => simp [allFinite]
  | cons v vs ih => simp [allFinite, ih]

/-- The tokens of a value are those of its expression. -/
theorem tokens?_of_spelling {v : Value} {e : Expr} (hsound : v.Sound) (h : v.spelling = some e) :
    v.tokens? = some e.tokens := by
  have hnil : Edge [] := nofun
  have hcuts := (cuts_render hsound [] hnil).symm.trans
    ((spells_spelling hsound h).cuts [] hnil)
  cases hts : v.tokens? with
  | none =>
    rw [hts, kindsFrom_nil] at hcuts
    cases hcuts
  | some ts => simpa [hts, kindsFrom_nil] using hcuts

/-- No expression is read from the tokens, and they do not close a list. -/
def Unread (ts : List Kind) : Prop :=
  ∀ rest, (∀ m, Climb.level m (ts ++ rest) = none) ∧
    Climb.startsWith .bracketClose (ts ++ rest) = false

theorem unread_empty : Unread [.delimiter .parenOpen, .delimiter .parenClose] := by
  intro rest
  refine ⟨fun m => ?_, rfl⟩
  have hclose : Climb.level 0 (.delimiter .parenClose :: rest) = none := by
    rw [Climb.level_primary 0 rfl, Climb.primary.eq_def]
    rfl
  rw [List.cons_append, Climb.level_primary m rfl, Climb.primary_paren, List.cons_append,
    List.nil_append, hclose]
  rfl

/-- An item that has an expression is read up to the next one. -/
theorem level_item {v : Value} {e : Expr} {ts : List Kind} (hsound : v.Sound)
    (h : v.spelling = some e) (hts : v.tokens? = some ts) (parts : List (List Kind))
    (rest : List Kind) :
    Climb.level 0 (ts ++ (furtherTokens parts ++ rest)) =
      some (e, furtherTokens parts ++ rest) := by
  have htokens := tokens?_of_spelling hsound h
  rw [hts, Option.some.injEq] at htokens
  have hreads := Expr.readsBack (spells_spelling hsound h).readable
  rw [htokens]
  cases parts with
  | nil => exact hreads.level_eq (Expr.fits_zero e) (Expr.ends_delimiter e (by decide) _) trivial
  | cons first more =>
    exact hreads.level_eq (Expr.fits_zero e) (Expr.ends_delimiter e (by decide) _) trivial

/-- Items of which one has no expression are not read as items. -/
theorem someItems_unread {v : Value} {vs : List Value} {ts : List Kind} {parts : List (List Kind)}
    (hts : v.tokens? = some ts) (hparts : tokensAll? vs = some parts)
    (hsound : ∀ x ∈ v :: vs, x.Sound)
    (hunread : ∀ x ∈ v :: vs, x.spelling = none → ∀ ts, x.tokens? = some ts → Unread ts)
    (h : spellAll (v :: vs) = none) (rest : List Kind) :
    Climb.someItems .bracketClose (ts ++ (furtherTokens parts ++ rest)) = none := by
  induction vs generalizing v ts parts with
  | nil =>
    cases hv : v.spelling with
    | none =>
      rw [Climb.someItems_eq, (hunread v List.mem_cons_self hv ts hts _).1]
      rfl
    | some e =>
      rw [spellAll, hv] at h
      cases h
  | cons next vs ih =>
    cases hv : v.spelling with
    | none =>
      rw [Climb.someItems_eq, (hunread v List.mem_cons_self hv ts hts _).1]
      rfl
    | some e =>
      have hnext : spellAll (next :: vs) = none := by
        rw [spellAll, hv] at h
        exact Option.map_eq_none_iff.mp h
      have hlevel := level_item (hsound v List.mem_cons_self) hv hts parts rest
      obtain ⟨first, hfirst, hparts⟩ := Option.bind_eq_some_iff.mp hparts
      obtain ⟨more, hmore, rfl⟩ := Option.map_eq_some_iff.mp hparts
      have hrest := ih hfirst hmore (fun x hx => hsound x (List.mem_cons_of_mem _ hx))
        (fun x hx => hunread x (List.mem_cons_of_mem _ hx)) hnext
      rw [Climb.someItems_eq, hlevel]
      simp [furtherTokens, Climb.startsWith, hrest]

theorem unread_list {items : List Value} {ts : List Kind} (hts : (list items).tokens? = some ts)
    (hsound : ∀ x ∈ items, x.Sound)
    (hunread : ∀ x ∈ items, x.spelling = none → ∀ ts, x.tokens? = some ts → Unread ts)
    (h : spellAll items = none) : Unread ts := by
  obtain ⟨parts, hparts, rfl⟩ := Option.map_eq_some_iff.mp hts
  intro rest
  refine ⟨fun m => ?_, rfl⟩
  cases items with
  | nil => cases h
  | cons v vs =>
    obtain ⟨first, hfirst, hparts⟩ := Option.bind_eq_some_iff.mp hparts
    obtain ⟨more, hmore, rfl⟩ := Option.map_eq_some_iff.mp hparts
    have hsome := someItems_unread hfirst hmore hsound hunread h rest
    have hopen : Climb.startsWith .bracketClose (first ++ (furtherTokens more ++ rest)) = false := by
      cases hv : v.spelling with
      | none => exact (hunread v List.mem_cons_self hv first hfirst _).2
      | some e =>
        have hlevel := level_item (hsound v List.mem_cons_self) hv hfirst more rest
        exact Expr.startsWith_of_level (by decide) (by decide) hlevel
    rw [List.cons_append, Climb.level_primary m rfl, Climb.primary_bracket, bracketTokens,
      List.append_assoc, Climb.items.eq_def, hopen, hsome]
    rfl

/-- A value of finite numbers without an expression is not read at all. -/
theorem unread_of_spelling {v : Value} {ts : List Kind} (hsound : v.Sound)
    (hfinite : v.isFinite = true) (h : v.spelling = none) (hts : v.tokens? = some ts) :
    Unread ts := by
  induction v generalizing ts with
  | bool b => cases h
  | decimal x =>
    obtain ⟨e, he, -⟩ := spelling_decimal hfinite
    rw [h] at he
    cases he
  | natural n =>
    rw [tokens?, show spellInteger n = none from h] at hts
    cases hts
  | roll r => cases h
  | outcome r => cases hsound
  | rolls faces =>
    rw [spelling_rolls] at h
    rw [tokens?_rolls] at hts
    have hnatural : ∀ x ∈ faces.map natural, ∃ n, x = natural n := fun x hx => by
      obtain ⟨n, -, rfl⟩ := List.mem_map.mp hx
      exact ⟨n, rfl⟩
    refine unread_list hts (fun x hx => ?_) (fun x hx hnone ts hts => ?_)
      (Option.map_eq_none_iff.mp h)
    · obtain ⟨n, rfl⟩ := hnatural x hx
      trivial
    · obtain ⟨n, rfl⟩ := hnatural x hx
      rw [tokens?, show spellInteger n = none from hnone] at hts
      cases hts
  | list items ih =>
    refine unread_list hts (soundItems_iff.mp hsound) (fun x hx hnone ts hts => ?_)
      (Option.map_eq_none_iff.mp h)
    exact ih x hx (soundItems_iff.mp hsound x hx) (allFinite_iff.mp hfinite x hx) hnone hts
  | string s => cases h
  | empty =>
    cases hts
    exact unread_empty

/-! ## Stable values -/

theorem exists_spelling {v : Value} (h : v.isStable = true) : ∃ e, v.spelling = some e := by
  induction v with
  | bool b => exact ⟨_, rfl⟩
  | decimal x =>
    obtain ⟨e, he, -⟩ := spelling_decimal h
    exact ⟨e, he⟩
  | natural n =>
    simp only [isStable, decide_eq_true_eq] at h
    refine ⟨.literal (.natural n.natAbs), ?_⟩
    rw [spelling, spellInteger, if_neg (by omega), if_neg (by omega)]
  | roll r => exact ⟨_, rfl⟩
  | outcome r => cases h
  | rolls faces => cases h
  | list items ih =>
    have hall : ∃ es, spellAll items = some es := by
      rw [isStable, allStable_iff] at h
      induction items with
      | nil => exact ⟨[], rfl⟩
      | cons v vs ihs =>
        obtain ⟨e, he⟩ := ih v List.mem_cons_self (h v List.mem_cons_self)
        obtain ⟨es, hes⟩ := ihs (fun v hv => ih v (List.mem_cons_of_mem _ hv))
          fun v hv => h v (List.mem_cons_of_mem _ hv)
        exact ⟨e :: es, by simp [spellAll, he, hes]⟩
    obtain ⟨es, hes⟩ := hall
    exact ⟨.list es, by simp [spelling, hes]⟩
  | string s => exact ⟨_, rfl⟩
  | empty => cases h

/-- A stable value equals itself. -/
theorem equals_self {v : Value} (h : v.isStable = true) : v.equals v = .ok true := by
  induction v with
  | bool b => simp [equals]
  | decimal x => rw [equals, Decimal.beq_self h]
  | natural n =>
    simp only [isStable, decide_eq_true_eq] at h
    obtain ⟨x, hx, hfinite⟩ := Decimal.ofInt?_natural (n := n.natAbs) (by omega)
    rw [Int.natAbs_of_nonneg h.1] at hx
    have hself := Decimal.beq_self hfinite
    simp only [equals, floatOfInt, hx, sameNumber]
    exact congrArg Except.ok hself
  | roll r => simp [equals]
  | outcome r => cases h
  | rolls faces => cases h
  | list items ih =>
    have hall : allEqual items items = .ok true := by
      rw [isStable, allStable_iff] at h
      induction items with
      | nil => rw [allEqual]; nofun
      | cons v vs ihs =>
        rw [allEqual, ih v List.mem_cons_self (h v List.mem_cons_self)]
        exact ihs (fun v hv => ih v (List.mem_cons_of_mem _ hv))
          fun v hv => h v (List.mem_cons_of_mem _ hv)
    rw [equals, if_pos rfl, hall]
  | string s => simp [equals]
  | empty => cases h

theorem isFinite_of_isStable {v : Value} (h : v.isStable = true) : v.isFinite = true := by
  induction v with
  | decimal x => exact h
  | list items ih =>
    rw [isStable, allStable_iff] at h
    rw [isFinite, allFinite_iff]
    exact fun v hv => ih v hv (h v hv)
  | _ => rfl

end Value

end DiceTome
