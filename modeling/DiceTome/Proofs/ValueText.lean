import DiceTome.Proofs.DecimalSigns
import DiceTome.Proofs.NeatText
import DiceTome.Proofs.SoundValues

/-!
# The text of a value

The text of a value is meant to be an expression again. Numbers below zero are negations, a roll
with a flag is a roll operator behind a roll, and picked faces are a list. Some values have no such
expression: there are no literals for large numbers, and none for nothing; the texts of numbers that
are not finite are a name and another number behind it.

* `Value.spelling` is the expression that a value is written as, if there is one, and
  `Value.spells_spelling` says that its text is the text of the value.
* `Value.tokens?` lists the tokens of the text of any value, and `Value.cuts_render` says that the
  text is cut into them.
* `Value.neat_render`: they are neat, as those of a printed expression are.
-/

namespace DiceTome

open Token

namespace Value

/-- Induction over values: a list has a property if its items have it. -/
@[induction_eliminator]
theorem induct {motive : Value → Prop} (bool : ∀ b, motive (.bool b))
    (decimal : ∀ x, motive (.decimal x)) (natural : ∀ n, motive (.natural n))
    (roll : ∀ r, motive (.roll r)) (outcome : ∀ r, motive (.outcome r))
    (rolls : ∀ faces, motive (.rolls faces))
    (list : ∀ items, (∀ v ∈ items, motive v) → motive (.list items))
    (string : ∀ s, motive (.string s)) (empty : motive .empty) (v : Value) : motive v := by
  refine @Value.rec motive (fun items => ∀ v ∈ items, motive v) bool decimal natural roll outcome
    rolls list string empty nofun ?_ v
  intro v vs hv hvs v' hmem
  rcases List.mem_cons.mp hmem with rfl | hmem
  · exact hv
  · exact hvs v' hmem

/-! ## Expressions for values -/

/-- An integer as an expression, if literals can spell it. -/
def spellInteger (n : Int) : Option Expr :=
  if maxNatural < n.natAbs then none
  else if n < 0 then some (.unary .neg (.literal (.natural n.natAbs)))
  else some (.literal (.natural n.natAbs))

/-- A number as an expression, if it is finite. -/
def spellDecimal (x : Float) : Option Expr :=
  (Decimal.Dyadic.ofFloat? x).map fun d =>
    if d.negative then .unary .neg (.literal (.decimal (-x))) else .literal (.decimal x)

/-- A roll as an expression. -/
def spellRoll (r : Roll) : Expr :=
  let dice : Expr := .literal (.roll r.quantity.toNat r.die.toNat)
  if r.hasAdvantage then .unary .advantage dice
  else if r.hasDisadvantage then .unary .disadvantage dice
  else dice

mutual

/-- The expression that the value is written as. -/
def spelling : Value → Option Expr
  | bool b => some (.literal (.bool b))
  | decimal x => spellDecimal x
  | natural n => spellInteger n
  | roll r => some (spellRoll r)
  | outcome r => spellInteger r.result
  | rolls faces => (faces.mapM spellInteger).map .list
  | list items => (spellAll items).map .list
  | string s => some (.literal (.string s))
  | empty => none

/-- The expressions that the values are written as, one by one. -/
def spellAll : List Value → Option (List Expr)
  | [] => some []
  | v :: vs => v.spelling.bind fun e => (spellAll vs).map (e :: ·)

end

/-! ## Tokens of values -/

/-- The number that is read behind the name of a number that is not finite. -/
def pointZero : Kind :=
  .decimal (Decimal.ofDigits 0 1)

/-- The tokens of a number that is not finite. -/
def nonFiniteTokens (x : Float) : List Kind :=
  if x.isNaN then [.identifier "NaN", pointZero]
  else if x < 0 then [.operator (.binary .sub), .identifier "Infinity", pointZero]
  else [.identifier "Infinity", pointZero]

/-- Tokens of further items of a list, each behind a comma, up to its end. -/
def furtherTokens : List (List Kind) → List Kind
  | [] => [.delimiter .bracketClose]
  | ts :: more => .delimiter .comma :: ts ++ furtherTokens more

/-- Tokens of the items of a list up to its end. -/
def bracketTokens : List (List Kind) → List Kind
  | [] => [.delimiter .bracketClose]
  | ts :: more => ts ++ furtherTokens more

mutual

/-- The tokens of the text of the value, unless it holds a number too large for a literal. -/
def tokens? : Value → Option (List Kind)
  | bool b => some (Expr.literal (.bool b)).tokens
  | decimal x => some (((spellDecimal x).map Expr.tokens).getD (nonFiniteTokens x))
  | natural n => (spellInteger n).map Expr.tokens
  | roll r => some (spellRoll r).tokens
  | outcome r => (spellInteger r.result).map Expr.tokens
  | rolls faces =>
    (faces.mapM fun n => (spellInteger n).map Expr.tokens).map fun parts =>
      .delimiter .bracketOpen :: bracketTokens parts
  | list items => (tokensAll? items).map fun parts => .delimiter .bracketOpen :: bracketTokens parts
  | string s => some (Expr.literal (.string s)).tokens
  | empty => some [.delimiter .parenOpen, .delimiter .parenClose]

/-- The tokens of the texts of the values, one by one. -/
def tokensAll? : List Value → Option (List (List Kind))
  | [] => some []
  | v :: vs => v.tokens?.bind fun ts => (tokensAll? vs).map (ts :: ·)

end

/-- Faces are written like a list of naturals. -/
theorem render_rolls (faces : List Int) :
    (rolls faces).render = (list (faces.map natural)).render := by
  have hall : faces.map toString = renderAll (faces.map natural) := by
    induction faces with
    | nil => rfl
    | cons n faces ih => simp only [List.map_cons, renderAll, ih, render]
  simp only [render, hall]

theorem spelling_rolls (faces : List Int) :
    (rolls faces).spelling = (list (faces.map natural)).spelling := by
  have hall : faces.mapM spellInteger = spellAll (faces.map natural) := by
    induction faces with
    | nil => rfl
    | cons n faces ih =>
      simp only [List.mapM_cons, ih, List.map_cons, spellAll, spelling]
      cases spellInteger n <;> cases spellAll (faces.map natural) <;> rfl
  simp only [spelling, hall]

theorem tokens?_rolls (faces : List Int) :
    (rolls faces).tokens? = (list (faces.map natural)).tokens? := by
  have hall : (faces.mapM fun n => (spellInteger n).map Expr.tokens) =
      tokensAll? (faces.map natural) := by
    induction faces with
    | nil => rfl
    | cons n faces ih =>
      simp only [List.mapM_cons, ih, List.map_cons, tokensAll?, tokens?]
      cases spellInteger n <;> cases tokensAll? (faces.map natural) <;> rfl
  simp only [tokens?, hall]

/-! ## Literals -/

/-- A literal that starts with a digit is an atom. -/
theorem strength_of_digit {l : Literal} {c : Char} {cs : List Char}
    (h : l.value.render.toList = c :: cs) (hc : c.isDigit = true) :
    (Expr.literal l).strength = .atom := by
  have hne : c ≠ '-' := by
    rintro rfl
    cases hc
  simp [Expr.strength, String.startsWith_char_eq_head?, h, hne]

theorem strength_natural (n : Nat) : (Expr.literal (.natural n)).strength = .atom := by
  obtain ⟨c, cs, hdigits, hc, -⟩ := toDigits_eq_cons n
  exact strength_of_digit ((Expr.toList_natural n).trans hdigits) hc

theorem strength_decimal {x : Float} (h : Decimal.Written x) :
    (Expr.literal (.decimal x)).strength = .atom := by
  obtain ⟨-, whole, fraction, ⟨hne, hwhole, -, htext⟩, -⟩ := h
  obtain _ | ⟨c, cs⟩ := whole
  · exact absurd rfl hne
  · have hc : c.isDigit = true := (Bool.and_eq_true _ _ ▸ hwhole : _ ∧ _).1
    exact strength_of_digit htext hc

theorem render_neg {l : Literal} (h : (Expr.literal l).strength = .atom) :
    (Expr.unary .neg (.literal l)).render = "-" ++ l.value.render := by
  have hwraps : Expr.wrapsOperand .neg (.literal l) = false := by
    simp [Expr.wrapsOperand, h, Strength.below, Strength.equals]
  simp [Expr.render, hwraps, Expr.wrapped, UnaryOp.isPostfix, UnaryOp.symbol]

/-- The text is the text of the expression, which can be read back from it. -/
structure Spells (text : String) (e : Expr) : Prop where
  render_eq : e.render = text
  spelled : e.All Expr.Spelled
  readable : e.All Expr.Readable
  fits : e.Fits 7

theorem spells_literal {l : Literal} (h : l.Spelled) : Spells l.value.render (.literal l) :=
  ⟨rfl, h, trivial, trivial⟩

theorem spells_neg {l : Literal} (h : l.Spelled) (hatom : (Expr.literal l).strength = .atom) :
    Spells ("-" ++ l.value.render) (.unary .neg (.literal l)) :=
  ⟨render_neg hatom, ⟨nofun, h⟩, ⟨trivial, trivial⟩, nofun⟩

theorem spells_integer {n : Int} {e : Expr} (h : spellInteger n = some e) :
    Spells (toString n) e := by
  unfold spellInteger at h
  split at h
  · cases h
  · rename_i hle
    have hspelled : (Literal.natural n.natAbs).Spelled := Nat.le_of_not_lt hle
    split at h
    · rename_i hneg
      cases h
      have htext : toString n = "-" ++ (Literal.natural n.natAbs).value.render := by
        obtain ⟨k, rfl⟩ := Int.eq_negSucc_of_lt_zero hneg
        rfl
      rw [htext]
      exact spells_neg hspelled (strength_natural _)
    · rename_i hneg
      cases h
      have htext : toString n = (Literal.natural n.natAbs).value.render := by
        obtain ⟨k, rfl⟩ := Int.eq_ofNat_of_zero_le (Int.not_lt.mp hneg)
        rfl
      rw [htext]
      exact spells_literal hspelled

theorem spells_decimal {x : Float} {e : Expr} (h : spellDecimal x = some e) :
    Spells (Decimal.source x) e := by
  obtain ⟨d, hd, rfl⟩ := Option.map_eq_some_iff.mp h
  have hfinite : x.isFinite = true := Decimal.isFinite_of_ofFloat? hd
  cases hsign : d.negative with
  | false =>
    exact spells_literal (l := .decimal x) (Decimal.written_of_positive hfinite hd hsign)
  | true =>
    have hwritten : Decimal.Written (-x) := Decimal.written_neg hfinite hd hsign
    have htext : Decimal.source x = "-" ++ (Literal.decimal (-x)).value.render := by
      apply String.toList_injective
      rw [Decimal.toList_source_neg hfinite hd hsign, String.toList_append]
      rfl
    rw [htext]
    exact spells_neg hwritten (strength_decimal hwritten)

theorem spells_postfixOp (op : UnaryOp) (hop : op.isPostfix = true) {quantity die : Nat}
    (hquantity : quantity ≤ maxNatural) (hdie : die ≤ maxNatural) :
    Spells ((Literal.roll quantity die).value.render ++ op.symbol)
      (.unary op (.literal (.roll quantity die))) := by
  have hatom := Expr.strength_roll quantity die
  have hwraps : Expr.wrapsOperand op (.literal (.roll quantity die)) = false := by
    simp [Expr.wrapsOperand, hatom, Strength.below, Strength.equals]
  have hcount : op = .disadvantage → (Expr.literal (.roll quantity die)).tail ≠ .count := by
    simp [Expr.tail]
  refine ⟨?_, ⟨fun _ => ⟨hwraps, rfl, hcount⟩, hquantity, hdie⟩, ⟨trivial, trivial⟩, ?_⟩
  · simp [Expr.render, hwraps, Expr.wrapped, hop]
  · exact fun _ => Nat.le_refl 7

theorem spells_roll {r : Roll} (h : (roll r).Sound) : Spells r.text (spellRoll r) := by
  obtain ⟨quantity, die, hquantity, hdie, hq, hd⟩ := h
  have htext : ∀ flag : String,
      (if r.hasAdvantage then "a" else if r.hasDisadvantage then "d" else "") = flag →
        r.text = (Literal.roll quantity die).value.render ++ flag := by
    intro flag hflag
    have hid : ∀ s : String, toString s = s := fun _ => rfl
    simp only [Literal.value, render, Roll.text, hq, hd, hflag]
    simp [Roll.hasAdvantage, Roll.hasDisadvantage, hid]
  simp only [spellRoll, hq, hd, Int.toNat_natCast]
  split
  · rename_i hadvantage
    rw [htext "a" (by simp [hadvantage])]
    exact spells_postfixOp .advantage rfl hquantity hdie
  · rename_i hadvantage
    split
    · rename_i hdisadvantage
      rw [htext "d" (by simp [hadvantage, hdisadvantage])]
      exact spells_postfixOp .disadvantage rfl hquantity hdie
    · rename_i hdisadvantage
      rw [htext "" (by simp [hadvantage, hdisadvantage]), String.append_empty]
      exact spells_literal (l := .roll quantity die) ⟨hquantity, hdie⟩

theorem spells_list {items : List Value} {es : List Expr} (h : spellAll items = some es)
    (hitems : ∀ v ∈ items, ∀ e, v.spelling = some e → Spells v.render e) :
    Spells (list items).render (.list es) := by
  have hall : Expr.renderAll es = renderAll items ∧ Expr.AllItems Expr.Spelled es ∧
      Expr.AllItems Expr.Readable es := by
    induction items generalizing es with
    | nil =>
      cases h
      exact ⟨rfl, trivial, trivial⟩
    | cons v vs ih =>
      obtain ⟨e, he, h⟩ := Option.bind_eq_some_iff.mp h
      obtain ⟨es, hes, rfl⟩ := Option.map_eq_some_iff.mp h
      have hv := hitems v List.mem_cons_self e he
      obtain ⟨htext, hspelled, hreadable⟩ := ih hes fun v hv => hitems v (List.mem_cons_of_mem _ hv)
      refine ⟨?_, ⟨hv.spelled, hspelled⟩, hv.readable, hreadable⟩
      rw [Expr.renderAll, renderAll, hv.render_eq, htext]
  obtain ⟨htext, hspelled, hreadable⟩ := hall
  refine ⟨?_, ⟨trivial, hspelled⟩, ⟨trivial, hreadable⟩, trivial⟩
  rw [Expr.render, htext, render, bracketed]

/-- A value is written as its expression is. -/
theorem spells_spelling {v : Value} {e : Expr} (hsound : v.Sound) (h : v.spelling = some e) :
    Spells v.render e := by
  induction v generalizing e with
  | bool b =>
    cases h
    exact spells_literal (l := .bool b) trivial
  | decimal x => exact spells_decimal h
  | natural n => exact spells_integer h
  | roll r =>
    cases h
    exact spells_roll hsound
  | outcome r => cases hsound
  | rolls faces =>
    rw [spelling_rolls] at h
    rw [render_rolls]
    obtain ⟨es, hes, rfl⟩ := Option.map_eq_some_iff.mp h
    refine spells_list hes fun v hv e he => ?_
    obtain ⟨n, -, rfl⟩ := List.mem_map.mp hv
    exact spells_integer he
  | list items ih =>
    obtain ⟨es, hes, rfl⟩ := Option.map_eq_some_iff.mp h
    exact spells_list hes fun v hv e he => ih v hv (soundItems_iff.mp hsound v hv) he
  | string s =>
    cases h
    exact spells_literal (l := .string s) trivial
  | empty => cases h

/-! ## Cutting the text -/

/-- In front of an edge the text is cut into the given tokens, or not at all if there are none. -/
def Cuts (text : String) (ts : Option (List Kind)) : Prop :=
  ∀ rest, Edge rest → kindsFrom .other (text.toList ++ rest) =
    ts.bind fun ts => (kindsFrom .other rest).map (ts ++ ·)

theorem Spells.cuts {text : String} {e : Expr} (h : Spells text e) : Cuts text (some e.tokens) := by
  intro rest hrest
  rw [← h.render_eq, Expr.scans h.spelled _ (Tail.meets_edge _ hrest), kindsFrom_edge hrest]
  rfl

theorem cuts_integer (n : Int) : Cuts (toString n) ((spellInteger n).map Expr.tokens) := by
  cases hspell : spellInteger n with
  | some e => exact (spells_integer hspell).cuts
  | none =>
    intro rest hrest
    have hlarge : maxNatural < n.natAbs := by
      unfold spellInteger at hspell
      split at hspell
      · assumption
      · split at hspell <;> cases hspell
    have hdigits : kindsFrom .other (Nat.toDigits 10 n.natAbs ++ rest) = none :=
      kindsFrom_large hlarge (by decide) hrest.digitEdge (Tail.head?_ne_of_edge hrest (by decide))
    rw [Option.map_none, Option.bind_none]
    cases n with
    | ofNat k =>
      have htext : (toString (Int.ofNat k)).toList = Nat.toDigits 10 k := Nat.toList_repr
      rw [htext]
      exact hdigits
    | negSucc k =>
      have htext : (toString (Int.negSucc k)).toList = '-' :: Nat.toDigits 10 (k + 1) := by
        have happend : toString (Int.negSucc k) = "-" ++ Nat.repr (k + 1) := rfl
        rw [happend, String.toList_append, Nat.toList_repr]
        rfl
      rw [htext]
      refine (kindsFrom_minus .other (Nat.toDigits 10 (k + 1) ++ rest)).trans ?_
      exact congrArg (Option.map _) hdigits

/-- The end of the text of a number that is not finite. -/
theorem kindsFrom_pointZero {rest : List Char} (hrest : Edge rest) :
    kindsFrom .other ('.' :: '0' :: rest) = (kindsFrom .other rest).map (pointZero :: ·) := by
  have hdigit : (['0'] : List Char).all Char.isDigit = true := by decide
  have hd : rest.head? ≠ some 'd' := Tail.head?_ne_of_edge hrest (by decide)
  have hpoint : rest.head? ≠ some '.' := fun h => (hrest '.' h).2 rfl
  have htake : ('0' :: rest).takeWhile Text.isDigit = ['0'] :=
    takeWhile_digits hdigit hrest.digitEdge
  have hdrop : ('0' :: rest).dropWhile Text.isDigit = rest :=
    dropWhile_digits hdigit hrest.digitEdge
  have hread : readDecimal .start ('.' :: '0' :: rest) [] ['0'] = .ok (Decimal.ofDigits 0 1) := by
    have hvalue : Text.digitsValue? ['0'] = some 0 := by decide
    have hfinite : (Decimal.ofDigits 0 1).isFinite = true := by decide +kernel
    simp [readDecimal, hvalue, hfinite]
  have hscan : scanNumber .start .other ('.' :: '0' :: rest) =
      .ok ⟨1, some pointZero, .other⟩ := by
    have hwhole : Text.isDigit '.' = false := by decide
    simp [scanNumber, hwhole, htake, hdrop, hread, hd, hpoint, pointZero]
  have hpiece : scanPiece .start .other '.' (['0'] ++ rest) = .ok ⟨1, some pointZero, .other⟩ := by
    rw [scanPiece, if_neg (by decide), if_neg (by decide), suffix?_of_ne (by decide)]
    exact hscan
  exact kindsFrom_append hpiece

/-- The text of a number that is not finite is a name and a number behind it. -/
theorem kindsFrom_nonFinite {word : String} (hword : isName word = true) {rest : List Char}
    (hrest : Edge rest) :
    kindsFrom .other ((word ++ ".0").toList ++ rest) =
      (kindsFrom .other rest).map ([.identifier word, pointZero] ++ ·) := by
  have htext : (word ++ ".0").toList ++ rest = word.toList ++ '.' :: '0' :: rest := by
    simp
  have hstop : ∀ c ∈ ('.' :: '0' :: rest).head?, Text.isWordChar c = false := by
    rintro c ⟨⟩
    decide
  rw [htext, kindsFrom_identifier hword (by decide) hstop, kindsFrom_pointZero hrest]
  simp [Function.comp_def]

theorem cuts_decimal (x : Float) :
    Cuts (Decimal.source x) (some (((spellDecimal x).map Expr.tokens).getD (nonFiniteTokens x))) := by
  cases hspell : spellDecimal x with
  | some e => exact (spells_decimal hspell).cuts
  | none =>
    intro rest hrest
    have hnone : Decimal.Dyadic.ofFloat? x = none := Option.map_eq_none_iff.mp hspell
    have hnan : isName "NaN" = true := by decide
    have hinfinity : isName "Infinity" = true := by decide
    simp only [Decimal.source, Decimal.Layout.write, hnone, nonFiniteTokens, Option.map_none,
      Option.getD_none, Option.bind_some]
    split
    · exact kindsFrom_nonFinite hnan hrest
    · split
      · have htext : ("-" ++ Decimal.Layout.source.infinity).toList ++ rest =
            UnaryOp.neg.symbol.toList ++ (("Infinity" ++ ".0").toList ++ rest) := by
          simp [Decimal.Layout.source, UnaryOp.symbol]
        rw [htext, Expr.kindsFrom_sign_of_prefixOp rfl, kindsFrom_nonFinite hinfinity hrest]
        simp [UnaryOp.token, Function.comp_def]
      · exact kindsFrom_nonFinite hinfinity hrest

/-! ## Lists -/

/-- The further items of a list. -/
theorem kindsFrom_further {vs : List Value} (h : ∀ v ∈ vs, Cuts v.render v.tokens?)
    (trail : Trail) (rest : List Char) :
    kindsFrom trail (Expr.moreText .bracketClose (renderAll vs) ++ rest) =
      (tokensAll? vs).bind fun parts =>
        (kindsFrom .other rest).map (furtherTokens parts ++ ·) := by
  induction vs generalizing trail with
  | nil => exact kindsFrom_delimiter trail .bracketClose rest
  | cons v vs ih =>
    have hv := h v List.mem_cons_self
    have hvs := ih fun v hv => h v (List.mem_cons_of_mem _ hv)
    have htext : Expr.moreText .bracketClose (renderAll (v :: vs)) ++ rest =
        Delimiter.comma.char :: ' ' :: (v.render.toList ++
          (Expr.moreText .bracketClose (renderAll vs) ++ rest)) := by
      simp [renderAll, Expr.moreText, Delimiter.char]
    rw [htext, kindsFrom_delimiter, kindsFrom_separator (by decide),
      hv _ (Expr.edge_moreText .bracketClose _ rest), hvs, tokensAll?]
    cases v.tokens? with
    | none => rfl
    | some ts =>
      cases tokensAll? vs with
      | none => rfl
      | some parts => simp [furtherTokens, Function.comp_def]

theorem cuts_list {items : List Value} (h : ∀ v ∈ items, Cuts v.render v.tokens?) :
    Cuts (list items).render (list items).tokens? := by
  intro rest hrest
  have hopen : (list items).render.toList ++ rest = Delimiter.bracketOpen.char ::
      ((", ".intercalate (renderAll items)).toList ++ Delimiter.bracketClose.char :: rest) := by
    simp [render, bracketed, Delimiter.char]
  rw [hopen, kindsFrom_delimiter, tokens?]
  cases items with
  | nil =>
    have hclose := kindsFrom_delimiter .other .bracketClose rest
    simp only [renderAll, String.intercalate_nil, String.toList_empty, List.nil_append]
    rw [hclose]
    simp [tokensAll?, bracketTokens, Function.comp_def]
  | cons v vs =>
    have hv := h v List.mem_cons_self
    have hvs := kindsFrom_further (fun v hv => h v (List.mem_cons_of_mem _ hv)) .other rest
    rw [renderAll, Expr.toList_items, hv _ (Expr.edge_moreText .bracketClose _ rest), hvs, tokensAll?]
    cases v.tokens? with
    | none => rfl
    | some ts =>
      cases tokensAll? vs with
      | none => rfl
      | some parts => simp [bracketTokens, Function.comp_def]

/-- The text of a value is cut into its tokens. -/
theorem cuts_render {v : Value} (h : v.Sound) : Cuts v.render v.tokens? := by
  induction v with
  | bool b => exact (spells_literal (l := .bool b) trivial).cuts
  | decimal x => exact cuts_decimal x
  | natural n => exact cuts_integer n
  | roll r => exact (spells_roll h).cuts
  | outcome r => cases h
  | rolls faces =>
    rw [render_rolls, tokens?_rolls]
    refine cuts_list fun v hv => ?_
    obtain ⟨n, -, rfl⟩ := List.mem_map.mp hv
    exact cuts_integer n
  | list items ih => exact cuts_list fun v hv => ih v hv (soundItems_iff.mp h v hv)
  | string s => exact (spells_literal (l := .string s) trivial).cuts
  | empty =>
    intro rest _
    refine (kindsFrom_delimiter .other .parenOpen _).trans ?_
    refine (congrArg (Option.map _) (kindsFrom_delimiter .other .parenClose rest)).trans ?_
    simp [tokens?, Function.comp_def]

/-! ## Neatness -/

/-- Anything may stand behind the token in a neat text. -/
def Plain (token : Kind) : Prop :=
  ∀ k, (Trace.other.next token).tidy k = true

theorem orderly_append {ts kinds : List Kind} (hts : ∀ k ∈ ts, Plain k) (h : Orderly kinds) :
    Orderly (ts ++ kinds) := by
  induction ts with
  | nil => exact h
  | cons token ts ih =>
    refine orderly_cons (ih fun k hk => hts k (List.mem_cons_of_mem _ hk)) fun k _ => ?_
    exact hts token List.mem_cons_self k

theorem plain_literal (l : Literal) : ∀ k ∈ (Expr.literal l).tokens, Plain k := by
  intro k hk
  rw [Expr.tokens, List.mem_singleton] at hk
  subst hk
  cases l <;> exact fun _ => rfl

theorem plain_unary (op : UnaryOp) (l : Literal) :
    ∀ k ∈ (Expr.unary op (.literal l)).tokens, Plain k := by
  have hop : Plain op.token := by
    cases op <;> exact fun _ => rfl
  have hwrapped : ∀ wrap, ∀ k ∈ Expr.wrappedTokens (Expr.literal l).tokens wrap, Plain k := by
    intro wrap k hk
    unfold Expr.wrappedTokens at hk
    split at hk
    · simp only [List.cons_append, List.mem_cons, List.mem_append, List.not_mem_nil,
        or_false] at hk
      rcases hk with rfl | hk | rfl
      · exact fun _ => rfl
      · exact plain_literal l k hk
      · exact fun _ => rfl
    · exact plain_literal l k hk
  intro k hk
  simp only [Expr.tokens] at hk
  split at hk
  · rcases List.mem_append.mp hk with hk | hk
    · exact hwrapped _ k hk
    · rw [List.mem_singleton.mp hk]
      exact hop
  · rcases List.mem_cons.mp hk with rfl | hk
    · exact hop
    · exact hwrapped _ k hk

theorem plain_integer {n : Int} {ts : List Kind} (h : (spellInteger n).map Expr.tokens = some ts) :
    ∀ k ∈ ts, Plain k := by
  obtain ⟨e, he, rfl⟩ := Option.map_eq_some_iff.mp h
  unfold spellInteger at he
  split at he
  · cases he
  · split at he
    · cases he
      exact plain_unary _ _
    · cases he
      exact plain_literal _

theorem plain_decimal (x : Float) :
    ∀ k ∈ ((spellDecimal x).map Expr.tokens).getD (nonFiniteTokens x), Plain k := by
  cases hspell : spellDecimal x with
  | some e =>
    obtain ⟨d, -, rfl⟩ := Option.map_eq_some_iff.mp hspell
    rw [Option.map_some, Option.getD_some]
    split
    · exact plain_unary _ _
    · exact plain_literal _
  | none =>
    intro k hk
    rw [Option.map_none, Option.getD_none, nonFiniteTokens] at hk
    split at hk
    · simp only [List.mem_cons, List.not_mem_nil, or_false] at hk
      rcases hk with rfl | rfl <;> exact fun _ => rfl
    · split at hk
      · simp only [List.mem_cons, List.not_mem_nil, or_false] at hk
        rcases hk with rfl | rfl | rfl <;> exact fun _ => rfl
      · simp only [List.mem_cons, List.not_mem_nil, or_false] at hk
        rcases hk with rfl | rfl <;> exact fun _ => rfl

theorem plain_roll (r : Roll) : ∀ k ∈ (spellRoll r).tokens, Plain k := by
  unfold spellRoll
  simp only
  split
  · exact plain_unary _ _
  · split
    · exact plain_unary _ _
    · exact plain_literal _

theorem plain_further {parts : List (List Kind)} (h : ∀ ts ∈ parts, ∀ k ∈ ts, Plain k) :
    ∀ k ∈ furtherTokens parts, Plain k := by
  induction parts with
  | nil =>
    intro k hk
    rw [furtherTokens, List.mem_singleton] at hk
    subst hk
    exact fun _ => rfl
  | cons ts parts ih =>
    intro k hk
    rw [furtherTokens, List.cons_append] at hk
    rcases List.mem_cons.mp hk with rfl | hk
    · exact fun _ => rfl
    · rcases List.mem_append.mp hk with hk | hk
      · exact h ts List.mem_cons_self k hk
      · exact ih (fun ts hts => h ts (List.mem_cons_of_mem _ hts)) k hk

theorem plain_bracket {parts : List (List Kind)} (h : ∀ ts ∈ parts, ∀ k ∈ ts, Plain k) :
    ∀ k ∈ Kind.delimiter .bracketOpen :: bracketTokens parts, Plain k := by
  have hfurther := plain_further h
  intro k hk
  rcases List.mem_cons.mp hk with rfl | hk
  · exact fun _ => rfl
  · cases parts with
    | nil => exact hfurther k hk
    | cons ts parts => exact hfurther k (List.mem_cons_of_mem _ hk)

theorem plain_all {vs : List Value}
    (hvs : ∀ v ∈ vs, ∀ ts, v.tokens? = some ts → ∀ k ∈ ts, Plain k) {parts : List (List Kind)}
    (h : tokensAll? vs = some parts) : ∀ ts ∈ parts, ∀ k ∈ ts, Plain k := by
  induction vs generalizing parts with
  | nil =>
    cases h
    exact nofun
  | cons v vs ih =>
    obtain ⟨ts, hts, h⟩ := Option.bind_eq_some_iff.mp h
    obtain ⟨more, hmore, rfl⟩ := Option.map_eq_some_iff.mp h
    intro ts' hmem
    rcases List.mem_cons.mp hmem with rfl | hmem
    · exact hvs v List.mem_cons_self _ hts
    · exact ih (fun v hv => hvs v (List.mem_cons_of_mem _ hv)) hmore ts' hmem

theorem plain_list {items : List Value}
    (hitems : ∀ v ∈ items, ∀ ts, v.tokens? = some ts → ∀ k ∈ ts, Plain k) {ts : List Kind}
    (h : (list items).tokens? = some ts) : ∀ k ∈ ts, Plain k := by
  obtain ⟨parts, hparts, rfl⟩ := Option.map_eq_some_iff.mp h
  exact plain_bracket (plain_all hitems hparts)

/-- The tokens of a value are plain. -/
theorem plain_tokens {v : Value} {ts : List Kind} (h : v.tokens? = some ts) :
    ∀ k ∈ ts, Plain k := by
  induction v generalizing ts with
  | bool b =>
    cases h
    exact plain_literal _
  | decimal x =>
    cases h
    exact plain_decimal x
  | natural n => exact plain_integer h
  | roll r =>
    cases h
    exact plain_roll r
  | outcome r => exact plain_integer h
  | rolls faces =>
    rw [tokens?_rolls] at h
    refine plain_list (fun v hv ts hts => ?_) h
    obtain ⟨n, -, rfl⟩ := List.mem_map.mp hv
    exact plain_integer hts
  | list items ih => exact plain_list (fun v hv ts hts => ih v hv hts) h
  | string s =>
    cases h
    exact plain_literal _
  | empty =>
    cases h
    simp only [List.mem_cons, List.not_mem_nil, or_false]
    rintro k (rfl | rfl) <;> exact fun _ => rfl

/-- The text of a value is neat if what follows is. -/
theorem neat_render {v : Value} (h : v.Sound) {rest : List Char} (hrest : Edge rest)
    {q : Kind → Prop} (hneat : NeatText .other rest q) :
    NeatText .other (v.render.toList ++ rest) fun _ => True := by
  intro kinds hkinds
  rw [cuts_render h rest hrest] at hkinds
  obtain ⟨ts, hts, hkinds⟩ := Option.bind_eq_some_iff.mp hkinds
  obtain ⟨more, hmore, rfl⟩ := Option.map_eq_some_iff.mp hkinds
  exact ⟨orderly_append (plain_tokens hts) (hneat more hmore).1, fun _ _ => trivial⟩

end Value

end DiceTome
