import DiceTome.Proofs.DecimalText
import DiceTome.Proofs.PrintedTokens

/-!
# The text of a printed expression

The text that `Expr.render` writes is cut into the tokens of `Expr.tokens`, whatever follows it, as
long as it does not go on with the last of them. What the text ends with decides what may follow:
a roll operator is one only directly behind a roll or the count of a keep.

* `Expr.tail` says what the text of an expression ends with.
* `Expr.Spelled` says which parts are spelled the way the scanner reads them.
* `Expr.scans`: the text of an expression is cut into its tokens.
-/

namespace DiceTome

open Token

/-- What the text of an expression ends with. -/
inductive Tail where
  | roll
  | count
  | closed
  | word
  deriving Repr, DecidableEq

namespace Tail

/-- What the text leaves behind for the next piece. -/
def trail : Tail → Trail
  | roll | count => .roll
  | closed | word => .other

/-- What may follow the text. -/
def Meets : Tail → List Char → Prop
  | roll, rest => DigitEdge rest
  | count, rest => DigitEdge rest ∧ rest.head? ≠ some 'd'
  | closed, _ => True
  | word, rest => Edge rest

/-- A roll operator may stand directly behind the text. -/
def takesSuffix : Tail → Bool
  | roll | count => true
  | closed | word => false

theorem head?_ne_of_edge {rest : List Char} (h : Edge rest) {c : Char}
    (hc : Text.isWordChar c = true) : rest.head? ≠ some c := by
  intro hrest
  rw [(h c hrest).1] at hc
  cases hc

/-- An edge may follow everything. -/
theorem meets_edge (t : Tail) {rest : List Char} (h : Edge rest) : t.Meets rest := by
  cases t with
  | roll => exact h.digitEdge
  | count => exact ⟨h.digitEdge, head?_ne_of_edge h (by decide)⟩
  | closed => trivial
  | word => exact h

/-- A keep may follow everything but a word. -/
theorem meets_keep {t : Tail} (h : t ≠ .word) (rest : List Char) : t.Meets ('k' :: rest) := by
  have hedge : DigitEdge ('k' :: rest) := digitEdge_cons (by decide) (by decide) rest
  cases t with
  | roll => exact hedge
  | count => exact ⟨hedge, by simp⟩
  | closed => trivial
  | word => exact absurd rfl h

/-- So may a unary operator, except that a `d` makes a roll of a count. -/
theorem meets_unaryOp {op : UnaryOp} {t : Tail} (h : t ≠ .word)
    (hcount : op = .disadvantage → t ≠ .count) (rest : List Char) :
    t.Meets (op.symbol.toList ++ rest) := by
  have hfirst : ∃ c, op.symbol.toList = [c] ∧ Text.isDigit c = false ∧ c ≠ '.' ∧
      (c = 'd' → op = .disadvantage) := by
    cases op <;> exact ⟨_, rfl, by decide, by decide, by decide⟩
  obtain ⟨c, hchars, hdigit, hpoint, hd⟩ := hfirst
  have hedge : DigitEdge (c :: rest) := digitEdge_cons hdigit hpoint rest
  rw [hchars, List.singleton_append]
  cases t with
  | roll => exact hedge
  | count =>
    refine ⟨hedge, fun hhead => hcount (hd ?_) rfl⟩
    simpa using hhead
  | closed => trivial
  | word => exact absurd rfl h

theorem ne_word_of_takesSuffix {t : Tail} (h : t.takesSuffix = true) : t ≠ .word := by
  rintro rfl
  cases h

end Tail

/-- A literal that source text can spell. -/
def Literal.Spelled : Literal → Prop
  | bool _ | string _ => True
  | decimal x => Decimal.Written x
  | natural n => n ≤ maxNatural
  | roll quantity die => quantity ≤ maxNatural ∧ die ≤ maxNatural

namespace Expr

/-- What the text of an expression ends with. A natural directly behind a keep is a count. -/
def tail : Expr → Tail
  | literal (.roll _ _) => .roll
  | literal _ | name _ => .word
  | list _ | call _ _ => .closed
  | binary .keep _ (literal (.natural _)) => .count
  | binary op _ rhs => if wrapsRight op rhs then .closed else rhs.tail
  | unary op operand =>
    if op.isPostfix then .word else if wrapsOperand op operand then .closed else operand.tail
  | ifThen _ consequent => consequent.tail
  | ifElse _ _ alternative => alternative.tail

/-- What has to hold of a part of an expression for its text to be cut into its tokens. -/
def Spelled : Expr → Prop
  | literal l => l.Spelled
  | name n | call n _ => isName n = true
  | binary .keep lhs _ => wrapsLeft .keep lhs = false ∧ lhs.tail.takesSuffix = true
  | unary op operand => op.isPostfix = true → wrapsOperand op operand = false ∧
      operand.tail.takesSuffix = true ∧ (op = .disadvantage → operand.tail ≠ .count)
  | _ => True

/-- The text of the expression is cut into its tokens. -/
def Scans (e : Expr) : Prop :=
  ∀ rest, e.tail.Meets rest →
    kindsFrom .other (e.render.toList ++ rest) =
      (kindsFrom e.tail.trail rest).map (e.tokens ++ ·)

theorem edge_cons {c : Char} (hword : Text.isWordChar c = false) (hpoint : c ≠ '.')
    (rest : List Char) : Edge (c :: rest) := by
  rintro e ⟨⟩
  exact ⟨hword, hpoint⟩

/-! ## Parentheses -/

/-- An expression in parentheses, whatever stands before or behind it. -/
theorem Scans.parens {e : Expr} (h : e.Scans) (trail : Trail) (rest : List Char) :
    kindsFrom trail ((wrapped e.render true).toList ++ rest) =
      (kindsFrom .other rest).map (wrappedTokens e.tokens true ++ ·) := by
  have hedge : e.tail.Meets (Delimiter.parenClose.char :: rest) :=
    e.tail.meets_edge (edge_cons (by decide) (by decide) rest)
  have htext : (wrapped e.render true).toList ++ rest = Delimiter.parenOpen.char ::
      (e.render.toList ++ Delimiter.parenClose.char :: rest) := by
    simp [wrapped, Delimiter.char]
  rw [htext, kindsFrom_delimiter, h _ hedge, kindsFrom_delimiter]
  simp [wrappedTokens, Function.comp_def]

/-- An operand with the parentheses it needs. -/
theorem Scans.wrapped {e : Expr} (h : e.Scans) {wrap : Bool} {rest : List Char}
    (hrest : (if wrap then Tail.closed else e.tail).Meets rest) :
    kindsFrom .other ((Expr.wrapped e.render wrap).toList ++ rest) =
      (kindsFrom (if wrap then Tail.closed else e.tail).trail rest).map
        (wrappedTokens e.tokens wrap ++ ·) := by
  cases wrap with
  | true => exact h.parens .other rest
  | false => exact h rest hrest

/-- An operand in front of an edge. -/
theorem Scans.wrapped_edge {e : Expr} (h : e.Scans) {wrap : Bool} {rest : List Char}
    (hrest : Edge rest) :
    kindsFrom .other ((Expr.wrapped e.render wrap).toList ++ rest) =
      (kindsFrom .other rest).map (wrappedTokens e.tokens wrap ++ ·) := by
  rw [h.wrapped (Tail.meets_edge _ hrest), kindsFrom_edge hrest]

/-! ## Operators -/

theorem toList_natural (n : Nat) : (Literal.natural n).value.render.toList = Nat.toDigits 10 n :=
  Nat.toList_repr

theorem toList_roll (quantity die : Nat) :
    (Literal.roll quantity die).value.render.toList =
      quantityDigits quantity ++ 'd' :: Nat.toDigits 10 die := by
  have hint : ∀ n : Nat, (n : Int).repr.toList = Nat.toDigits 10 n := fun n => Nat.toList_repr
  have htext : ∀ s : String, toString s = s := fun s => rfl
  have hone : (quantity : Int) = 1 ↔ quantity = 1 := by omega
  simp only [Literal.value, Value.render, Roll.text, Roll.hasAdvantage, Roll.hasDisadvantage]
  by_cases h : quantity = 1 <;> simp [quantityDigits, hone, h, hint, htext]

theorem strength_roll (quantity die : Nat) : (literal (.roll quantity die)).strength = .atom := by
  have hsign : (Literal.roll quantity die).value.render.startsWith '-' = false := by
    obtain ⟨c, cs, hdigits, hc, -⟩ := toDigits_eq_cons quantity
    have hne : c ≠ '-' := by
      rintro rfl
      exact absurd hc (by decide)
    rw [String.startsWith_char_eq_head?, toList_roll, quantityDigits]
    split <;> simp [hdigits, hne]
  simp [strength, hsign]

/-- A literal, also as the count of a keep unless it is a natural. -/
theorem kindsFrom_literal {l : Literal} (h : l.Spelled) {trail : Trail} (htrail : trail ≠ .roll)
    (hcount : trail = .keep → ∀ n, l ≠ .natural n) {rest : List Char}
    (hrest : (literal l).tail.Meets rest) :
    kindsFrom trail (l.value.render.toList ++ rest) =
      (kindsFrom (literal l).tail.trail rest).map (l.token :: ·) := by
  cases l with
  | bool b =>
    have hname : isName (if b then "true" else "false") = true := by
      cases b <;> decide
    exact kindsFrom_name hname htrail hrest
  | decimal x =>
    obtain ⟨hfinite, whole, fraction, ⟨hne, hwhole, hfraction, htext⟩, hx⟩ := h
    have hrender : (Literal.decimal x).value.render.toList = whole ++ '.' :: fraction := htext
    rw [hrender, List.append_assoc, List.cons_append]
    exact kindsFrom_decimal hne hwhole hfraction hx hfinite htrail hrest.digitEdge
      (Tail.head?_ne_of_edge hrest (by decide))
  | natural n =>
    have hkeep : trail ≠ .keep := fun heq => hcount heq n rfl
    rw [toList_natural, kindsFrom_natural h htrail hrest.digitEdge
      (Tail.head?_ne_of_edge hrest (by decide)), if_neg hkeep]
    rfl
  | roll quantity die =>
    rw [toList_roll, List.append_assoc, List.cons_append]
    exact kindsFrom_roll h.1 h.2 htrail hrest
  | string s => exact kindsFrom_string s trail rest

theorem scans_literal {l : Literal} (h : l.Spelled) : (literal l).Scans := by
  intro rest hrest
  have hcount : Trail.other = .keep → ∀ n, l ≠ .natural n := nofun
  exact kindsFrom_literal h (by decide) hcount hrest

/-- The text between the operands of an operator other than a keep. -/
theorem kindsFrom_between {op : BinaryOp} (hop : op ≠ .keep) (trail : Trail) (rest : List Char) :
    kindsFrom trail ((separator op).toList ++ rest) =
      (kindsFrom .other rest).map (.operator (.binary op) :: ·) := by
  by_cases hdiscard : op = .discard
  · subst hdiscard
    exact kindsFrom_symbol hop trail rest
  · have htext : (separator op).toList ++ rest = ' ' :: (op.symbol.toList ++ ' ' :: rest) := by
      have : separator op = " " ++ op.symbol ++ " " := by
        cases op <;> first | rfl | exact absurd rfl hop | exact absurd rfl hdiscard
      simp [this]
    rw [htext, kindsFrom_separator (by decide), kindsFrom_symbol hop]

theorem edge_between {op : BinaryOp} (hop : op ≠ .keep) (rest : List Char) :
    Edge ((separator op).toList ++ rest) := by
  have hfirst : ∃ c more, (separator op).toList = c :: more ∧ Text.isWordChar c = false ∧
      c ≠ '.' := by
    cases op <;> first
      | exact ⟨_, _, rfl, by decide, by decide⟩
      | exact absurd rfl hop
  obtain ⟨c, more, htext, hword, hpoint⟩ := hfirst
  rw [htext]
  exact edge_cons hword hpoint _

theorem tail_binary {op : BinaryOp} {rhs : Expr}
    (h : op = .keep → ∀ n, rhs ≠ literal (.natural n)) (lhs : Expr) :
    (binary op lhs rhs).tail = if wrapsRight op rhs then .closed else rhs.tail := by
  cases rhs with
  | literal l => cases l <;> cases op <;> first | rfl | exact absurd rfl (h rfl _)
  | _ => cases op <;> rfl

theorem scans_binary {op : BinaryOp} (hop : op ≠ .keep) {lhs rhs : Expr} (hl : lhs.Scans)
    (hr : rhs.Scans) : (binary op lhs rhs).Scans := by
  intro rest hrest
  rw [tail_binary fun heq => absurd heq hop] at hrest ⊢
  have hbetween := edge_between hop ((wrapped rhs.render (wrapsRight op rhs)).toList ++ rest)
  rw [render, String.toList_append, String.toList_append, List.append_assoc, List.append_assoc,
    hl.wrapped_edge hbetween, kindsFrom_between hop, hr.wrapped hrest]
  simp [tokens, Function.comp_def]

theorem startsWithDigit_natural (n : Nat) : (literal (.natural n)).startsWithDigit = true := by
  obtain ⟨c, cs, hdigits, hc, -⟩ := toDigits_eq_cons n
  simp [startsWithDigit, toList_natural, hdigits, isDigit_of_ascii hc]

theorem exists_literal_of_startsWithDigit {e : Expr} (h : e.startsWithDigit = true) :
    ∃ l, e = literal l ∧ ∃ c cs, l.value.render.toList = c :: cs ∧ Text.isDigit c = true := by
  cases e with
  | literal l =>
    refine ⟨l, rfl, ?_⟩
    simp only [startsWithDigit] at h
    cases htext : l.value.render.toList with
    | nil => simp [htext] at h
    | cons c cs => exact ⟨c, cs, rfl, by simpa [htext] using h⟩
  | _ => cases h

/-- The count of a keep. -/
theorem kindsFrom_count {rhs : Expr} (h : rhs.Scans) (hspelled : rhs.All Spelled) (lhs : Expr)
    {rest : List Char} (hrest : (binary .keep lhs rhs).tail.Meets rest) :
    kindsFrom .keep ((wrapped rhs.render (wrapsRight .keep rhs)).toList ++ rest) =
      (kindsFrom (binary .keep lhs rhs).tail.trail rest).map
        (wrappedTokens rhs.tokens (wrapsRight .keep rhs) ++ ·) := by
  cases hwraps : wrapsRight .keep rhs with
  | true =>
    have hnot : ∀ n, rhs ≠ literal (.natural n) := by
      rintro n rfl
      simp [wrapsRight, startsWithDigit_natural] at hwraps
    rw [h.parens, tail_binary fun _ => hnot, hwraps]
    rfl
  | false =>
    have hdigit : rhs.startsWithDigit = true := by
      simpa [wrapsRight] using hwraps
    obtain ⟨l, rfl, -⟩ := exists_literal_of_startsWithDigit hdigit
    have hl : l.Spelled := hspelled
    by_cases hnatural : ∃ n, l = .natural n
    · obtain ⟨n, rfl⟩ := hnatural
      have hkeep : Trail.keep ≠ .roll := by decide
      have hcount := kindsFrom_natural hl hkeep hrest.1 hrest.2
      rw [← toList_natural] at hcount
      exact hcount
    · have hnot : ∀ n, literal l ≠ literal (.natural n) := by
        rintro n ⟨⟩
        exact hnatural ⟨n, rfl⟩
      rw [tail_binary fun _ => hnot, hwraps] at hrest ⊢
      exact kindsFrom_literal hl (by decide) (fun _ n hn => hnatural ⟨n, hn⟩) hrest

/-- The count of a keep starts with a digit or a parenthesis. -/
theorem first_count (rhs : Expr) (rest : List Char) :
    ∀ c ∈ ((wrapped rhs.render (wrapsRight .keep rhs)).toList ++ rest).head?,
      Text.isWordChar c = true → Text.isDigit c = true := by
  intro c hc hword
  cases hright : wrapsRight .keep rhs with
  | true =>
    rw [hright] at hc
    have : c = '(' := by simpa [wrapped, eq_comm] using hc
    subst this
    exact absurd hword (by decide)
  | false =>
    have hdigit : rhs.startsWithDigit = true := by
      simpa [wrapsRight] using hright
    obtain ⟨l, rfl, e, es, htext, he⟩ := exists_literal_of_startsWithDigit hdigit
    have : c = e := by simpa [hright, wrapped, render, htext, eq_comm] using hc
    rwa [this]

/-- The left operand of a keep up to its count. -/
theorem kindsFrom_kept {lhs : Expr} (h : lhs.Scans) (htail : lhs.tail.takesSuffix = true)
    (rhs : Expr) (rest : List Char) :
    kindsFrom .other (lhs.render.toList ++
        'k' :: ((wrapped rhs.render (wrapsRight .keep rhs)).toList ++ rest)) =
      (kindsFrom .keep ((wrapped rhs.render (wrapsRight .keep rhs)).toList ++ rest)).map
        (lhs.tokens ++ [.operator (.binary .keep)] ++ ·) := by
  have hmeets := Tail.meets_keep (Tail.ne_word_of_takesSuffix htail)
    ((wrapped rhs.render (wrapsRight .keep rhs)).toList ++ rest)
  have htrail : lhs.tail.trail = .roll := by
    cases hlt : lhs.tail <;> simp_all [Tail.takesSuffix, Tail.trail]
  rw [h _ hmeets, htrail, kindsFrom_keep (first_count rhs rest)]
  simp [Function.comp_def]

/-- The text of a keep whose left operand needs no parentheses. -/
theorem toList_keep {lhs : Expr} (hwraps : wrapsLeft .keep lhs = false) (rhs : Expr)
    (rest : List Char) :
    (binary .keep lhs rhs).render.toList ++ rest = lhs.render.toList ++
      'k' :: ((wrapped rhs.render (wrapsRight .keep rhs)).toList ++ rest) := by
  simp [render, hwraps, wrapped, separator]

theorem scans_keep {lhs rhs : Expr} (hl : lhs.Scans) (hr : rhs.Scans) (hspelled : rhs.All Spelled)
    (hwraps : wrapsLeft .keep lhs = false) (htail : lhs.tail.takesSuffix = true) :
    (binary .keep lhs rhs).Scans := by
  intro rest hrest
  rw [toList_keep hwraps, kindsFrom_kept hl htail, kindsFrom_count hr hspelled lhs hrest]
  simp [tokens, hwraps, wrappedTokens, Function.comp_def]

theorem kindsFrom_sign_of_prefixOp {op : UnaryOp} (hop : op.isPostfix = false) (trail : Trail)
    (rest : List Char) :
    kindsFrom trail (op.symbol.toList ++ rest) =
      (kindsFrom .other rest).map (op.token :: ·) := by
  cases op with
  | not => exact kindsFrom_not trail rest
  | neg => exact kindsFrom_minus trail rest
  | _ => cases hop

theorem scans_prefixOp {op : UnaryOp} (hop : op.isPostfix = false) {operand : Expr}
    (h : operand.Scans) : (unary op operand).Scans := by
  intro rest hrest
  simp only [tail, hop, Bool.false_eq_true, if_false] at hrest ⊢
  simp only [render, hop, Bool.false_eq_true, if_false]
  rw [String.toList_append, List.append_assoc, kindsFrom_sign_of_prefixOp hop, h.wrapped hrest]
  simp [tokens, hop, Function.comp_def]

theorem scans_postfixOp {op : UnaryOp} (hop : op.isPostfix = true) {operand : Expr}
    (h : operand.Scans) (hwraps : wrapsOperand op operand = false)
    (htail : operand.tail.takesSuffix = true)
    (hcount : op = .disadvantage → operand.tail ≠ .count) : (unary op operand).Scans := by
  intro rest hrest
  simp only [tail, hop, if_true] at hrest ⊢
  have htoken : op.token = .operator (.unary op) := by
    cases op <;> first | rfl | cases hop
  have hmeets := Tail.meets_unaryOp (Tail.ne_word_of_takesSuffix htail) hcount rest
  have htrail : operand.tail.trail = .roll := by
    cases hot : operand.tail <;> simp_all [Tail.takesSuffix, Tail.trail]
  simp only [render, hop, if_true, hwraps, wrapped, Bool.false_eq_true, if_false]
  rw [String.toList_append, List.append_assoc, h _ hmeets, htrail, kindsFrom_postfixOp hop hrest]
  simp [tokens, hop, hwraps, wrappedTokens, htoken, Tail.trail, Function.comp_def]

/-! ## Conditionals -/

/-- A word between blanks. -/
theorem kindsFrom_word {word : String} (h : isName word = true) (trail : Trail)
    (rest : List Char) :
    kindsFrom trail (' ' :: (word.toList ++ ' ' :: rest)) =
      (kindsFrom .other rest).map (.identifier word :: ·) := by
  have hedge : Edge (' ' :: rest) := edge_cons (by decide) (by decide) rest
  rw [kindsFrom_separator (by decide), kindsFrom_name h (by decide) hedge,
    kindsFrom_separator (by decide)]

/-- The text up to the consequent of a conditional. -/
theorem kindsFrom_condition {condition : Expr} (h : condition.Scans) (rest : List Char) :
    kindsFrom .other (("if " ++ wrapped condition.render (condition.strength = .conditional) ++
        " then ").toList ++ rest) =
      (kindsFrom .other rest).map (.identifier "if" ::
        (wrappedTokens condition.tokens (condition.strength = .conditional) ++
          [.identifier "then"]) ++ ·) := by
  have hedge : ∀ more : List Char, Edge (' ' :: more) :=
    fun more => edge_cons (by decide) (by decide) more
  have htext : ("if " ++ wrapped condition.render (condition.strength = .conditional) ++
        " then ").toList ++ rest = "if".toList ++ ' ' ::
      ((wrapped condition.render (condition.strength = .conditional)).toList ++
        ' ' :: ("then".toList ++ ' ' :: rest)) := by
    simp
  rw [htext, kindsFrom_name (by decide) (by decide) (hedge _), kindsFrom_separator (by decide),
    h.wrapped_edge (hedge _), kindsFrom_word (by decide)]
  simp [Function.comp_def]

theorem scans_ifThen {condition consequent : Expr} (hc : condition.Scans) (hx : consequent.Scans) :
    (ifThen condition consequent).Scans := by
  intro rest hrest
  rw [render, String.toList_append, List.append_assoc, kindsFrom_condition hc, hx rest hrest]
  simp [tokens, tail, Function.comp_def]

theorem scans_ifElse {condition consequent alternative : Expr} (hc : condition.Scans)
    (hx : consequent.Scans) (he : alternative.Scans) :
    (ifElse condition consequent alternative).Scans := by
  intro rest hrest
  have hedge : Edge (' ' :: ("else".toList ++ ' ' :: (alternative.render.toList ++ rest))) :=
    edge_cons (by decide) (by decide) _
  have htext : (ifElse condition consequent alternative).render.toList ++ rest =
      ("if " ++ wrapped condition.render (condition.strength = .conditional) ++ " then ").toList ++
        ((wrapped consequent.render consequent.isOpenConditional).toList ++
          ' ' :: ("else".toList ++ ' ' :: (alternative.render.toList ++ rest))) := by
    simp [render]
  rw [htext, kindsFrom_condition hc, hx.wrapped_edge hedge, kindsFrom_word (by decide),
    he rest hrest]
  simp [tokens, tail, Function.comp_def]

/-! ## Items -/

/-- The text of further items, each behind a comma, up to the closing delimiter. -/
def moreText (closer : Delimiter) : List String → List Char
  | [] => [closer.char]
  | text :: more => ',' :: ' ' :: (text.toList ++ moreText closer more)

theorem edge_moreText (closer : Delimiter) (more : List String) (rest : List Char) :
    Edge (moreText closer more ++ rest) := by
  cases more with
  | nil =>
    refine edge_cons ?_ ?_ rest <;> cases closer <;> decide
  | cons text more => exact edge_cons (by decide) (by decide) _

theorem toList_items (closer : Delimiter) (text : String) (more : List String)
    (rest : List Char) :
    (", ".intercalate (text :: more)).toList ++ closer.char :: rest =
      text.toList ++ (moreText closer more ++ rest) := by
  induction more generalizing text with
  | nil => simp [moreText]
  | cons next more ih =>
    rw [String.intercalate_cons_cons, String.toList_append, List.append_assoc, ih]
    simp [moreText]

theorem kindsFrom_moreText (closer : Delimiter) {es : List Expr} (h : ∀ e ∈ es, e.Scans)
    (trail : Trail) (rest : List Char) :
    kindsFrom trail (moreText closer (renderAll es) ++ rest) =
      (kindsFrom .other rest).map (moreTokens closer es ++ ·) := by
  induction es generalizing trail with
  | nil => exact kindsFrom_delimiter trail closer rest
  | cons e es ih =>
    have he := h e List.mem_cons_self
    have hes := ih fun e he => h e (List.mem_cons_of_mem _ he)
    have hcomma := kindsFrom_delimiter trail .comma
      (' ' :: (e.render.toList ++ (moreText closer (renderAll es) ++ rest)))
    rw [renderAll, moreText, List.cons_append, List.cons_append, List.append_assoc]
    rw [Delimiter.char] at hcomma
    rw [hcomma, kindsFrom_separator (by decide), he _ (Tail.meets_edge _ (edge_moreText closer _ _)),
      hes]
    simp [moreTokens, Function.comp_def]

theorem kindsFrom_items (closer : Delimiter) {es : List Expr} (h : ∀ e ∈ es, e.Scans)
    (rest : List Char) :
    kindsFrom .other ((", ".intercalate (renderAll es)).toList ++ closer.char :: rest) =
      (kindsFrom .other rest).map (itemTokens closer es ++ ·) := by
  cases es with
  | nil =>
    simp only [renderAll, String.intercalate_nil]
    exact kindsFrom_delimiter .other closer rest
  | cons e es =>
    have he := h e List.mem_cons_self
    have hes := fun e he => h e (List.mem_cons_of_mem _ he)
    rw [renderAll, toList_items, he _ (Tail.meets_edge _ (edge_moreText closer _ _)),
      kindsFrom_moreText closer hes]
    simp [itemTokens, Function.comp_def]

theorem scans_list {items : List Expr} (h : ∀ e ∈ items, e.Scans) : (list items).Scans := by
  intro rest _
  have htext : (list items).render.toList ++ rest = Delimiter.bracketOpen.char ::
      ((", ".intercalate (renderAll items)).toList ++ Delimiter.bracketClose.char :: rest) := by
    simp [render, Delimiter.char]
  rw [htext, kindsFrom_delimiter, kindsFrom_items .bracketClose h]
  simp [tokens, tail, Tail.trail, Function.comp_def]

theorem scans_call {callee : String} (hcallee : isName callee = true) {args : List Expr}
    (h : ∀ e ∈ args, e.Scans) : (call callee args).Scans := by
  intro rest _
  have hedge : ∀ more : List Char, Edge (Delimiter.parenOpen.char :: more) :=
    fun more => edge_cons (by decide) (by decide) more
  have htext : (call callee args).render.toList ++ rest = callee.toList ++
      Delimiter.parenOpen.char ::
        ((", ".intercalate (renderAll args)).toList ++ Delimiter.parenClose.char :: rest) := by
    simp [render, Delimiter.char]
  rw [htext, kindsFrom_name hcallee (by decide) (hedge _), kindsFrom_delimiter,
    kindsFrom_items .parenClose h]
  simp [tokens, tail, Tail.trail, Function.comp_def]

mutual

/-- The text of an expression that is spelled the way the scanner reads it is cut into its
tokens. -/
theorem scans : ∀ {e : Expr}, e.All Spelled → e.Scans
  | literal _, h => scans_literal h
  | name _, h => fun _ hrest => kindsFrom_name h (by decide) hrest
  | list _, h => scans_list (scans_items h.2)
  | call _ _, h => scans_call h.1 (scans_items h.2)
  | binary op lhs rhs, h => by
    by_cases hop : op = .keep
    · subst hop
      exact scans_keep (scans h.2.1) (scans h.2.2) h.2.2 h.1.1 h.1.2
    · exact scans_binary hop (scans h.2.1) (scans h.2.2)
  | unary op operand, h => by
    cases hop : op.isPostfix with
    | false => exact scans_prefixOp hop (scans h.2)
    | true =>
      obtain ⟨hwraps, htail, hcount⟩ := h.1 hop
      exact scans_postfixOp hop (scans h.2) hwraps htail hcount
  | ifThen _ _, h => scans_ifThen (scans h.2.1) (scans h.2.2)
  | ifElse _ _ _, h => scans_ifElse (scans h.2.1) (scans h.2.2.1) (scans h.2.2.2)

theorem scans_items : ∀ {es : List Expr}, AllItems Spelled es → ∀ e ∈ es, e.Scans
  | [], _, _, he => nomatch he
  | _ :: _, h, _, .head _ => scans h.1
  | _ :: _, h, _, .tail _ he => scans_items h.2 _ he

end

end Expr

end DiceTome
