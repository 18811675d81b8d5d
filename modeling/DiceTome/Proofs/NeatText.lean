import DiceTome.Proofs.Clashes

/-!
# Neat texts

The printer puts parentheses around an operand of a power or a keep that starts with a sign, and
around a count that starts with a letter. Hence the tokens of a printed text are neat, also where
the scanner finds other tokens in it than the printer meant: a roll operator behind a closing
parenthesis is taken for a name, but a name never makes the tokens around it less neat.

* `Token.Orderly` says that a list of tokens is neat.
* `Expr.neat`: the tokens of a printed expression are, whatever follows.
-/

namespace DiceTome

namespace Token

/-- No operand that the printer would enclose stands bare behind a power or a keep. -/
def Orderly (kinds : List Kind) : Prop :=
  kinds.IsChain fun a b => (Trace.other.next a).tidy b = true

theorem orderly_cons {token : Kind} {kinds : List Kind} (h : Orderly kinds)
    (hfirst : ∀ k ∈ kinds.head?, (Trace.other.next token).tidy k = true) :
    Orderly (token :: kinds) :=
  List.isChain_cons.mpr ⟨hfirst, h⟩

/-- What stood before a token matters for what may stand behind it only if the token is a count. -/
theorem tidy_next (t : Trace) {kind k : Kind} (h : (Trace.other.next kind).tidy k = true) :
    (t.next kind).tidy k = true := by
  rcases kind with _ | _ | _ | _ | _ | (_ | op | op) | _ <;> cases t <;>
    first | exact h | rfl | (cases op <;> exact h)

/-- Sound tokens that are orderly are the tokens of a neat text. -/
theorem sound_of_orderly {t : Trace} {kinds : List Kind} (h : Sound false t kinds)
    (hkinds : Orderly kinds) (hfirst : ∀ k ∈ kinds.head?, t.tidy k = true) :
    Sound true t kinds := by
  induction kinds generalizing t with
  | nil => trivial
  | cons kind kinds ih =>
    obtain ⟨hsound, hallows, -, hmore⟩ := h
    obtain ⟨hnext, hrest⟩ := List.isChain_cons.mp hkinds
    refine ⟨hsound, hallows, fun _ => hfirst kind rfl, ih hmore hrest fun k hk => ?_⟩
    exact tidy_next t (hnext k hk)

/-- The tokens of the text are neat, and the first of them satisfies `q`. -/
def NeatText (trail : Trail) (text : List Char) (q : Kind → Prop) : Prop :=
  ∀ kinds, kindsFrom trail text = some kinds → Orderly kinds ∧ ∀ k ∈ kinds.head?, q k

theorem NeatText.mono {trail : Trail} {text : List Char} {q q' : Kind → Prop}
    (h : NeatText trail text q) (himp : ∀ k, q k → q' k) : NeatText trail text q' :=
  fun kinds hkinds => ⟨(h kinds hkinds).1, fun k hk => himp k ((h kinds hkinds).2 k hk)⟩

theorem NeatText.of_eq {trail trail' : Trail} {text text' : List Char} {q : Kind → Prop}
    (h : NeatText trail' text' q) (heq : kindsFrom trail text = kindsFrom trail' text') :
    NeatText trail text q :=
  fun kinds hkinds => h kinds (heq ▸ hkinds)

/-- A token in front of a neat text. -/
theorem NeatText.of_cons {trail trail' : Trail} {text text' : List Char} {token : Kind}
    {q : Kind → Prop}
    (h : NeatText trail' text' fun k => (Trace.other.next token).tidy k = true)
    (heq : kindsFrom trail text = (kindsFrom trail' text').map (token :: ·)) (htoken : q token) :
    NeatText trail text q := by
  intro kinds hkinds
  rw [heq] at hkinds
  obtain ⟨more, hmore, rfl⟩ := Option.map_eq_some_iff.mp hkinds
  obtain ⟨horderly, hfirst⟩ := h more hmore
  refine ⟨orderly_cons horderly hfirst, ?_⟩
  rintro k ⟨⟩
  exact htoken

/-- A token other than a power or a keep in front of a neat text. -/
theorem NeatText.of_plain {trail trail' : Trail} {text text' : List Char} {token : Kind}
    {q q' : Kind → Prop} (h : NeatText trail' text' q')
    (heq : kindsFrom trail text = (kindsFrom trail' text').map (token :: ·)) (htoken : q token)
    (hplain : ∀ k, (Trace.other.next token).tidy k = true) : NeatText trail text q :=
  (h.mono fun k _ => hplain k).of_cons heq htoken

/-- A text that may follow a printed expression: its tokens are neat, whatever stands before, and
also if it goes on with a word. -/
structure Calm (rest : List Char) : Prop where
  plain : ∀ trail, NeatText trail rest fun _ => True
  word : ∀ trail, trail ≠ .roll → ∀ n, isName n = true →
    NeatText trail (n.toList ++ rest) fun _ => True

theorem calm_of_edge {rest : List Char} (hedge : Edge rest) {q : Kind → Prop}
    (h : NeatText .other rest q) : Calm rest := by
  refine ⟨fun trail => ?_, fun trail htrail n hn => ?_⟩
  · exact (h.mono fun _ _ => trivial).of_eq (kindsFrom_edge hedge trail)
  · exact h.of_plain (kindsFrom_name hn htrail hedge) trivial fun _ => rfl

/-- A delimiter and what stands behind it. -/
theorem neat_delimiter (trail : Trail) (d : Delimiter) {rest : List Char} {q : Kind → Prop}
    (h : NeatText .other rest q) : NeatText trail (d.char :: rest) fun k => k = .delimiter d :=
  h.of_plain (kindsFrom_delimiter trail d rest) rfl fun _ => rfl

end Token

namespace Expr

open Token

/-- The tokens of the expression's text are neat, whatever follows. Behind a power the expression
does not start with a sign if it needs no parentheses there. -/
def Neat (e : Expr) : Prop :=
  ∀ rest, e.tail.Meets rest → Calm rest → NeatText .other (e.render.toList ++ rest)
    fun k => e.strength.below BinaryOp.pow.precedence = false → Climb.prefixOp? k = none

/-- It does not matter what an expression that needs parentheses behind a power starts with. -/
theorem neatText_of_below {e : Expr} (hbelow : e.strength.below BinaryOp.pow.precedence = true)
    {trail : Trail} {text : List Char} {q : Kind → Prop} (h : NeatText trail text q) :
    NeatText trail text fun k =>
      e.strength.below BinaryOp.pow.precedence = false → Climb.prefixOp? k = none := by
  refine h.mono fun k _ hnot => ?_
  rw [hbelow] at hnot
  cases hnot

theorem Neat.parens {e : Expr} (h : e.Neat) (trail : Trail) {rest : List Char} {q : Kind → Prop}
    (hrest : NeatText .other rest q) :
    NeatText trail ((wrapped e.render true).toList ++ rest) fun k => k = .delimiter .parenOpen := by
  have hedge : Edge (Delimiter.parenClose.char :: rest) := edge_cons (by decide) (by decide) rest
  have htext : (wrapped e.render true).toList ++ rest = Delimiter.parenOpen.char ::
      (e.render.toList ++ Delimiter.parenClose.char :: rest) := by
    simp [wrapped, Delimiter.char]
  rw [htext]
  exact neat_delimiter trail .parenOpen
    (h _ (e.tail.meets_edge hedge) (calm_of_edge hedge (neat_delimiter .other .parenClose hrest)))

theorem Neat.wrapped {e : Expr} (h : e.Neat) {wrap : Bool} {rest : List Char}
    (hmeets : (if wrap then Tail.closed else e.tail).Meets rest) (hrest : Calm rest) :
    NeatText .other ((Expr.wrapped e.render wrap).toList ++ rest)
      fun k => (wrap = false → e.strength.below BinaryOp.pow.precedence = false) →
        Climb.prefixOp? k = none := by
  cases wrap with
  | true =>
    refine (h.parens .other (hrest.plain .other)).mono ?_
    rintro k rfl -
    rfl
  | false => exact (h rest hmeets hrest).mono fun k hk himp => hk (himp rfl)

theorem Neat.wrapped_edge {e : Expr} (h : e.Neat) (wrap : Bool) {rest : List Char}
    (hedge : Edge rest) {q : Kind → Prop} (hrest : NeatText .other rest q) :
    NeatText .other ((Expr.wrapped e.render wrap).toList ++ rest) fun _ => True :=
  (h.wrapped (Tail.meets_edge _ hedge) (calm_of_edge hedge hrest)).mono fun _ _ => trivial

theorem neat_literal {l : Literal} (h : (literal l).Parsed) : (literal l).Neat := by
  intro rest hmeets hrest
  refine (hrest.plain _).of_plain (scans_literal (spelled_literal h) rest hmeets) ?_ ?_
  · intro _
    cases l <;> rfl
  · intro k
    cases l <;> rfl

theorem neat_name {n : String} (h : isName n = true) : (name n).Neat :=
  fun _ hmeets hrest => (hrest.plain _).of_plain (kindsFrom_name h (by decide) hmeets)
    (fun _ => rfl) fun _ => rfl

/-! ## Operators -/

theorem neat_binary {op : BinaryOp} (hop : op ≠ .keep) {lhs rhs : Expr} (hl : lhs.Neat)
    (hr : rhs.Neat) : (binary op lhs rhs).Neat := by
  intro rest hmeets hrest
  rw [tail_binary fun heq => absurd heq hop] at hmeets
  have hright : NeatText .other ((separator op).toList ++
      ((Expr.wrapped rhs.render (wrapsRight op rhs)).toList ++ rest)) fun _ => True := by
    refine ((hr.wrapped hmeets hrest).mono ?_).of_cons (kindsFrom_between hop .other _) trivial
    intro k hk
    by_cases hpow : op = .pow
    · subst hpow
      have hnone : Climb.prefixOp? k = none :=
        hk fun hwraps => (Bool.or_eq_false_iff.mp hwraps).1
      show (Climb.prefixOp? k).isNone = true
      rw [hnone]
      rfl
    · cases op <;> first | rfl | exact absurd rfl hop | exact absurd rfl hpow
  have hedge := edge_between hop ((Expr.wrapped rhs.render (wrapsRight op rhs)).toList ++ rest)
  have htext : (binary op lhs rhs).render.toList ++ rest =
      (Expr.wrapped lhs.render (wrapsLeft op lhs)).toList ++ ((separator op).toList ++
        ((Expr.wrapped rhs.render (wrapsRight op rhs)).toList ++ rest)) := by
    simp [render]
  rw [htext]
  refine (hl.wrapped (Tail.meets_edge _ hedge) (calm_of_edge hedge hright)).mono ?_
  intro k hk hstrong
  refine hk fun hwraps => ?_
  have hpow : op = .pow := by
    cases op <;> first | rfl | exact absurd rfl hop | cases hstrong
  subst hpow
  exact (Bool.or_eq_false_iff.mp hwraps).1

/-- A name stays one with further word characters, unless it becomes the roll of one die. -/
theorem isName_append {n : String} (hn : isName n = true) {more : List Char}
    (hmore : more.all Text.isWordChar = true)
    (hd : n = "d" → more.head?.any Text.isDigit = false) :
    isName (n ++ String.ofList more) = true := by
  obtain ⟨c, cs, hchars, hstart, hdigit, hword, hroll⟩ := isName_iff.mp hn
  refine isName_iff.mpr ⟨c, cs ++ more, by simp [hchars], hstart, hdigit, ?_, ?_⟩
  · rw [List.all_append, hword, hmore]
    rfl
  · cases cs with
    | nil =>
      by_cases hc : c = 'd'
      · subst hc
        simp [hd (String.toList_injective hchars)]
      · simp [hc]
    | cons e cs => exact hroll

/-- Digits behind a point are a number, or no token at all. -/
theorem kindsFrom_point {fraction rest : List Char} (hfraction : fraction.all Char.isDigit = true)
    (hrest : DigitEdge rest) {kinds : List Kind}
    (h : kindsFrom .other ('.' :: (fraction ++ rest)) = some kinds) :
    ∃ x, kindsFrom .other ('.' :: (fraction ++ rest)) =
      (kindsFrom .other rest).map (.decimal x :: ·) := by
  have hpiece : scanPiece .start .other '.' (fraction ++ rest) =
      scanNumber .start .other ('.' :: (fraction ++ rest)) := by
    rw [scanPiece, if_neg (by decide), if_neg (by decide), suffix?_of_ne (by decide)]
    rfl
  cases hscan : scanNumber .start .other ('.' :: (fraction ++ rest)) with
  | error err =>
    rw [kindsFrom.eq_def] at h
    simp [hpiece, hscan] at h
  | ok piece =>
    have hdecimal : ∃ x, piece = ⟨fraction.length, some (.decimal x), .other⟩ := by
      have hwhole : ('.' :: (fraction ++ rest)).takeWhile Text.isDigit = [] := by
        simp [show Text.isDigit '.' = false by decide]
      have hbehind : ('.' :: (fraction ++ rest)).dropWhile Text.isDigit =
          '.' :: (fraction ++ rest) := by
        simp [show Text.isDigit '.' = false by decide]
      simp only [scanNumber, hwhole, hbehind, takeWhile_digits hfraction hrest] at hscan
      split at hscan
      · cases hscan
      · obtain ⟨x, -, hx⟩ := bind_eq_ok hscan
        cases hx
        exact ⟨x, by simp⟩
    obtain ⟨x, rfl⟩ := hdecimal
    exact ⟨x, kindsFrom_append (hpiece.trans hscan)⟩

theorem neat_point {fraction rest : List Char} (hfraction : fraction.all Char.isDigit = true)
    (hrest : DigitEdge rest) {q : Kind → Prop} (h : NeatText .other rest q) :
    NeatText .other ('.' :: (fraction ++ rest)) fun _ => True := by
  intro kinds hkinds
  obtain ⟨x, hcut⟩ := kindsFrom_point hfraction hrest hkinds
  exact (h.of_plain hcut trivial fun _ => rfl) kinds hkinds

theorem literal_count {rhs : Expr} (h : wrapsRight .keep rhs = false) :
    ∃ l, rhs = literal l ∧ (literal l).startsWithDigit = true := by
  have hdigit : rhs.startsWithDigit = true := by
    simpa [wrapsRight] using h
  obtain ⟨l, rfl, -⟩ := exists_literal_of_startsWithDigit hdigit
  exact ⟨l, rfl, hdigit⟩

theorem ne_one_of_startsWithDigit {quantity die : Nat}
    (h : (literal (.roll quantity die)).startsWithDigit = true) : quantity ≠ 1 := by
  rintro rfl
  rw [startsWithDigit, toList_roll] at h
  have hletter : Text.isDigit 'd' = true := h
  exact absurd hletter (by decide)

theorem all_isWordChar {digits : List Char} (h : digits.all Char.isDigit = true) :
    digits.all Text.isWordChar = true := by
  simp only [List.all_eq_true] at h ⊢
  exact fun c hc => isWordChar_of_isDigit (isDigit_of_ascii (h c hc))

theorem tidy_roll {quantity : Nat} (h : quantity ≠ 1) (die : Nat) :
    Trace.keep.tidy (.roll quantity die) = true := by
  rcases quantity with _ | _ | quantity
  · rfl
  · exact absurd rfl h
  · rfl

/-- The count of a keep. -/
theorem neat_count {lhs rhs : Expr} (hrhs : rhs.All Parsed) (hr : rhs.Neat) {rest : List Char}
    (hmeets : (binary .keep lhs rhs).tail.Meets rest) (hrest : Calm rest) :
    NeatText .keep ((Expr.wrapped rhs.render (wrapsRight .keep rhs)).toList ++ rest)
      fun k => Trace.keep.tidy k = true := by
  cases hwraps : wrapsRight .keep rhs with
  | true =>
    refine (hr.parens .keep (hrest.plain .other)).mono ?_
    rintro k rfl
    rfl
  | false =>
    obtain ⟨l, rfl, hdigit⟩ := literal_count hwraps
    have hspelled : (literal l).All Spelled := spelled_literal hrhs
    have hcut := kindsFrom_count (scans hspelled) hspelled lhs hmeets
    rw [hwraps] at hcut
    refine (hrest.plain _).of_plain hcut ?_ ?_
    · cases l with
      | roll quantity die =>
        exact tidy_roll (ne_one_of_startsWithDigit hdigit) die
      | _ => rfl
    · intro k
      cases l <;> rfl

/-- The point of a decimal ends the name that takes the digits in front of it. -/
theorem neat_word_decimal {x : Float} (hx : Decimal.Written x) {rest : List Char}
    (hedge : Edge rest) (hrest : Calm rest) {trail : Trail} (htrail : trail ≠ .roll) {n : String}
    (hn : isName n = true) (hd : n ≠ "d") :
    NeatText trail (n.toList ++ ((Literal.decimal x).value.render.toList ++ rest))
      fun _ => True := by
  obtain ⟨-, whole, fraction, ⟨-, hwhole, hfraction, htext⟩, -⟩ := hx
  have hrender : (Literal.decimal x).value.render.toList = whole ++ '.' :: fraction := htext
  have hsplit : n.toList ++ ((whole ++ '.' :: fraction) ++ rest) =
      (n ++ String.ofList whole).toList ++ ('.' :: (fraction ++ rest)) := by
    simp
  have hpoint : ∀ c ∈ ('.' :: (fraction ++ rest)).head?, Text.isWordChar c = false := by
    rintro c ⟨⟩
    decide
  have hlonger := isName_append hn (all_isWordChar hwhole) fun heq => absurd heq hd
  rw [hrender, hsplit]
  exact (neat_point hfraction hedge.digitEdge (hrest.plain .other)).of_plain
    (kindsFrom_identifier hlonger htrail hpoint) trivial fun _ => rfl

/-- A literal that starts with a digit consists of letters and digits, unless it is a decimal. -/
theorem isWord_of_startsWithDigit {l : Literal} (hdigit : (literal l).startsWithDigit = true)
    (hdecimal : ∀ x, l ≠ .decimal x) :
    l.value.render.toList.all Text.isWordChar = true := by
  cases l with
  | bool b => cases b <;> exact absurd hdigit (by decide)
  | string s =>
    have hquote : Text.isDigit '"' = true := by
      simpa [startsWithDigit, Literal.value, Value.render, Value.stringLiteral] using hdigit
    exact absurd hquote (by decide)
  | natural m =>
    rw [toList_natural]
    exact all_isWordChar (all_isDigit_toDigits m)
  | roll quantity die =>
    have hquantity : (quantityDigits quantity).all Text.isWordChar = true := by
      rw [quantityDigits, if_neg (ne_one_of_startsWithDigit hdigit)]
      exact all_isWordChar (all_isDigit_toDigits quantity)
    have hdie := all_isWordChar (all_isDigit_toDigits die)
    rw [toList_roll, List.all_append, List.all_cons, hquantity, hdie]
    decide
  | decimal x => exact absurd rfl (hdecimal x)

/-- A count that is taken for the end of a name. -/
theorem neat_word_count {lhs rhs : Expr} (hrhs : rhs.All Parsed) (hr : rhs.Neat) {rest : List Char}
    (hmeets : (binary .keep lhs rhs).tail.Meets rest) (hrest : Calm rest) {trail : Trail}
    (htrail : trail ≠ .roll) {n : String} (hn : isName n = true) (hd : n ≠ "d") :
    NeatText trail (n.toList ++
      ((Expr.wrapped rhs.render (wrapsRight .keep rhs)).toList ++ rest)) fun _ => True := by
  cases hwraps : wrapsRight .keep rhs with
  | true =>
    have hparens := hr.parens .other (hrest.plain .other)
    have hedge : Edge ((Expr.wrapped rhs.render true).toList ++ rest) := by
      simp only [Expr.wrapped, if_true, String.toList_append]
      exact edge_cons (by decide) (by decide) _
    exact hparens.of_plain (kindsFrom_name hn htrail hedge) trivial fun _ => rfl
  | false =>
    obtain ⟨l, rfl, hdigit⟩ := literal_count hwraps
    simp only [Expr.wrapped, Bool.false_eq_true, if_false, render]
    by_cases hdecimal : ∃ x, l = .decimal x
    · obtain ⟨x, rfl⟩ := hdecimal
      have hnot : BinaryOp.keep = .keep → ∀ m, literal (.decimal x) ≠ literal (.natural m) :=
        fun _ _ heq => by cases heq
      have hedge : Edge rest := by
        rwa [tail_binary hnot, hwraps] at hmeets
      exact neat_word_decimal (spelled_literal hrhs) hedge hrest htrail hn hd
    · have hword := isWord_of_startsWithDigit hdigit (not_exists.mp hdecimal)
      have htext : n.toList ++ (l.value.render.toList ++ rest) =
          (n ++ l.value.render).toList ++ rest := by
        simp
      rw [htext, ← String.ofList_toList (s := l.value.render)]
      exact hrest.word trail htrail _ (isName_append hn hword fun heq => absurd heq hd)

theorem neat_keep {lhs rhs : Expr} (hparsed : (binary .keep lhs rhs).Parsed)
    (hrhs : rhs.All Parsed) (hl : lhs.Neat) (hr : rhs.Neat) : (binary .keep lhs rhs).Neat := by
  intro rest hmeets hrest
  obtain ⟨hwraps, hpost, hword⟩ := hparsed
  have hkept := Tail.meets_keep hword
    ((Expr.wrapped rhs.render (wrapsRight .keep rhs)).toList ++ rest)
  have hname : ∀ trail, trail ≠ .roll → ∀ n, isName n = true → n ≠ "d" → NeatText trail
      (n.toList ++ ((Expr.wrapped rhs.render (wrapsRight .keep rhs)).toList ++ rest))
        fun _ => True :=
    fun _ htrail _ hn hd => neat_word_count hrhs hr hmeets hrest htrail hn hd
  have hcalm : Calm ('k' :: ((Expr.wrapped rhs.render (wrapsRight .keep rhs)).toList ++ rest)) := by
    refine ⟨fun trail => ?_, fun trail htrail n hn => ?_⟩
    · by_cases htrail : trail = .roll
      · subst htrail
        exact (neat_count hrhs hr hmeets hrest).of_cons (kindsFrom_keep (first_count rhs rest))
          trivial
      · exact hname trail htrail "k" (by decide) (by decide)
    · have hlonger : isName (n ++ String.ofList ['k']) = true :=
        isName_append hn (by decide) fun _ => by decide
      have hne : n ++ String.ofList ['k'] ≠ "d" := by
        intro heq
        have hlast := congrArg (fun s => s.toList.getLast?) heq
        simp at hlast
      simpa using hname trail htrail _ hlonger hne
  rw [toList_keep hwraps]
  refine (hl _ hkept hcalm).mono fun k hk _ => hk ?_
  have hbelow : lhs.strength.below BinaryOp.keep.precedence = false := by
    simpa [wrapsLeft, barelyKept, hpost] using hwraps
  cases hstrength : lhs.strength with
  | conditional => simp [hstrength, Strength.below] at hbelow
  | rank p =>
    rw [hstrength] at hbelow
    have hge : ¬ p < 9 := of_decide_eq_false hbelow
    have hlower : ¬ p < 8 := by omega
    exact decide_eq_false hlower
  | atom => rfl

theorem neat_prefixOp {op : UnaryOp} (hop : op.isPostfix = false) {operand : Expr}
    (h : operand.Neat) : (unary op operand).Neat := by
  intro rest hmeets hrest
  simp only [tail, hop, Bool.false_eq_true, if_false] at hmeets
  simp only [render, hop, Bool.false_eq_true, if_false, String.toList_append, List.append_assoc]
  refine (h.wrapped hmeets hrest).of_plain (kindsFrom_sign_of_prefixOp hop .other _) ?_ ?_
  · intro hnot
    cases hnot
  · cases op <;> exact fun _ => rfl

theorem neat_postfixOp {op : UnaryOp} (hop : op.isPostfix = true) {operand : Expr}
    (hwraps : wrapsOperand op operand = false) (hword : operand.tail ≠ .word)
    (hcount : op = .disadvantage → operand.tail ≠ .count) (h : operand.Neat) :
    (unary op operand).Neat := by
  intro rest hmeets hrest
  simp only [tail, hop, if_true] at hmeets
  have hedge : Edge rest := hmeets
  have htext : (unary op operand).render.toList ++ rest =
      operand.render.toList ++ (op.symbol.toList ++ rest) := by
    simp [render, hop, hwraps, Expr.wrapped]
  have hletter : isName op.symbol = true := by
    cases op <;> first | rfl | cases hop
  have hcalm : Calm (op.symbol.toList ++ rest) := by
    refine ⟨fun trail => ?_, fun trail htrail n hn => ?_⟩
    · by_cases htrail : trail = .roll
      · subst htrail
        exact (hrest.plain .other).of_plain (kindsFrom_postfixOp hop hedge) trivial fun _ => rfl
      · exact hrest.word trail htrail _ hletter
    · have hlonger : isName (n ++ String.ofList op.symbol.toList) = true :=
        isName_append hn (by cases op <;> first | decide | cases hop) fun _ => by cases op <;> decide
      simpa using hrest.word trail htrail _ hlonger
  rw [htext]
  exact neatText_of_below rfl (h _ (Tail.meets_unaryOp hword hcount rest) hcalm)

/-! ## Conditionals -/

/-- A word between blanks, and what stands behind it. -/
theorem neat_word {word : String} (h : isName word = true) {rest : List Char} {q : Kind → Prop}
    (hrest : NeatText .other rest q) :
    NeatText .other (' ' :: (word.toList ++ ' ' :: rest)) fun _ => True :=
  hrest.of_plain (kindsFrom_word h .other rest) trivial fun _ => rfl

theorem neat_condition {condition : Expr} (h : condition.Neat) {rest : List Char}
    {q : Kind → Prop} (hrest : NeatText .other rest q) :
    NeatText .other (("if " ++ Expr.wrapped condition.render (condition.strength = .conditional) ++
      " then ").toList ++ rest) fun _ => True := by
  have hedge : ∀ more : List Char, Edge (' ' :: more) :=
    fun more => edge_cons (by decide) (by decide) more
  have htext : ("if " ++ Expr.wrapped condition.render (condition.strength = .conditional) ++
        " then ").toList ++ rest = "if".toList ++ ' ' ::
      ((Expr.wrapped condition.render (condition.strength = .conditional)).toList ++
        ' ' :: ("then".toList ++ ' ' :: rest)) := by
    simp
  have hthen : NeatText .other (' ' :: ("then".toList ++ ' ' :: rest)) fun _ => True :=
    neat_word (by decide) hrest
  have hinner := (h.wrapped_edge (decide (condition.strength = .conditional)) (hedge _) hthen).of_eq
    (kindsFrom_separator (c := ' ') (by decide) .other _)
  rw [htext]
  exact hinner.of_plain (kindsFrom_name (by decide) (by decide) (hedge _)) trivial fun _ => rfl

theorem neat_ifThen {condition consequent : Expr} (hc : condition.Neat) (hx : consequent.Neat) :
    (ifThen condition consequent).Neat := by
  intro rest hmeets hrest
  rw [render, String.toList_append, List.append_assoc]
  exact neatText_of_below rfl (neat_condition hc (hx rest hmeets hrest))

theorem neat_ifElse {condition consequent alternative : Expr} (hc : condition.Neat)
    (hx : consequent.Neat) (he : alternative.Neat) :
    (ifElse condition consequent alternative).Neat := by
  intro rest hmeets hrest
  have hedge : Edge (' ' :: ("else".toList ++ ' ' :: (alternative.render.toList ++ rest))) :=
    edge_cons (by decide) (by decide) _
  have htext : (ifElse condition consequent alternative).render.toList ++ rest =
      ("if " ++ Expr.wrapped condition.render (condition.strength = .conditional) ++
        " then ").toList ++
        ((Expr.wrapped consequent.render consequent.isOpenConditional).toList ++
          ' ' :: ("else".toList ++ ' ' :: (alternative.render.toList ++ rest))) := by
    simp [render]
  have helse : NeatText .other (' ' :: ("else".toList ++ ' ' :: (alternative.render.toList ++ rest)))
      fun _ => True := neat_word (by decide) (he rest hmeets hrest)
  rw [htext]
  exact neatText_of_below rfl
    (neat_condition hc (hx.wrapped_edge consequent.isOpenConditional hedge helse))

/-! ## Items -/

theorem neat_moreText (closer : Delimiter) {es : List Expr} (h : ∀ e ∈ es, e.Neat)
    {rest : List Char} {q : Kind → Prop} (hrest : NeatText .other rest q) :
    NeatText .other (moreText closer (renderAll es) ++ rest) fun _ => True := by
  induction es with
  | nil => exact (neat_delimiter .other closer hrest).mono fun _ _ => trivial
  | cons e es ih =>
    have hedge := edge_moreText closer (renderAll es) rest
    have hmore := ih fun e he => h e (List.mem_cons_of_mem _ he)
    have hitem := h e List.mem_cons_self _ (Tail.meets_edge _ hedge) (calm_of_edge hedge hmore)
    have hblank := hitem.of_eq (kindsFrom_separator (c := ' ') (by decide) .other _)
    rw [renderAll, moreText, List.cons_append, List.cons_append, List.append_assoc]
    exact (neat_delimiter .other .comma hblank).mono fun _ _ => trivial

theorem neat_items (closer : Delimiter) {es : List Expr} (h : ∀ e ∈ es, e.Neat)
    {rest : List Char} {q : Kind → Prop} (hrest : NeatText .other rest q) :
    NeatText .other ((", ".intercalate (renderAll es)).toList ++ closer.char :: rest)
      fun _ => True := by
  cases es with
  | nil =>
    simp only [renderAll, String.intercalate_nil]
    exact (neat_delimiter .other closer hrest).mono fun _ _ => trivial
  | cons e es =>
    have hedge := edge_moreText closer (renderAll es) rest
    have hmore := neat_moreText closer (fun e he => h e (List.mem_cons_of_mem _ he)) hrest
    rw [renderAll, toList_items]
    exact (h e List.mem_cons_self _ (Tail.meets_edge _ hedge) (calm_of_edge hedge hmore)).mono
      fun _ _ => trivial

theorem neat_list {items : List Expr} (h : ∀ e ∈ items, e.Neat) : (list items).Neat := by
  intro rest _ hrest
  have htext : (list items).render.toList ++ rest = Delimiter.bracketOpen.char ::
      ((", ".intercalate (renderAll items)).toList ++ Delimiter.bracketClose.char :: rest) := by
    simp [render, Delimiter.char]
  rw [htext]
  refine (neat_delimiter .other .bracketOpen
    (neat_items .bracketClose h (hrest.plain .other))).mono ?_
  rintro k rfl _
  rfl

theorem neat_call {callee : String} (hcallee : isName callee = true) {args : List Expr}
    (h : ∀ e ∈ args, e.Neat) : (call callee args).Neat := by
  intro rest _ hrest
  have htext : (call callee args).render.toList ++ rest = callee.toList ++
      Delimiter.parenOpen.char ::
        ((", ".intercalate (renderAll args)).toList ++ Delimiter.parenClose.char :: rest) := by
    simp [render, Delimiter.char]
  have hopen := neat_delimiter .other .parenOpen (neat_items .parenClose h (hrest.plain .other))
  rw [htext]
  exact hopen.of_plain (kindsFrom_name hcallee (by decide) (edge_cons (by decide) (by decide) _))
    (fun _ => rfl) fun _ => rfl

mutual

/-- The tokens of the text of an expression from a text are neat. -/
theorem neat : ∀ {e : Expr}, e.All Parsed → e.Neat
  | literal _, h => neat_literal h
  | name _, h => neat_name h.1
  | list _, h => neat_list (neat_each h.2)
  | call _ _, h => neat_call h.1.1 (neat_each h.2)
  | binary op lhs rhs, h => by
    by_cases hop : op = .keep
    · subst hop
      exact neat_keep h.1 h.2.2 (neat h.2.1) (neat h.2.2)
    · exact neat_binary hop (neat h.2.1) (neat h.2.2)
  | unary op operand, h => by
    cases hop : op.isPostfix with
    | false => exact neat_prefixOp hop (neat h.2)
    | true =>
      obtain ⟨hwraps, hword, hcount⟩ := h.1 hop
      exact neat_postfixOp hop hwraps hword hcount (neat h.2)
  | ifThen _ _, h => neat_ifThen (neat h.2.1) (neat h.2.2)
  | ifElse _ _ _, h => neat_ifElse (neat h.2.1) (neat h.2.2.1) (neat h.2.2.2)

theorem neat_each : ∀ {es : List Expr}, AllItems Parsed es → ∀ e ∈ es, e.Neat
  | [], _, _, he => nomatch he
  | _ :: _, h, _, .head _ => neat h.1
  | _ :: _, h, _, .tail _ he => neat_each h.2 _ he

end

end Expr

end DiceTome
