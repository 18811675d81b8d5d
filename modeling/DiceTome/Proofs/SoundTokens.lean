import DiceTome.Proofs.PrintedText

/-!
# The tokens that the scanner finds

Not every list of tokens comes from a text. Numbers are in the range of literals, names are names,
and a keep or a roll operator stands directly behind a roll or behind the natural count of a keep.
Expressions that are parsed from a text inherit all of this.

* `Token.PieceOf` lists the pieces that the scanner cuts off, with what it knows about them.
* `Token.Sound` is what holds of the tokens of a text, `Token.sound_kindsFrom`.
* `Expr.Parsed` is what holds of the parts of an expression that is read from such tokens,
  `Climb.parsed_of_parse`.
-/

namespace DiceTome

open Token

namespace Token

/-! ## Pieces -/

/-- What the scanner grants of a token by itself. -/
def Kind.Sound : Kind → Prop
  | .natural n => n ≤ maxNatural
  | .roll quantity die => quantity ≤ maxNatural ∧ die ≤ maxNatural
  | .decimal x => x.isFinite = true ∧ ∃ whole places, x = Decimal.ofDigits whole places
  | .identifier n => isName n = true
  | _ => True

/-- A token that is an operator only directly behind a roll. -/
def Kind.isSuffix : Kind → Bool
  | .operator (.binary .keep) => true
  | .operator (.unary op) => op.isPostfix
  | _ => false

/-- No roll operator stands at the start of the text. -/
def NoSuffix (cs : List Char) : Prop :=
  ∀ c ∈ cs.head?, Operator.suffixes.lookup c = none

/-- The pieces that start with `c`, have `rest` behind them and leave a trail. -/
inductive PieceOf (trail : Trail) (c : Char) (rest : List Char) : Option Kind → Trail → Prop
  | skipped : PieceOf trail c rest none .other
  | keep (ht : trail = .roll) (hc : c = 'k') :
    PieceOf trail c rest (some (.operator (.binary .keep))) .keep
  | suffix (op : UnaryOp) (ht : trail = .roll) (hop : op.isPostfix = true)
    (hc : Operator.suffixes.lookup c = some (.unary op)) (hrest : NoSuffix rest) :
    PieceOf trail c rest (some (.operator (.unary op))) .roll
  | roll (quantity die : Nat) (hsound : (Kind.roll quantity die).Sound) :
    PieceOf trail c rest (some (.roll quantity die)) .roll
  | natural (n : Nat) (hsound : (Kind.natural n).Sound) (hrest : rest.head? ≠ some 'd') :
    PieceOf trail c rest (some (.natural n)) (if trail = .keep then .roll else .other)
  | plain (kind : Kind) (hsound : kind.Sound) (hsuffix : kind.isSuffix = false)
    (hroll : ∀ quantity die, kind ≠ .roll quantity die) (hnatural : ∀ n, kind ≠ .natural n) :
    PieceOf trail c rest (some kind) .other

theorem suffix_cases {trail : Trail} {c : Char} {cs : List Char} {op : Operator}
    (h : suffix? trail c cs = some op) :
    trail = .roll ∧ Operator.suffixes.lookup c = some op ∧ NoSuffix cs := by
  unfold suffix? at h
  split at h
  · cases h
  rename_i htrail
  refine ⟨Decidable.not_not.mp htrail, ?_⟩
  split at h
  · cases h
  · rename_i hlookup hhead
    cases h
    refine ⟨hlookup, fun e he => ?_⟩
    rw [hhead] at he
    cases he
  · rename_i follow hlookup hhead
    have hfollow : Text.isDigit follow = true ∨ Text.isWordChar follow = false := by
      split at h
      · exact .inl ‹_›
      · split at h
        · cases h
        · exact .inr (by simpa using ‹¬ Text.isWordChar follow = true›)
    have hop : Operator.suffixes.lookup c = some op := by
      split at h
      · split at h
        · cases h
        · cases h
          exact hlookup
      · split at h
        · cases h
        · cases h
          exact hlookup
    refine ⟨hop, fun e he => ?_⟩
    rw [hhead] at he
    cases he
    have hne : follow ≠ 'a' ∧ follow ≠ 'd' ∧ follow ≠ 'k' ∧ follow ≠ 's' := by
      refine ⟨?_, ?_, ?_, ?_⟩ <;>
      · rintro rfl
        exact absurd hfollow (by decide)
    simp [Operator.suffixes, List.lookup_cons, beq_eq_false_iff_ne.mpr, hne]

theorem bind_eq_ok {x : Except ε α} {f : α → Except ε β} {b : β} (h : (x >>= f) = .ok b) :
    ∃ a, x = .ok a ∧ f a = .ok b := by
  cases x with
  | error e => cases h
  | ok a => exact ⟨a, rfl, h⟩

theorem le_of_readNatural {cur : Cursor} {cs digits : List Char} {n : Nat}
    (h : readNatural cur cs digits = .ok n) : n ≤ maxNatural := by
  unfold readNatural at h
  simp only at h
  split at h
  · cases h
  split at h
  · cases h
  split at h
  · cases h
  · cases h
    exact Nat.not_lt.mp ‹_›

theorem le_of_readFaces {cur : Cursor} {cs behind : List Char} {p : Nat × List Char}
    (h : readFaces cur cs behind = .ok p) : p.1 ≤ maxNatural := by
  unfold readFaces at h
  simp only at h
  split at h
  · cases h
  · cases hread : readNatural cur cs (behind.takeWhile Text.isDigit) with
    | error e => rw [hread] at h; cases h
    | ok n =>
      rw [hread] at h
      cases h
      exact le_of_readNatural hread

theorem sound_of_readDecimal {cur : Cursor} {cs whole fraction : List Char} {x : Float}
    (h : readDecimal cur cs whole fraction = .ok x) : (Kind.decimal x).Sound := by
  unfold readDecimal at h
  split at h
  · cases h
  · simp only at h
    split at h
    · cases h
      exact ⟨‹_›, _, _, rfl⟩
    · cases h

theorem drop_takeWhile (p : Char → Bool) (cs : List Char) :
    cs.drop (cs.takeWhile p).length = cs.dropWhile p := by
  have hsplit := congrArg (List.drop (cs.takeWhile p).length)
    (List.takeWhile_append_dropWhile (p := p) (l := cs))
  rw [List.drop_left] at hsplit
  exact hsplit.symm

/-- The number that starts with a digit or a point. -/
theorem pieceOf_scanNumber {trail : Trail} {c : Char} {cs : List Char} {piece : Piece}
    (hc : (Text.isDigit c || c == '.') = true)
    (h : scanNumber .start trail (c :: cs) = .ok piece) :
    PieceOf trail c (cs.drop piece.extra) piece.kind piece.trail := by
  unfold scanNumber at h
  simp only at h
  split at h
  · obtain ⟨quantity, hquantity, h⟩ := bind_eq_ok h
    obtain ⟨⟨die, faces⟩, hfaces, h⟩ := bind_eq_ok h
    cases h
    exact .roll quantity die ⟨le_of_readNatural hquantity, le_of_readFaces hfaces⟩
  · split at h
    · cases h
    · obtain ⟨x, hx, h⟩ := bind_eq_ok h
      cases h
      refine .plain _ (sound_of_readDecimal hx) rfl nofun nofun
  · rename_i hd hpoint
    obtain ⟨n, hn, h⟩ := bind_eq_ok h
    cases h
    have hdigit : Text.isDigit c = true := by
      cases hdigit : Text.isDigit c with
      | true => rfl
      | false =>
        have : c = '.' := by simpa [hdigit] using hc
        subst this
        exact absurd (List.dropWhile_cons_of_neg (by decide)) (hpoint cs)
    refine .natural n (le_of_readNatural hn) fun hhead => ?_
    rw [List.takeWhile_cons_of_pos hdigit, List.length_cons, Nat.add_sub_cancel,
      drop_takeWhile] at hhead
    obtain ⟨behind, hbehind⟩ := List.head?_eq_some_iff.mp hhead
    rw [List.dropWhile_cons_of_pos hdigit] at hd
    exact hd behind hbehind

/-- The name, or the roll of one die, that starts with a letter. -/
theorem pieceOf_scanName {trail : Trail} {c : Char} {cs : List Char} {piece : Piece}
    (hstart : Text.isWordStart c = true) (hdigit : Text.isDigit c = false)
    (h : scanName .start c cs = .ok piece) :
    PieceOf trail c (cs.drop piece.extra) piece.kind piece.trail := by
  unfold scanName at h
  split at h
  · obtain ⟨⟨die, faces⟩, hfaces, h⟩ := bind_eq_ok h
    cases h
    exact .roll 1 die ⟨by decide, le_of_readFaces hfaces⟩
  · rename_i hroll
    cases h
    refine .plain _ (isName_iff.mpr ⟨c, _, String.toList_ofList, hstart, hdigit, by simp, ?_⟩) rfl
      nofun nofun
    cases cs with
    | nil => simp
    | cons e cs =>
      cases he : Text.isWordChar e with
      | false => simp [he]
      | true => simpa [he] using hroll

theorem isSuffix_of_literals : ∀ p ∈ Operator.literals, (Kind.operator p.2).isSuffix = false := by
  decide

theorem lookup_suffixes {c : Char} {op : Operator} (h : Operator.suffixes.lookup c = some op) :
    (op = .binary .keep ∧ c = 'k') ∨ ∃ u : UnaryOp, op = .unary u ∧ u.isPostfix = true := by
  obtain ⟨pre, post, hsplit, -⟩ := List.lookup_eq_some_iff.mp h
  have hmem : (c, op) ∈ Operator.suffixes := by simp [hsplit]
  simp only [Operator.suffixes, List.mem_cons, Prod.mk.injEq, List.not_mem_nil, or_false] at hmem
  rcases hmem with ⟨-, rfl⟩ | ⟨-, rfl⟩ | ⟨rfl, rfl⟩ | ⟨-, rfl⟩
  · exact .inr ⟨_, rfl, rfl⟩
  · exact .inr ⟨_, rfl, rfl⟩
  · exact .inl ⟨rfl, rfl⟩
  · exact .inr ⟨_, rfl, rfl⟩

theorem lookup_disadvantage {c : Char} {cs : List Char}
    (h : Operator.suffixes.lookup c = some (.unary .disadvantage)) :
    (c :: cs).head? = some 'd' := by
  obtain ⟨pre, post, hsplit, -⟩ := List.lookup_eq_some_iff.mp h
  have hmem : (c, Operator.unary .disadvantage) ∈ Operator.suffixes := by simp [hsplit]
  simpa [Operator.suffixes] using hmem

/-- Every piece that the scanner cuts off. -/
theorem pieceOf_scanPiece {trail : Trail} {c : Char} {cs : List Char} {piece : Piece}
    (h : scanPiece .start trail c cs = .ok piece) :
    PieceOf trail c (cs.drop piece.extra) piece.kind piece.trail := by
  unfold scanPiece at h
  split at h
  · cases h
    exact .skipped
  split at h
  · cases h
    exact .skipped
  split at h
  · rename_i op hsuffix
    cases h
    obtain ⟨htrail, hlookup, hrest⟩ := suffix_cases hsuffix
    rcases lookup_suffixes hlookup with ⟨rfl, hc⟩ | ⟨op, rfl, hop⟩
    · exact .keep htrail hc
    · exact .suffix op htrail hop hlookup hrest
  split at h
  · exact pieceOf_scanNumber ‹_› h
  split at h
  · rename_i hnumber hstart
    have hdigit : Text.isDigit c = false := by
      simp only [Bool.or_eq_true, not_or, Bool.not_eq_true] at hnumber
      exact hnumber.1
    exact pieceOf_scanName hstart hdigit h
  split at h
  · unfold scanString at h
    split at h
    · cases h
      exact .plain _ trivial rfl nofun nofun
    · cases h
    · cases h
  · split at h
    · cases h
      exact .plain _ trivial rfl nofun nofun
    · rename_i op extra hliteral
      cases h
      obtain ⟨p, hp, hpair⟩ := Option.map_eq_some_iff.mp hliteral
      cases hpair
      exact .plain _ trivial (isSuffix_of_literals p (List.mem_of_find?_eq_some hp)) nofun nofun
    · cases h

/-! ## Tokens of a text -/

/-- The token right before, as far as it matters: a roll, a keep, the natural count of a keep, or
the sign of a power. -/
inductive Trace where
  | other
  | roll
  | keep
  | count
  | power
  deriving Repr, DecidableEq

namespace Trace

def next : Trace → Kind → Trace
  | _, .roll _ _ => roll
  | _, .operator (.binary .keep) => keep
  | _, .operator (.binary .pow) => power
  | keep, .natural _ => count
  | _, _ => other

/-- A roll operator stands behind a roll or a count; behind a count it is not the letter `d`, which
would make a roll of the count. -/
def allows : Trace → Kind → Bool
  | t, .operator (.unary .disadvantage) => t = roll
  | t, kind => !kind.isSuffix || t = roll || t = count

/-- An operand of a power or a keep that the printer would not put in parentheses, as far as its
first token tells. -/
def tidy : Trace → Kind → Bool
  | keep, .roll 1 _ => false
  | keep, kind | power, kind => (Climb.prefixOp? kind).isNone
  | _, _ => true

end Trace

theorem allows_of_isSuffix {kind : Kind} (h : kind.isSuffix = false) (t : Trace) :
    t.allows kind = true := by
  unfold Trace.allows
  split
  · cases h
  · simp [h]

/-- What holds of the tokens of a text behind a given token, and of a neat text in particular: the
operands of powers and keeps are in parentheses where the printer writes them. -/
def Sound (neat : Bool) : Trace → List Kind → Prop
  | _, [] => True
  | t, kind :: kinds => kind.Sound ∧ t.allows kind = true ∧ (neat = true → t.tidy kind = true) ∧
      Sound neat (t.next kind) kinds

/-- A trail of the scanner that agrees with the token right before. -/
def Trail.Agrees (cs : List Char) : Trail → Trace → Prop
  | .other, _ => True
  | .keep, t => t = .keep
  | .roll, t => t = .roll ∨ (t = .count ∧ cs.head? ≠ some 'd') ∨ NoSuffix cs

/-- A token that the scanner cuts off fits behind the token before it, and the scanner still agrees
with what stands before the rest. -/
theorem PieceOf.sound {trail trail' : Trail} {c : Char} {rest cs : List Char} {kind : Kind}
    {t : Trace} (h : PieceOf trail c rest (some kind) trail') (ht : trail.Agrees (c :: cs) t) :
    kind.Sound ∧ t.allows kind = true ∧ trail'.Agrees rest (t.next kind) := by
  cases h with
  | keep htrail hc =>
    subst htrail hc
    refine ⟨trivial, ?_, by cases t <;> rfl⟩
    rcases ht with rfl | ⟨rfl, -⟩ | hnone
    · rfl
    · rfl
    · exact absurd (hnone 'k' rfl) (by decide)
  | suffix op htrail hop hlookup hnone =>
    subst htrail
    refine ⟨trivial, ?_, .inr (.inr hnone)⟩
    rcases ht with rfl | ⟨rfl, hd⟩ | hnone
    · cases op <;> rfl
    · cases op <;> first | rfl | exact absurd (lookup_disadvantage hlookup) hd
    · rw [hnone c rfl] at hlookup
      cases hlookup
  | roll quantity die hsound =>
    exact ⟨hsound, by cases t <;> rfl, .inl (by cases t <;> rfl)⟩
  | natural n hsound hhead =>
    refine ⟨hsound, by cases t <;> rfl, ?_⟩
    by_cases hkeep : trail = .keep
    · subst hkeep
      cases ht
      exact .inr (.inl ⟨rfl, hhead⟩)
    · rw [if_neg hkeep]
      trivial
  | plain kind hsound hsuffix => exact ⟨hsound, allows_of_isSuffix hsuffix t, trivial⟩

theorem sound_kindsFrom {trail : Trail} {cs : List Char} {kinds : List Kind} {t : Trace}
    (h : kindsFrom trail cs = some kinds) (ht : trail.Agrees cs t) : Sound false t kinds := by
  induction hn : cs.length using Nat.strongRecOn generalizing trail cs kinds t with
  | ind n ih =>
    subst hn
    rcases cs with _ | ⟨c, cs⟩
    · rw [kindsFrom_nil] at h
      cases h
      trivial
    cases hpiece : scanPiece .start trail c cs with
    | error e =>
      rw [kindsFrom.eq_def] at h
      simp [hpiece] at h
    | ok piece =>
      rw [kindsFrom_cons hpiece] at h
      obtain ⟨more, hmore, rfl⟩ := Option.map_eq_some_iff.mp h
      have hlt : (cs.drop piece.extra).length < (c :: cs).length := by
        simp only [List.length_drop, List.length_cons]
        omega
      have hof := pieceOf_scanPiece hpiece
      cases hkind : piece.kind with
      | none =>
        rw [hkind] at hof
        generalize piece.trail = trail' at hof hmore
        cases hof
        exact ih _ hlt hmore trivial rfl
      | some kind =>
        rw [hkind] at hof
        obtain ⟨hsound, hallows, hagrees⟩ := hof.sound ht
        exact ⟨hsound, hallows, nofun, ih _ hlt hmore hagrees rfl⟩

end Token

/-! ## Expressions that are read from a text -/

/-- What holds of a part of an expression that is read from the tokens of a text. The left operand
of a keep and the operand of a roll operator ended in a roll or a count there, so that their own
text ends in one as well, or in the parentheses that the printer puts around it. -/
def Expr.Parsed : Expr → Prop
  | literal l => l.token.Sound
  | name n | call n _ => isName n = true ∧ Climb.isKeyword n = false
  | binary .keep lhs _ => wrapsLeft .keep lhs = false ∧ lhs.isPostfix = false ∧ lhs.tail ≠ .word
  | unary op operand => op.isPostfix = true → wrapsOperand op operand = false ∧
      operand.tail ≠ .word ∧ (op = .disadvantage → operand.tail ≠ .count)
  | _ => True

/-- A part of an expression that has no keep and no roll operator behind the parentheses that the
printer puts around an operand. -/
def Expr.Bare : Expr → Prop
  | binary .keep lhs _ => lhs.tail ≠ .closed
  | unary op operand => op.isPostfix = true → operand.tail ≠ .closed
  | _ => True

/-- A part of an expression that is read from the tokens of a text, which may be neat. -/
def Expr.Taken (neat : Bool) (e : Expr) : Prop :=
  e.Parsed ∧ (neat = true → e.Bare)

namespace Climb

open DiceTome.Expr

/-- What the first token of an operand that ends in a roll or a count tells about it, if it was read
behind the token `t` of a neat text by level `m`. -/
def Joins (t : Trace) (m : Nat) : Expr → Prop
  | .literal (.roll quantity _) => t = .keep → quantity ≠ 1
  | .name _ | .list _ | .call _ _ => False
  | .binary op _ _ => m ≤ op.precedence
  | .unary op _ => op.isPostfix = false → t ≠ .power ∧ t ≠ .keep
  | _ => True

/-- How an expression that was read behind the token `t` by level `m` ends, where the last of its
tokens is `t'`. A natural that is the count of a keep is not yet part of the keep. In a neat text,
the printer encloses nothing but a conditional at the end. -/
structure Leaves (neat : Bool) (t : Trace) (m : Nat) (e : Expr) (t' : Trace) (rest : List Kind) :
    Prop where
  ended : t' ≠ .keep
  roll : t' = .roll → e.tail = .roll ∨ e.tail = .closed
  count : t' = .count →
    e.tail = .count ∨ e.tail = .closed ∨ (t = .keep ∧ ∃ n, e = .literal (.natural n))
  stops : t' = .roll ∨ t' = .count → Stops e.bound rest
  joins : neat = true → t' = .roll ∨ t' = .count → Joins t m e
  closed : neat = true → t' = .roll ∨ t' = .count → e.tail = .closed → Stops 0 rest

theorem leaves_other (neat : Bool) (t : Trace) (m : Nat) (e : Expr) (rest : List Kind) :
    Leaves neat t m e .other rest := by
  have hnot : ¬ (Trace.other = .roll ∨ Trace.other = .count) := by decide
  exact ⟨nofun, nofun, nofun, fun h => absurd h hnot, fun _ h => absurd h hnot, fun _ h => absurd h hnot⟩

/-- The expression is what parsing makes of sound tokens, and sound tokens are left. -/
def Reads (neat : Bool) (t : Trace) (m : Nat) (e : Expr) (rest : List Kind) : Prop :=
  e.All (Taken neat) ∧ ∃ t', Sound neat t' rest ∧ Leaves neat t m e t' rest

/-- Every level of fewer than `n` tokens reads what parsing makes of sound tokens. -/
def ReadsLevels (neat : Bool) (n : Nat) : Prop :=
  ∀ (ts : List Kind) (m : Nat) (t : Trace) (e : Expr) (rest : List Kind), ts.length < n →
    (t = .keep → 10 ≤ m) → Sound neat t ts → level m ts = some (e, rest) → Reads neat t m e rest

variable {neat : Bool}

theorem Leaves.tail_ne_word {t t' : Trace} {m : Nat} {e : Expr} {rest : List Kind}
    (h : Leaves neat t m e t' rest) (ht : t ≠ .keep) (hlast : t' = .roll ∨ t' = .count) :
    e.tail ≠ .word := by
  rcases hlast with hroll | hcount
  · rcases h.roll hroll with htail | htail <;> simp [htail]
  · rcases h.count hcount with htail | htail | ⟨hkeep, -⟩
    · simp [htail]
    · simp [htail]
    · exact absurd hkeep ht

theorem stops_ten (ts : List Kind) : Stops 10 ts := by
  unfold Stops
  split
  · exact precedence_lt _
  · exact fun _ => by simp [UnaryOp.precedence]
  · trivial

/-- An operator of lower rank than the bound does not put parentheses around the expression. -/
theorem below_of_bound {e : Expr} {n : Nat} (htail : e.tail ≠ .word) (h : n < e.bound) :
    e.strength.below n = false ∧ e.isPostfix = false := by
  cases e with
  | literal l =>
    cases l with
    | roll quantity die => exact ⟨by rw [strength_roll]; rfl, rfl⟩
    | _ => exact absurd rfl htail
  | name _ | list _ | call _ _ => exact ⟨rfl, rfl⟩
  | binary op _ _ =>
    have hle : op.rightRank ≤ op.precedence + 1 := by
      unfold BinaryOp.rightRank
      split <;> omega
    have hlt : n < op.rightRank := h
    exact ⟨decide_eq_false (by omega), rfl⟩
  | unary op operand =>
    cases hpost : op.isPostfix with
    | true => exact absurd (by simp [tail, hpost]) htail
    | false =>
      simp only [bound, hpost, Bool.false_eq_true, if_false] at h
      refine ⟨decide_eq_false ?_, hpost⟩
      simp only [UnaryOp.precedence]
      omega
  | ifThen _ _ | ifElse _ _ _ => exact absurd h (Nat.not_lt_zero _)

/-- The left operand of a keep. -/
theorem taken_keep {left right : Expr} {t t' : Trace} {m : Nat} {ts : List Kind} (ht : t ≠ .keep)
    (h : Leaves neat t m left t' (.operator (.binary .keep) :: ts))
    (hallows : t'.allows (.operator (.binary .keep)) = true) :
    (Expr.binary .keep left right).Taken neat := by
  have hsuffix : t' = .roll ∨ t' = .count := by
    cases t' <;> first | exact .inl rfl | exact .inr rfl | cases hallows
  have hword := h.tail_ne_word ht hsuffix
  obtain ⟨hbelow, hpost⟩ := below_of_bound hword (h.stops hsuffix)
  refine ⟨⟨by simp [wrapsLeft, barelyKept, hbelow], hpost, hword⟩, fun hneat hclosed => ?_⟩
  exact absurd (h.closed hneat hsuffix hclosed) (Nat.not_lt_zero _)

/-- The operand of a roll operator. -/
theorem taken_postfixOp {left : Expr} {t t' : Trace} {m : Nat} {op : UnaryOp} {ts : List Kind}
    (hop : op.isPostfix = true) (ht : t ≠ .keep)
    (h : Leaves neat t m left t' (.operator (.unary op) :: ts))
    (hallows : t'.allows (.operator (.unary op)) = true) : (Expr.unary op left).Taken neat := by
  have hsuffix : t' = .roll ∨ (t' = .count ∧ op ≠ .disadvantage) := by
    revert hallows hop
    cases t' <;> cases op <;> decide
  have hlast : t' = .roll ∨ t' = .count := hsuffix.imp_right And.left
  have hword := h.tail_ne_word ht hlast
  have hcount : op = .disadvantage → left.tail ≠ .count := by
    intro hd
    rcases hsuffix with hroll | ⟨-, hne⟩
    · rcases h.roll hroll with htail | htail <;> simp [htail]
    · exact absurd hd hne
  have hbound : op.precedence < left.bound := h.stops hlast hop
  obtain ⟨hbelow, -⟩ := below_of_bound hword hbound
  refine ⟨fun _ => ⟨by simp [wrapsOperand, hbelow, hop], hword, hcount⟩, fun hneat _ hclosed => ?_⟩
  exact absurd (h.closed hneat hlast hclosed hop) (Nat.not_lt_zero _)

theorem tail_of_right {op : BinaryOp} {left right : Expr} (h : right.tail ≠ .word) :
    (Expr.binary op left right).tail = if wrapsRight op right then .closed else right.tail := by
  refine tail_binary ?_ left
  rintro - n rfl
  exact h rfl

theorem isNone_of_tidy {t : Trace} {kind : Kind} (h : t.tidy kind = true)
    (ht : t = .power ∨ t = .keep) : Climb.prefixOp? kind = none := by
  unfold Trace.tidy at h
  split at h
  · cases h
  · simpa using h
  · simpa using h
  · rcases ht with rfl | rfl
    · exact absurd rfl (by assumption)
    · exact absurd rfl (by assumption)

theorem wrapsRight_of_ne_keep {op : BinaryOp} (hop : op ≠ .keep) (rhs : Expr) :
    wrapsRight op rhs = (rhs.strength.below op.precedence ||
      (rhs.strength.equals op.precedence && op.leftAssociative)) := by
  cases op <;> first | rfl | exact absurd rfl hop

theorem startsWithDigit_roll {quantity : Nat} (h : quantity ≠ 1) (die : Nat) :
    (Expr.literal (.roll quantity die)).startsWithDigit = true := by
  obtain ⟨c, cs, hdigits, hc, -⟩ := toDigits_eq_cons quantity
  simp [startsWithDigit, toList_roll, quantityDigits, h, hdigits, isDigit_of_ascii hc]

/-- The operands of a neat text that end in a roll or a count and are no conditionals, if level `m`
read them behind the token `t`. -/
inductive Joined (t : Trace) (m : Nat) : Expr → Prop
  | roll {quantity : Nat} (die : Nat) (h : t = .keep → quantity ≠ 1) :
    Joined t m (.literal (.roll quantity die))
  | binary {op : BinaryOp} (left right : Expr) (h : m ≤ op.precedence) :
    Joined t m (.binary op left right)
  | prefixOp {op : UnaryOp} (operand : Expr) (hop : op.isPostfix = false) (hpower : t ≠ .power)
    (hkeep : t ≠ .keep) : Joined t m (.unary op operand)

theorem Leaves.stops_or_joined {t t' : Trace} {m : Nat} {e : Expr} {rest : List Kind}
    (h : Leaves neat t m e t' rest) (hneat : neat = true) (hlast : t' = .roll ∨ t' = .count)
    (hword : e.tail ≠ .word) : Stops 0 rest ∨ Joined t m e := by
  have hjoins := h.joins hneat hlast
  cases e with
  | literal l =>
    cases l with
    | roll quantity die => exact .inr (.roll die hjoins)
    | _ => exact absurd rfl hword
  | name _ | list _ | call _ _ => cases hjoins
  | binary op left right => exact .inr (.binary left right hjoins)
  | unary op operand =>
    cases hpost : op.isPostfix with
    | true => exact absurd (by simp [tail, hpost]) hword
    | false => exact .inr (.prefixOp operand hpost (hjoins hpost).1 (hjoins hpost).2)
  | ifThen _ _ | ifElse _ _ _ => exact .inl (h.stops hlast)

theorem wrapsRight_of_joined {op : BinaryOp} {right : Expr} {t : Trace}
    (h : Joined (t.next (.operator (.binary op))) op.rightRank right) :
    wrapsRight op right = false := by
  cases h with
  | @roll quantity die h =>
    by_cases hop : op = .keep
    · subst hop
      have hne : quantity ≠ 1 := h (by cases t <;> rfl)
      simp [wrapsRight, startsWithDigit_roll hne die]
    · rw [wrapsRight_of_ne_keep hop, strength_roll]
      simp [Strength.below, Strength.equals]
  | @binary op' _ _ hle =>
    have hlt := precedence_lt op'
    have hop : op ≠ .keep := by
      rintro rfl
      have hten : BinaryOp.keep.rightRank = 10 := rfl
      omega
    simp only [wrapsRight_of_ne_keep hop, strength, Strength.below, Strength.equals,
      Bool.or_eq_false_iff, Bool.and_eq_false_iff, decide_eq_false_iff_not, Strength.rank.injEq]
    unfold BinaryOp.rightRank at hle
    split at hle
    · omega
    · rename_i hright
      exact ⟨by omega, .inr (Bool.not_eq_true _ ▸ hright)⟩
  | prefixOp operand hprefix hpower hkeep =>
    cases op with
    | keep => exact absurd (by cases t <;> rfl) hkeep
    | pow => exact absurd (by cases t <;> rfl) hpower
    | _ => rfl

theorem wrapsOperand_of_joined {op : UnaryOp} {operand : Expr} {t : Trace}
    (h : Joined t 8 operand) : wrapsOperand op operand = false := by
  have hseven : op.precedence = 7 := rfl
  cases h with
  | roll => simp [wrapsOperand, strength_roll, Strength.below, Strength.equals]
  | binary _ _ hle =>
    simp only [wrapsOperand, strength, Strength.below, isPostfix, Bool.and_false, Bool.or_false,
      decide_eq_false_iff_not]
    omega
  | prefixOp operand hprefix =>
    simp [wrapsOperand, strength, Strength.below, isPostfix, hprefix, UnaryOp.precedence]

/-- A right operand that the printer encloses is a conditional. -/
theorem stops_of_wrapsRight {op : BinaryOp} {right : Expr} {t t' : Trace} {rest : List Kind}
    (h : Leaves neat (t.next (.operator (.binary op))) op.rightRank right t' rest)
    (hneat : neat = true) (hlast : t' = .roll ∨ t' = .count) (hword : right.tail ≠ .word)
    (hwraps : wrapsRight op right = true) : Stops 0 rest := by
  rcases h.stops_or_joined hneat hlast hword with hstops | hjoined
  · exact hstops
  · simp [wrapsRight_of_joined hjoined] at hwraps

/-- An operand behind a sign that the printer encloses is a conditional. -/
theorem stops_of_wrapsOperand {op : UnaryOp} {operand : Expr}
    {t t' : Trace} {rest : List Kind} (h : Leaves neat t 8 operand t' rest)
    (hneat : neat = true) (hlast : t' = .roll ∨ t' = .count) (hword : operand.tail ≠ .word)
    (hwraps : wrapsOperand op operand = true) : Stops 0 rest := by
  rcases h.stops_or_joined hneat hlast hword with hstops | hjoined
  · exact hstops
  · simp [wrapsOperand_of_joined hjoined] at hwraps

/-- What an operator and its right operand leave behind. -/
theorem leaves_binary {op : BinaryOp} {left right : Expr} {t t₁ t₂ : Trace} {m : Nat}
    {rest : List Kind} (hm : m ≤ op.precedence)
    (h : Leaves neat (t₁.next (.operator (.binary op))) op.rightRank right t₂ rest)
    (hstops : Stops op.rightRank rest) : Leaves neat t m (.binary op left right) t₂ rest := by
  refine ⟨h.ended, fun hroll => ?_, fun hcount => ?_, fun _ => hstops, fun _ _ => hm,
    fun hneat hlast hclosed => ?_⟩
  · have htail := h.roll hroll
    have hword : right.tail ≠ .word := by
      rcases htail with htail | htail <;> simp [htail]
    rw [tail_of_right hword]
    split
    · exact .inr rfl
    · exact htail
  · rcases h.count hcount with htail | htail | ⟨hkeep, n, rfl⟩
    · rw [tail_of_right (by simp [htail]), htail]
      split
      · exact .inr (.inl rfl)
      · exact .inl rfl
    · rw [tail_of_right (by simp [htail]), htail]
      exact .inr (.inl (ite_self _))
    · have hop : op = .keep := by
        cases op <;> first | rfl | (cases t₁ <;> cases hkeep)
      subst hop
      exact .inl rfl
  · by_cases hword : right.tail = .word
    · rcases hlast with hroll | hcount
      · rcases h.roll hroll with htail | htail <;> simp [htail] at hword
      · rcases h.count hcount with htail | htail | ⟨hkeep, n, rfl⟩
        · simp [htail] at hword
        · simp [htail] at hword
        · have hop : op = .keep := by
            cases op <;> first | rfl | (cases t₁ <;> cases hkeep)
          subst hop
          cases hclosed
    · rw [tail_of_right hword] at hclosed
      split at hclosed
      · exact stops_of_wrapsRight h hneat hlast hword ‹_›
      · exact h.closed hneat hlast hclosed

theorem leaves_prefixOp {op : UnaryOp} (hop : op.isPostfix = false) {operand : Expr}
    {t t' : Trace} {m : Nat} {rest : List Kind}
    (ht : neat = true → t ≠ .power ∧ t ≠ .keep) (h : Leaves neat .other 8 operand t' rest)
    (hstops : Stops 8 rest) : Leaves neat t m (.unary op operand) t' rest := by
  have htail : (Expr.unary op operand).tail =
      if wrapsOperand op operand then .closed else operand.tail := by
    simp [tail, hop]
  refine ⟨h.ended, fun hroll => ?_, fun hcount => ?_, fun _ => by simpa [bound, hop] using hstops,
    fun hneat _ _ => ht hneat, fun hneat hlast hclosed => ?_⟩
  · rw [htail]
    split
    · exact .inr rfl
    · exact h.roll hroll
  · rw [htail]
    split
    · exact .inr (.inl rfl)
    · rcases h.count hcount with hcount | hclosed | ⟨hkeep, -⟩
      · exact .inl hcount
      · exact .inr (.inl hclosed)
      · cases hkeep
  · rw [htail] at hclosed
    split at hclosed
    · rename_i hwraps
      exact stops_of_wrapsOperand h hneat hlast (h.tail_ne_word (by decide) hlast) hwraps
    · exact h.closed hneat hlast hclosed

/-- Joining an operand with what follows reads what parsing makes of sound tokens. -/
theorem reads_climb {n : Nat} (hlevel : ReadsLevels neat n) {ts : List Kind} {m : Nat} {t t₁ : Trace}
    {left e : Expr} {rest : List Kind} (hts : ts.length ≤ n) (hm : t = .keep → 10 ≤ m)
    (hleft : left.All (Taken neat)) (hsound : Sound neat t₁ ts) (hleaves : Leaves neat t m left t₁ ts)
    (h : ClimbReads m left ts e rest) : Reads neat t m e rest := by
  have hkeep : m < 10 → t ≠ .keep := fun hlt heq => absurd (hm heq) (Nat.not_le.mpr hlt)
  induction h generalizing t₁ with
  | stops => exact ⟨hleft, t₁, hsound, hleaves⟩
  | @binary op left right e ts behindRight rest hop hright h ih =>
    obtain ⟨-, hallows, -, hmore⟩ := hsound
    have hten : t₁.next (.operator (.binary op)) = .keep → 10 ≤ op.rightRank := by
      intro heq
      have : op = .keep := by cases op <;> first | rfl | (cases t₁ <;> cases heq)
      subst this
      decide
    obtain ⟨hparsed, t₂, hsound₂, hleaves₂⟩ := hlevel ts _ _ _ _ hts hten hmore hright
    have hlt := length_level hright
    have hnode : (Expr.binary op left right).Taken neat := by
      by_cases hkept : op = .keep
      · subst hkept
        exact taken_keep (hkeep (Nat.lt_of_le_of_lt hop (precedence_lt _))) hleaves hallows
      · exact ⟨by cases op <;> trivial, fun _ => by cases op <;> trivial⟩
    have hall : (Expr.binary op left right).All (Taken neat) := ⟨hnode, hleft, hparsed⟩
    exact ih (Nat.le_trans (Nat.le_of_lt hlt) (Nat.le_of_lt hts)) hall hsound₂
      (leaves_binary hop hleaves₂ (stops_level hright))
  | @postfixOp op left e ts rest hpost hop h ih =>
    obtain ⟨-, hallows, -, hmore⟩ := hsound
    have hother : t₁.next (.operator (.unary op)) = .other := by
      cases t₁ <;> rfl
    rw [hother] at hmore
    have hten : op.precedence < 10 := by cases op <;> decide
    have hall : (Expr.unary op left).All (Taken neat) :=
      ⟨taken_postfixOp hpost (hkeep (Nat.lt_of_le_of_lt hop hten)) hleaves hallows, hleft⟩
    exact ih (Nat.le_of_lt hts) hall hmore (leaves_other _ _ _ _ _)

/-- Behind a delimiter or a word it does not matter what stood before. -/
theorem sound_tail {t : Trace} {kind : Kind} {ts : List Kind} (h : Sound neat t (kind :: ts))
    (hkind : ∀ t : Trace, t.next kind = .other) : Sound neat .other ts :=
  hkind t ▸ h.2.2.2

theorem sound_behind_delimiter {t : Trace} {d : Delimiter} {ts : List Kind}
    (h : Sound neat t (.delimiter d :: ts)) : Sound neat .other ts :=
  sound_tail h fun t => by cases t <;> rfl

theorem sound_behind_identifier {t : Trace} {n : String} {ts : List Kind}
    (h : Sound neat t (.identifier n :: ts)) : Sound neat .other ts :=
  sound_tail h fun t => by cases t <;> rfl

theorem reads_series {n : Nat} (hlevel : ReadsLevels neat n) {closer : Delimiter} {ts : List Kind}
    {es : List Expr} {rest : List Kind} (hts : ts.length < n) (hsound : Sound neat .other ts)
    (h : SeriesReads closer ts es rest) : AllItems (Taken neat) es ∧ Sound neat .other rest := by
  induction h with
  | last he =>
    obtain ⟨hparsed, t', hsound', -⟩ := hlevel _ 0 .other _ _ hts nofun hsound he
    exact ⟨⟨hparsed, trivial⟩, sound_behind_delimiter hsound'⟩
  | more he _ ih =>
    obtain ⟨hparsed, t', hsound', -⟩ := hlevel _ 0 .other _ _ hts nofun hsound he
    have hlt := Nat.lt_of_succ_lt (length_level he)
    obtain ⟨hmore, hrest⟩ := ih (Nat.lt_trans hlt hts) (sound_behind_delimiter hsound')
    exact ⟨⟨hparsed, hmore⟩, hrest⟩

theorem reads_items {n : Nat} (hlevel : ReadsLevels neat n) {closer : Delimiter} {ts : List Kind}
    {es : List Expr} {rest : List Kind} (hts : ts.length < n) (hsound : Sound neat .other ts)
    (h : ItemsReads closer ts es rest) : AllItems (Taken neat) es ∧ Sound neat .other rest := by
  cases h with
  | none => exact ⟨trivial, sound_behind_delimiter hsound⟩
  | some h => exact reads_series hlevel hts hsound h

/-- A conditional ends like its last branch. -/
theorem leaves_branch {branch e : Expr} {t t' : Trace} {m : Nat} {rest : List Kind}
    (h : Leaves neat .other 0 branch t' rest) (htail : e.tail = branch.tail) (hbound : e.bound = 0)
    (hjoins : Joins t m e) (hstops : Stops 0 rest) : Leaves neat t m e t' rest := by
  refine ⟨h.ended, fun hroll => htail ▸ h.roll hroll, fun hcount => ?_, fun _ => hbound ▸ hstops,
    fun _ _ => hjoins, fun _ _ _ => hstops⟩
  rcases h.count hcount with hcount | hclosed | ⟨hkeep, -⟩
  · exact .inl (htail.trans hcount)
  · exact .inr (.inl (htail.trans hclosed))
  · cases hkeep

theorem reads_literal {l : Literal} {t : Trace} (m : Nat) {ts : List Kind}
    (h : Sound neat t (l.token :: ts)) : Reads neat t m (.literal l) ts := by
  have hstops : Stops 11 ts := (stops_ten ts).mono (by decide)
  refine ⟨⟨h.1, fun _ => trivial⟩, t.next l.token, h.2.2.2, ?_, fun hroll => ?_, fun hcount => ?_,
    fun _ => hstops, fun hneat _ => ?_, fun _ _ hclosed => ?_⟩
  · cases t <;> cases l <;> nofun
  · cases l with
    | roll quantity die => exact .inl rfl
    | _ => cases t <;> cases hroll
  · cases l with
    | natural n =>
      cases t with
      | keep => exact .inr (.inr ⟨rfl, n, rfl⟩)
      | _ => cases hcount
    | _ => cases t <;> cases hcount
  · cases l with
    | roll quantity die =>
      rintro rfl rfl
      exact absurd (h.2.2.1 hneat) Bool.false_ne_true
    | _ => trivial
  · cases l <;> cases hclosed

theorem reads_primary {n : Nat} (hlevel : ReadsLevels neat n) {t : Trace} {m : Nat} {token : Kind}
    {ts : List Kind} {e : Expr} {rest : List Kind} (hts : ts.length < n)
    (hsound : Sound neat t (token :: ts)) (h : PrimaryReads token ts e rest) :
    Reads neat t m e rest := by
  cases h with
  | natural n => exact reads_literal (l := .natural n) m hsound
  | decimal x => exact reads_literal (l := .decimal x) m hsound
  | roll quantity die => exact reads_literal (l := .roll quantity die) m hsound
  | string text => exact reads_literal (l := .string text) m hsound
  | yes => exact reads_literal (l := .bool true) m hsound
  | no => exact reads_literal (l := .bool false) m hsound
  | name hn =>
    exact ⟨⟨⟨hsound.1, hn⟩, fun _ => trivial⟩, .other, sound_behind_identifier hsound,
      leaves_other _ _ _ _ _⟩
  | call hn hargs =>
    obtain ⟨hparsed, hrest⟩ := reads_items hlevel (Nat.lt_of_succ_lt hts)
      (sound_behind_delimiter (sound_behind_identifier hsound)) hargs
    exact ⟨⟨⟨⟨hsound.1, hn⟩, fun _ => trivial⟩, hparsed⟩, .other, hrest, leaves_other _ _ _ _ _⟩
  | list hitems =>
    obtain ⟨hparsed, hrest⟩ := reads_items hlevel hts (sound_behind_delimiter hsound) hitems
    exact ⟨⟨⟨trivial, fun _ => trivial⟩, hparsed⟩, .other, hrest, leaves_other _ _ _ _ _⟩
  | group he =>
    obtain ⟨hparsed, t', hrest, -⟩ :=
      hlevel ts 0 .other _ _ hts nofun (sound_behind_delimiter hsound) he
    exact ⟨hparsed, .other, sound_behind_delimiter hrest, leaves_other _ _ _ _ _⟩
  | ifThen hc hx =>
    have hlt := Nat.lt_trans (Nat.lt_of_succ_lt (length_level hc)) hts
    obtain ⟨hparsed₁, t₁, hsound₁, -⟩ :=
      hlevel ts 0 .other _ _ hts nofun (sound_behind_identifier hsound) hc
    obtain ⟨hparsed₂, t₂, hsound₂, hleaves₂⟩ :=
      hlevel _ 0 .other _ _ hlt nofun (sound_behind_identifier hsound₁) hx
    exact ⟨⟨⟨trivial, fun _ => trivial⟩, hparsed₁, hparsed₂⟩, t₂, hsound₂,
      leaves_branch hleaves₂ rfl rfl trivial (stops_level hx)⟩
  | ifElse hc hx hy =>
    have hlt := Nat.lt_trans (Nat.lt_of_succ_lt (length_level hc)) hts
    have hlt' := Nat.lt_trans (Nat.lt_of_succ_lt (length_level hx)) hlt
    obtain ⟨hparsed₁, t₁, hsound₁, -⟩ :=
      hlevel ts 0 .other _ _ hts nofun (sound_behind_identifier hsound) hc
    obtain ⟨hparsed₂, t₂, hsound₂, -⟩ :=
      hlevel _ 0 .other _ _ hlt nofun (sound_behind_identifier hsound₁) hx
    obtain ⟨hparsed₃, t₃, hsound₃, hleaves₃⟩ :=
      hlevel _ 0 .other _ _ hlt' nofun (sound_behind_identifier hsound₂) hy
    exact ⟨⟨⟨trivial, fun _ => trivial⟩, hparsed₁, hparsed₂, hparsed₃⟩, t₃, hsound₃,
      leaves_branch hleaves₃ rfl rfl trivial (stops_level hy)⟩

theorem next_of_prefixOp {token : Kind} {op : UnaryOp} (h : prefixOp? token = some op) :
    op.isPostfix = false ∧ ∀ t : Trace, t.next token = .other := by
  unfold prefixOp? at h
  split at h
  · cases h
    exact ⟨rfl, fun t => by cases t <;> rfl⟩
  · split at h
    · cases h
    · rename_i hop
      cases h
      exact ⟨by simpa using hop, fun t => by cases t <;> rfl⟩
  · cases h

/-- Every level reads what parsing makes of sound tokens. -/
theorem reads_level (neat : Bool) (n : Nat) : ReadsLevels neat n := by
  induction n with
  | zero => exact fun _ _ _ _ _ hts => absurd hts (Nat.not_lt_zero _)
  | succ n ih =>
    intro ts m t e rest hts hm hsound h
    cases levelReads_of_level h with
    | @prefixOp token op operand _ ts behindOperand _ hprefixOp ho hclimb =>
      have hshort : ts.length < n := Nat.lt_of_succ_lt_succ hts
      obtain ⟨hop, hnext⟩ := next_of_prefixOp hprefixOp
      obtain ⟨hparsed, t', hsound', hleaves⟩ := ih ts 8 .other _ _ hshort nofun
        (sound_tail hsound hnext) ho
      have hlt := length_level ho
      have hnode : (Expr.unary op operand).Taken neat := by
        refine ⟨fun hpost => ?_, fun _ hpost => ?_⟩ <;> simp [hop] at hpost
      have hall : (Expr.unary op operand).All (Taken neat) := ⟨hnode, hparsed⟩
      have htidy : neat = true → t ≠ .power ∧ t ≠ .keep := by
        intro hneat
        have hnone := isNone_of_tidy (hsound.2.2.1 hneat)
        rw [hprefixOp] at hnone
        exact ⟨fun ht => absurd (hnone (.inl ht)) nofun, fun ht => absurd (hnone (.inr ht)) nofun⟩
      exact reads_climb ih (by omega) hm hall hsound'
        (leaves_prefixOp hop htidy hleaves (stops_level ho)) hclimb
    | @primary token operand _ ts behindOperand _ _ ho hclimb =>
      have hshort : ts.length < n := Nat.lt_of_succ_lt_succ hts
      obtain ⟨hparsed, t', hsound', hleaves⟩ := reads_primary ih hshort hsound ho
      have hle := ho.length_le
      exact reads_climb ih (by omega) hm hparsed hsound' hleaves hclimb

/-- What is parsed from the tokens of a text. -/
theorem taken_of_parse {kinds : List Kind} {e : Expr} (hsound : Sound neat .other kinds)
    (h : parse kinds = some e) : e.All (Taken neat) := by
  unfold parse at h
  split at h
  · rename_i hlevel
    cases h
    exact (reads_level neat _ kinds 0 .other _ [] (Nat.lt_succ_self _) nofun hsound hlevel).1
  · cases h

theorem parsed_of_parse {kinds : List Kind} {e : Expr} (hsound : Sound false .other kinds)
    (h : parse kinds = some e) : e.All Parsed :=
  (taken_of_parse hsound h).imp fun _ he => he.1

end Climb

end DiceTome
