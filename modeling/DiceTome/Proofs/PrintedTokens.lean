import DiceTome.Expr.Printer
import DiceTome.Proofs.Climb

/-!
# The tokens of a printed expression

`Expr.tokens` lists the tokens that the text of an expression is meant to consist of. Climbing over
them reads the expression back (`Expr.readsBack`), whatever follows, as long as it cannot go on
with the expression. The printer may therefore leave out the parentheses it leaves out. Two kinds of
trees are set apart: those in which the left operand of a keep is a postfix operation, and those in
which an `else` would be read as part of the branch before it.
-/

namespace DiceTome

open Token (Kind)

/-- The token of a literal. -/
def Literal.token : Literal → Kind
  | bool b => .identifier (if b then "true" else "false")
  | decimal x => .decimal x
  | natural n => .natural n
  | roll quantity die => .roll quantity die
  | string s => .string s

/-- The token of an operator of one operand; a minus sign is always read as a subtraction first. -/
def UnaryOp.token : UnaryOp → Kind
  | neg => .operator (.binary .sub)
  | op => .operator (.unary op)

namespace Expr

/-! ## Conditions on every part of an expression -/

mutual

/-- Every part of the expression, itself included, meets a condition. -/
def All (p : Expr → Prop) : Expr → Prop
  | literal l => p (literal l)
  | name n => p (name n)
  | list items => p (list items) ∧ AllItems p items
  | call callee args => p (call callee args) ∧ AllItems p args
  | binary op lhs rhs => p (binary op lhs rhs) ∧ lhs.All p ∧ rhs.All p
  | unary op operand => p (unary op operand) ∧ operand.All p
  | ifThen condition consequent =>
    p (ifThen condition consequent) ∧ condition.All p ∧ consequent.All p
  | ifElse condition consequent alternative =>
    p (ifElse condition consequent alternative) ∧ condition.All p ∧ consequent.All p ∧
      alternative.All p

/-- Every part of some expressions meets a condition. -/
def AllItems (p : Expr → Prop) : List Expr → Prop
  | [] => True
  | e :: es => e.All p ∧ AllItems p es

end

mutual

theorem All.imp {p q : Expr → Prop} (h : ∀ e, p e → q e) : ∀ {e : Expr}, e.All p → e.All q
  | literal _, he | name _, he => h _ he
  | list _, he | call _ _, he => ⟨h _ he.1, AllItems.imp h he.2⟩
  | binary _ _ _, he | ifThen _ _, he => ⟨h _ he.1, All.imp h he.2.1, All.imp h he.2.2⟩
  | unary _ _, he => ⟨h _ he.1, All.imp h he.2⟩
  | ifElse _ _ _, he =>
    ⟨h _ he.1, All.imp h he.2.1, All.imp h he.2.2.1, All.imp h he.2.2.2⟩

theorem AllItems.imp {p q : Expr → Prop} (h : ∀ e, p e → q e) :
    ∀ {es : List Expr}, AllItems p es → AllItems q es
  | [], _ => trivial
  | _ :: _, hes => ⟨All.imp h hes.1, AllItems.imp h hes.2⟩

end

mutual

theorem All.of_forall {p : Expr → Prop} (h : ∀ e, p e) : ∀ e : Expr, e.All p
  | literal _ | name _ => h _
  | list items | call _ items => ⟨h _, AllItems.of_forall h items⟩
  | binary _ l r | ifThen l r => ⟨h _, All.of_forall h l, All.of_forall h r⟩
  | unary _ e => ⟨h _, All.of_forall h e⟩
  | ifElse c x y => ⟨h _, All.of_forall h c, All.of_forall h x, All.of_forall h y⟩

theorem AllItems.of_forall {p : Expr → Prop} (h : ∀ e, p e) : ∀ es : List Expr, AllItems p es
  | [] => trivial
  | e :: es => ⟨All.of_forall h e, AllItems.of_forall h es⟩

end

mutual

theorem All.and {p q : Expr → Prop} :
    ∀ {e : Expr}, e.All p → e.All q → e.All fun e => p e ∧ q e
  | literal _, hp, hq | name _, hp, hq => ⟨hp, hq⟩
  | list _, hp, hq | call _ _, hp, hq => ⟨⟨hp.1, hq.1⟩, AllItems.and hp.2 hq.2⟩
  | binary _ _ _, hp, hq | ifThen _ _, hp, hq =>
    ⟨⟨hp.1, hq.1⟩, All.and hp.2.1 hq.2.1, All.and hp.2.2 hq.2.2⟩
  | unary _ _, hp, hq => ⟨⟨hp.1, hq.1⟩, All.and hp.2 hq.2⟩
  | ifElse _ _ _, hp, hq =>
    ⟨⟨hp.1, hq.1⟩, All.and hp.2.1 hq.2.1, All.and hp.2.2.1 hq.2.2.1, All.and hp.2.2.2 hq.2.2.2⟩

theorem AllItems.and {p q : Expr → Prop} :
    ∀ {es : List Expr}, AllItems p es → AllItems q es → AllItems (fun e => p e ∧ q e) es
  | [], _, _ => trivial
  | _ :: _, hp, hq => ⟨All.and hp.1 hq.1, AllItems.and hp.2 hq.2⟩

end

mutual

/-- A condition on every part can be checked if it can be checked of each. -/
def decidableAll (p : Expr → Prop) [DecidablePred p] : (e : Expr) → Decidable (e.All p)
  | literal l => inferInstanceAs (Decidable (p (literal l)))
  | name n => inferInstanceAs (Decidable (p (name n)))
  | list items =>
    have := decidableAllItems p items
    inferInstanceAs (Decidable (p (list items) ∧ AllItems p items))
  | call callee args =>
    have := decidableAllItems p args
    inferInstanceAs (Decidable (p (call callee args) ∧ AllItems p args))
  | binary op lhs rhs =>
    have := decidableAll p lhs
    have := decidableAll p rhs
    inferInstanceAs (Decidable (p (binary op lhs rhs) ∧ lhs.All p ∧ rhs.All p))
  | unary op operand =>
    have := decidableAll p operand
    inferInstanceAs (Decidable (p (unary op operand) ∧ operand.All p))
  | ifThen condition consequent =>
    have := decidableAll p condition
    have := decidableAll p consequent
    inferInstanceAs (Decidable (p (ifThen condition consequent) ∧ condition.All p ∧
      consequent.All p))
  | ifElse condition consequent alternative =>
    have := decidableAll p condition
    have := decidableAll p consequent
    have := decidableAll p alternative
    inferInstanceAs (Decidable (p (ifElse condition consequent alternative) ∧ condition.All p ∧
      consequent.All p ∧ alternative.All p))

def decidableAllItems (p : Expr → Prop) [DecidablePred p] :
    (es : List Expr) → Decidable (AllItems p es)
  | [] => .isTrue trivial
  | e :: es =>
    have := decidableAll p e
    have := decidableAllItems p es
    inferInstanceAs (Decidable (e.All p ∧ AllItems p es))

end

instance {p : Expr → Prop} [DecidablePred p] : DecidablePred (All p) :=
  decidableAll p

/-! ## Tokens -/

/-- Tokens in parentheses if they are needed. -/
def wrappedTokens (ts : List Kind) (wrap : Bool) : List Kind :=
  if wrap then .delimiter .parenOpen :: ts ++ [.delimiter .parenClose] else ts

mutual

/-- The tokens of the printed expression. -/
def tokens : Expr → List Kind
  | literal l => [l.token]
  | name n => [.identifier n]
  | list items => .delimiter .bracketOpen :: itemTokens .bracketClose items
  | call callee args => .identifier callee :: .delimiter .parenOpen :: itemTokens .parenClose args
  | binary op lhs rhs =>
    wrappedTokens lhs.tokens (wrapsLeft op lhs) ++
      .operator (.binary op) :: wrappedTokens rhs.tokens (wrapsRight op rhs)
  | unary op operand =>
    let ts := wrappedTokens operand.tokens (wrapsOperand op operand)
    if op.isPostfix then ts ++ [op.token] else op.token :: ts
  | ifThen condition consequent =>
    .identifier "if" :: wrappedTokens condition.tokens (condition.strength = .conditional) ++
      .identifier "then" :: consequent.tokens
  | ifElse condition consequent alternative =>
    .identifier "if" :: wrappedTokens condition.tokens (condition.strength = .conditional) ++
      .identifier "then" :: wrappedTokens consequent.tokens consequent.isOpenConditional ++
      .identifier "else" :: alternative.tokens

/-- The tokens of the first of some items and all that follows it, up to the closing delimiter. -/
def itemTokens (closer : Delimiter) : List Expr → List Kind
  | [] => [.delimiter closer]
  | e :: es => e.tokens ++ moreTokens closer es

/-- The tokens of further items, each behind a comma, up to the closing delimiter. -/
def moreTokens (closer : Delimiter) : List Expr → List Kind
  | [] => [.delimiter closer]
  | e :: es => .delimiter .comma :: e.tokens ++ moreTokens closer es

end

/-! ## Where a printed expression ends -/

/-- Whether the text ends inside a conditional that an `else` would go on with. -/
def openEnded : Expr → Bool
  | ifThen _ _ => true
  | ifElse _ _ alternative => alternative.openEnded
  | _ => false

/-- The operators of lower rank than this may follow the expression. -/
def bound : Expr → Nat
  | binary op _ _ => op.rightRank
  | unary op _ => if op.isPostfix then 11 else 8
  | ifThen _ _ | ifElse _ _ _ => 0
  | literal _ | name _ | list _ | call _ _ => 11

/-- What follows cannot go on with the expression. -/
structure Ends (e : Expr) (rest : List Kind) : Prop where
  noCall : Climb.startsWith .parenOpen rest = false
  stops : Climb.Stops e.bound rest
  noElse : e.openEnded = true → Climb.startsWithWord "else" rest = false

/-- The expression is joined by operators of at least the given rank only. -/
def Fits (m : Nat) : Expr → Prop
  | binary op _ _ => m ≤ op.precedence
  | unary op _ => op.isPostfix → m ≤ op.precedence
  | _ => True

/-- What has to hold of a part of an expression for its tokens to be read back. -/
def Readable : Expr → Prop
  | name n | call n _ => Climb.isKeyword n = false
  | binary .keep lhs _ => lhs.isPostfix = false
  | ifElse _ consequent _ => consequent.isOpenConditional = false → consequent.openEnded = false
  | _ => True

/-! ## Operands without parentheses -/

theorem fits_zero (e : Expr) : e.Fits 0 := by
  cases e <;> simp [Fits]

theorem Fits.mono {m n : Nat} {e : Expr} (h : e.Fits n) (hmn : m ≤ n) : e.Fits m := by
  cases e with
  | binary op _ _ => exact Nat.le_trans hmn h
  | unary op _ => exact fun hpost => Nat.le_trans hmn (h hpost)
  | _ => trivial

theorem openEnded_eq_false {e : Expr} (h : e.strength ≠ .conditional) : e.openEnded = false := by
  cases e with
  | ifThen _ _ | ifElse _ _ _ => exact absurd rfl h
  | _ => rfl

theorem strength_literal (l : Literal) : (literal l).strength ≠ .conditional := by
  simp only [strength]
  split <;> exact nofun

theorem precedence_lt (op : BinaryOp) : op.precedence < 10 := by
  cases op <;> decide

/-- Operators of one rank group the same way. -/
theorem leftAssociative_congr {a b : BinaryOp} (h : a.precedence = b.precedence) :
    a.leftAssociative = b.leftAssociative := by
  cases a <;> cases b <;> first | rfl | exact absurd h (by decide)

theorem rank_of_wrapsLeft {op : BinaryOp} {lhs : Expr} (h : wrapsLeft op lhs = false)
    (hkeep : op = .keep → lhs.isPostfix = false) {n : Nat} (hn : lhs.strength = .rank n) :
    op.precedence ≤ n ∧ (op.precedence = n → op.leftAssociative = true) := by
  by_cases hop : op = .keep
  · subst hop
    simp only [wrapsLeft, barelyKept, hkeep rfl, hn, Strength.below, Bool.false_or, Bool.not_not,
      decide_eq_false_iff_not, Nat.not_lt] at h
    exact ⟨h, fun _ => rfl⟩
  · have hwraps : wrapsLeft op lhs = (lhs.strength.below op.precedence ||
        (lhs.strength.equals op.precedence && !op.leftAssociative)) := by
      cases op <;> first | rfl | exact absurd rfl hop
    simp only [hwraps, hn, Strength.below, Strength.equals, Strength.rank.injEq,
      Bool.or_eq_false_iff, decide_eq_false_iff_not, Bool.and_eq_false_iff, Nat.not_lt,
      Bool.not_eq_false'] at h
    exact ⟨h.1, fun heq => h.2.resolve_left fun hne => hne heq.symm⟩

theorem rank_of_wrapsRight {op : BinaryOp} {rhs : Expr} (h : wrapsRight op rhs = false)
    (hdigit : rhs.startsWithDigit = false) {n : Nat} (hn : rhs.strength = .rank n) :
    op.rightRank ≤ n := by
  by_cases hop : op = .keep
  · subst hop
    simp [wrapsRight, hdigit] at h
  · have hwraps : wrapsRight op rhs = (rhs.strength.below op.precedence ||
        (rhs.strength.equals op.precedence && op.leftAssociative)) := by
      cases op <;> first | rfl | exact absurd rfl hop
    simp only [hwraps, hn, Strength.below, Strength.equals, Strength.rank.injEq,
      Bool.or_eq_false_iff, decide_eq_false_iff_not, Bool.and_eq_false_iff, Nat.not_lt] at h
    unfold BinaryOp.rightRank
    split
    · rename_i hassoc
      rw [hassoc] at h
      have hne : n ≠ op.precedence := h.2.resolve_right nofun
      omega
    · exact h.1

/-- A left operand without parentheses is read up to its operator. -/
theorem of_wrapsLeft {op : BinaryOp} {lhs : Expr} (h : wrapsLeft op lhs = false)
    (hkeep : op = .keep → lhs.isPostfix = false) :
    lhs.strength ≠ .conditional ∧ lhs.Fits op.precedence ∧ op.precedence < lhs.bound := by
  have hlt := precedence_lt op
  cases lhs with
  | literal l => exact ⟨strength_literal l, trivial, Nat.lt_succ_of_lt hlt⟩
  | name _ | list _ | call _ _ => exact ⟨nofun, trivial, Nat.lt_succ_of_lt hlt⟩
  | ifThen _ _ | ifElse _ _ _ => cases op <;> cases h
  | binary inner _ _ =>
    obtain ⟨hle, hassoc⟩ := rank_of_wrapsLeft h hkeep rfl
    refine ⟨nofun, hle, ?_⟩
    simp only [bound, BinaryOp.rightRank]
    split
    · omega
    · rename_i hinner
      have hne : op.precedence ≠ inner.precedence := fun heq =>
        hinner ((leftAssociative_congr heq).symm.trans (hassoc heq))
      omega
  | unary inner _ =>
    obtain ⟨hle, -⟩ := rank_of_wrapsLeft h hkeep rfl
    refine ⟨nofun, fun _ => hle, ?_⟩
    simp only [UnaryOp.precedence] at hle
    simp only [bound]
    split <;> omega

/-- A right operand without parentheses is read as far as its operator lets it go. -/
theorem of_wrapsRight {op : BinaryOp} {rhs : Expr} (h : wrapsRight op rhs = false) :
    rhs.strength ≠ .conditional ∧ rhs.Fits op.rightRank ∧ op.rightRank ≤ rhs.bound := by
  have hle : op.rightRank ≤ 11 := by
    have := precedence_lt op
    unfold BinaryOp.rightRank
    split <;> omega
  cases rhs with
  | literal l => exact ⟨strength_literal l, trivial, hle⟩
  | name _ | list _ | call _ _ => exact ⟨nofun, trivial, hle⟩
  | ifThen _ _ | ifElse _ _ _ => cases op <;> cases h
  | binary inner _ _ =>
    have hrank := rank_of_wrapsRight h rfl rfl
    refine ⟨nofun, hrank, ?_⟩
    have hinner : inner.precedence ≤ inner.rightRank := by
      unfold BinaryOp.rightRank
      split <;> omega
    exact Nat.le_trans hrank hinner
  | unary inner _ =>
    have hrank := rank_of_wrapsRight h rfl rfl
    refine ⟨nofun, fun _ => hrank, ?_⟩
    simp only [UnaryOp.precedence] at hrank
    simp only [bound]
    split <;> omega

/-- An operand without parentheses is read by the operator in front of it, or up to the operator
behind it. -/
theorem of_wrapsOperand {op : UnaryOp} {operand : Expr} (h : wrapsOperand op operand = false) :
    operand.strength ≠ .conditional ∧
      operand.Fits (if op.isPostfix then op.precedence else 8) ∧ 8 ≤ operand.bound := by
  have hbelow : operand.strength.below 7 = false := (Bool.or_eq_false_iff.mp h).1
  cases operand with
  | literal l => exact ⟨strength_literal l, trivial, by simp [bound]⟩
  | name _ | list _ | call _ _ => exact ⟨by simp [strength], trivial, by simp [bound]⟩
  | ifThen _ _ | ifElse _ _ _ => cases hbelow
  | binary inner _ _ =>
    -- No operator between two operands has the rank of those with one, so the rank is 8 or more.
    have hle : 8 ≤ inner.precedence := by
      have hseven : 7 ≤ inner.precedence := by
        simpa [strength, Strength.below] using hbelow
      cases inner <;> first | decide | exact absurd hseven (by decide)
    refine ⟨by simp [strength], ?_, ?_⟩
    · simp only [Fits, UnaryOp.precedence]
      split <;> omega
    · simp only [bound, BinaryOp.rightRank]
      split <;> omega
  | unary inner _ =>
    refine ⟨by simp [strength], fun hpost => ?_, ?_⟩
    · cases hop : op.isPostfix with
      | true => exact Nat.le_refl _
      | false =>
        simp [wrapsOperand, hop, strength, Strength.equals, UnaryOp.precedence, isPostfix,
          hpost] at h
    · simp only [bound]
      split <;> decide

/-! ## Reading the tokens back -/

open Climb

/-- Climbing over the tokens of the expression reads it back, whatever may follow it. -/
def ReadsBack (e : Expr) : Prop :=
  ∀ (m : Nat) (rest : List Kind), e.Fits m → e.Ends rest →
    level m (e.tokens ++ rest) = climb m e rest

theorem ends_delimiter (e : Expr) {d : Delimiter} (hd : d ≠ .parenOpen) (rest : List Kind) :
    e.Ends (.delimiter d :: rest) :=
  ⟨by simpa [startsWith] using hd, trivial, fun _ => rfl⟩

theorem ReadsBack.level_eq {e : Expr} (h : e.ReadsBack) {m : Nat} {rest : List Kind}
    (hfits : e.Fits m) (hends : e.Ends rest) (hstops : Stops m rest) :
    level m (e.tokens ++ rest) = some (e, rest) := by
  rw [h m rest hfits hends, climb_of_stops hstops]

/-- Parentheses make an expression an operand. -/
theorem ReadsBack.level_wrapped {e : Expr} (h : e.ReadsBack) {m : Nat} {wrap : Bool}
    {rest : List Kind} (hbare : wrap = false → e.Fits m ∧ e.Ends rest) :
    level m (wrappedTokens e.tokens wrap ++ rest) = climb m e rest := by
  cases wrap with
  | false =>
    obtain ⟨hfits, hends⟩ := hbare rfl
    exact h m rest hfits hends
  | true =>
    have hends : e.Ends (.delimiter .parenClose :: rest) := ends_delimiter e (by decide) rest
    have hinner := h.level_eq (fits_zero e) hends trivial
    have htokens : wrappedTokens e.tokens true ++ rest =
        .delimiter .parenOpen :: (e.tokens ++ .delimiter .parenClose :: rest) := by
      simp [wrappedTokens]
    rw [htokens, level_primary m rfl, primary_paren, hinner]
    rfl

theorem ReadsBack.level_wrapped_eq {e : Expr} (h : e.ReadsBack) {m : Nat} {wrap : Bool}
    {rest : List Kind} (hbare : wrap = false → e.Fits m ∧ e.Ends rest) (hstops : Stops m rest) :
    level m (wrappedTokens e.tokens wrap ++ rest) = some (e, rest) := by
  rw [h.level_wrapped hbare, climb_of_stops hstops]

theorem readsBack_literal (l : Literal) : (literal l).ReadsBack := by
  intro m rest _ _
  rcases l with ⟨_ | _⟩ | _ | _ | _ | _ <;>
  · simp only [tokens, Literal.token, List.singleton_append]
    rw [level_primary m rfl, primary.eq_def]
    rfl

theorem readsBack_binary {op : BinaryOp} {lhs rhs : Expr} (hl : lhs.ReadsBack)
    (hr : rhs.ReadsBack) (hkeep : op = .keep → lhs.isPostfix = false) :
    (binary op lhs rhs).ReadsBack := by
  intro m rest hfits hends
  have hleft : wrapsLeft op lhs = false → lhs.Fits m ∧
      lhs.Ends (.operator (.binary op) :: (wrappedTokens rhs.tokens (wrapsRight op rhs) ++ rest)) := by
    intro hwraps
    obtain ⟨hstrength, hfits', hlt⟩ := of_wrapsLeft hwraps hkeep
    exact ⟨hfits'.mono hfits, rfl, hlt, fun _ => rfl⟩
  have hright : wrapsRight op rhs = false → rhs.Fits op.rightRank ∧ rhs.Ends rest := by
    intro hwraps
    obtain ⟨hstrength, hfits', hle⟩ := of_wrapsRight hwraps
    refine ⟨hfits', hends.noCall, hends.stops.mono hle, fun hopen => ?_⟩
    rw [openEnded_eq_false hstrength] at hopen
    cases hopen
  rw [tokens, List.append_assoc, List.cons_append, hl.level_wrapped hleft, climb_binary hfits,
    hr.level_wrapped_eq hright hends.stops]
  rfl

theorem readsBack_unary {op : UnaryOp} {operand : Expr} (h : operand.ReadsBack) :
    (unary op operand).ReadsBack := by
  intro m rest hfits hends
  cases hpost : op.isPostfix with
  | true =>
    have htoken : op.token = .operator (.unary op) := by
      cases op <;> first | rfl | cases hpost
    have hbare : wrapsOperand op operand = false → operand.Fits m ∧
        operand.Ends (.operator (.unary op) :: rest) := by
      intro hwraps
      obtain ⟨hstrength, hfits', hle⟩ := of_wrapsOperand hwraps
      rw [if_pos hpost] at hfits'
      exact ⟨hfits'.mono (hfits hpost), rfl, fun _ => hle, fun _ => rfl⟩
    simp only [tokens, hpost, if_true, List.append_assoc, List.singleton_append, htoken]
    rw [h.level_wrapped hbare, climb_postfixOp hpost (hfits hpost)]
  | false =>
    have htoken : prefixOp? op.token = some op := by
      cases op <;> first | rfl | cases hpost
    have hstops : Stops 8 rest := by
      have := hends.stops
      rwa [bound, if_neg (by simp [hpost])] at this
    have hbare : wrapsOperand op operand = false → operand.Fits 8 ∧ operand.Ends rest := by
      intro hwraps
      obtain ⟨hstrength, hfits', hle⟩ := of_wrapsOperand hwraps
      rw [if_neg (by simp [hpost])] at hfits'
      refine ⟨hfits', hends.noCall, hstops.mono hle, fun hopen => ?_⟩
      rw [openEnded_eq_false hstrength] at hopen
      cases hopen
    simp only [tokens, hpost, Bool.false_eq_true, if_false, List.cons_append]
    rw [level_prefixOp m htoken, h.level_wrapped_eq hbare hstops]
    rfl

theorem readsBack_condition {condition : Expr} (h : condition.ReadsBack) (rest : List Kind) :
    level 0 (wrappedTokens condition.tokens (condition.strength = .conditional) ++
        .identifier "then" :: rest) = some (condition, .identifier "then" :: rest) := by
  refine h.level_wrapped_eq (fun _ => ⟨fits_zero _, rfl, trivial, fun _ => rfl⟩) trivial

theorem readsBack_ifThen {condition consequent : Expr} (hc : condition.ReadsBack)
    (hx : consequent.ReadsBack) : (ifThen condition consequent).ReadsBack := by
  intro m rest _ hends
  have hstops : Stops 0 rest := hends.stops
  have hnoElse := hends.noElse rfl
  have hconsequent := hx.level_eq (fits_zero _)
    ⟨hends.noCall, hstops.mono (Nat.zero_le _), fun _ => hnoElse⟩ hstops
  simp only [tokens, List.cons_append, List.append_assoc]
  rw [level_primary m rfl, primary_if, readsBack_condition hc]
  simp [afterCondition, hconsequent, hnoElse]

theorem readsBack_ifElse {condition consequent alternative : Expr} (hc : condition.ReadsBack)
    (hx : consequent.ReadsBack) (he : alternative.ReadsBack)
    (hbound : consequent.isOpenConditional = false → consequent.openEnded = false) :
    (ifElse condition consequent alternative).ReadsBack := by
  intro m rest _ hends
  have hstops : Stops 0 rest := hends.stops
  have hconsequent : level 0 (wrappedTokens consequent.tokens consequent.isOpenConditional ++
        .identifier "else" :: (alternative.tokens ++ rest)) =
      some (consequent, .identifier "else" :: (alternative.tokens ++ rest)) := by
    refine hx.level_wrapped_eq (fun hwrap => ⟨fits_zero _, rfl, trivial, fun hopen => ?_⟩) trivial
    rw [hbound hwrap] at hopen
    cases hopen
  have halternative := he.level_eq (fits_zero _)
    ⟨hends.noCall, hstops.mono (Nat.zero_le _), hends.noElse⟩ hstops
  simp only [tokens, List.cons_append, List.append_assoc]
  rw [level_primary m rfl, primary_if, readsBack_condition hc]
  simp [afterCondition, hconsequent, halternative]

/-- No expression starts with a delimiter that closes items or stands between them. -/
theorem startsWith_of_level {d : Delimiter} (hparen : d ≠ .parenOpen) (hbracket : d ≠ .bracketOpen)
    {m : Nat} {ts : List Kind} {p : Expr × List Kind} (h : level m ts = some p) :
    startsWith d ts = false := by
  cases hstart : startsWith d ts with
  | false => rfl
  | true =>
    unfold startsWith at hstart
    split at hstart
    · cases of_decide_eq_true hstart
      rw [level_primary m rfl, primary.eq_def] at h
      cases d <;> simp_all
    · cases hstart

theorem someItems_moreTokens {closer : Delimiter} (hparen : closer ≠ .parenOpen)
    (hcomma : closer ≠ .comma) {e : Expr} {es : List Expr} (he : e.ReadsBack)
    (hes : ∀ e ∈ es, e.ReadsBack) (rest : List Kind) :
    someItems closer (e.tokens ++ (moreTokens closer es ++ rest)) = some (e :: es, rest) := by
  induction es generalizing e with
  | nil =>
    have hends : e.Ends (.delimiter closer :: rest) := ends_delimiter e hparen rest
    rw [moreTokens, List.singleton_append, someItems_eq, he.level_eq (fits_zero e) hends trivial]
    simp [startsWith, hcomma]
  | cons next es ih =>
    have hends : e.Ends (.delimiter .comma :: (next.tokens ++ (moreTokens closer es ++ rest))) :=
      ends_delimiter e (by decide) _
    have hmore := ih (hes next List.mem_cons_self) fun e he => hes e (List.mem_cons_of_mem _ he)
    rw [moreTokens, List.cons_append, List.cons_append, List.append_assoc, someItems_eq,
      he.level_eq (fits_zero e) hends trivial]
    simp [startsWith, hmore]

theorem items_itemTokens {closer : Delimiter} (hparen : closer ≠ .parenOpen)
    (hbracket : closer ≠ .bracketOpen) (hcomma : closer ≠ .comma) {es : List Expr}
    (hes : ∀ e ∈ es, e.ReadsBack) (rest : List Kind) :
    items closer (itemTokens closer es ++ rest) = some (es, rest) := by
  rw [items.eq_def]
  cases es with
  | nil => simp [itemTokens, startsWith]
  | cons e es =>
    have hsome := someItems_moreTokens hparen hcomma (hes e List.mem_cons_self)
      (fun e he => hes e (List.mem_cons_of_mem _ he)) rest
    rw [itemTokens, List.append_assoc, if_neg, hsome]
    rw [someItems_eq] at hsome
    obtain ⟨p, hlevel, -⟩ := Option.bind_eq_some_iff.mp hsome
    simp [startsWith_of_level hparen hbracket hlevel]

mutual

/-- Climbing over the tokens of a readable expression reads it back. -/
theorem readsBack : ∀ {e : Expr}, e.All Readable → e.ReadsBack
  | literal l, _ => readsBack_literal l
  | name n, h => by
    intro m rest _ hends
    rw [tokens, List.singleton_append, level_primary m rfl, primary_identifier h, hends.noCall]
    rfl
  | list items, h => by
    intro m rest _ _
    rw [tokens, List.cons_append, level_primary m rfl, primary_bracket,
      items_itemTokens (by decide) (by decide) (by decide) (readsBack_items h.2)]
    rfl
  | call callee args, h => by
    intro m rest _ _
    rw [tokens, List.cons_append, List.cons_append, level_primary m rfl, primary_identifier h.1,
      List.tail_cons, items_itemTokens (by decide) (by decide) (by decide) (readsBack_items h.2)]
    rfl
  | binary op _ _, h => by
    refine readsBack_binary (readsBack h.2.1) (readsBack h.2.2) fun hop => ?_
    subst hop
    exact h.1
  | unary _ _, h => readsBack_unary (readsBack h.2)
  | ifThen _ _, h => readsBack_ifThen (readsBack h.2.1) (readsBack h.2.2)
  | ifElse _ _ _, h =>
    readsBack_ifElse (readsBack h.2.1) (readsBack h.2.2.1) (readsBack h.2.2.2) h.1

theorem readsBack_items : ∀ {es : List Expr}, AllItems Readable es → ∀ e ∈ es, e.ReadsBack
  | [], _, _, he => nomatch he
  | _ :: _, h, _, .head _ => readsBack h.1
  | _ :: _, h, _, .tail _ he => readsBack_items h.2 _ he

end

theorem ends_nil (e : Expr) : e.Ends [] :=
  ⟨rfl, trivial, fun _ => rfl⟩

/-- The tokens of a readable expression are parsed as that expression. -/
theorem parse_tokens {e : Expr} (h : e.All Readable) : parse e.tokens = some e := by
  have hlevel := (readsBack h).level_eq (fits_zero e) (ends_nil e) trivial
  rw [List.append_nil] at hlevel
  rw [parse, hlevel]

end Expr

end DiceTome
