import DiceTome.Proofs.PrintedTokens

/-!
# Dangling alternatives

The printer puts no parentheses around the branch before an `else` unless it is a conditional
without an alternative. If that branch ends in such a conditional deeper inside, the `else` is read
as its alternative. `Expr.rebound` is the expression that is read then: it has the same tokens
(`Expr.tokens_rebound`), and every `else` in it belongs where it is read
(`Expr.readable_rebound`).
-/

namespace DiceTome.Expr

/-- Makes an expression the alternative of the conditional that another one ends in. -/
def takeElse : Expr → Expr → Expr
  | ifThen condition consequent, e =>
    if consequent.openEnded then ifThen condition (consequent.takeElse e)
    else ifElse condition consequent e
  | ifElse condition consequent alternative, e =>
    ifElse condition consequent (alternative.takeElse e)
  | x, _ => x

mutual

/-- The expression with every `else` where it is read. -/
def rebound : Expr → Expr
  | literal l => literal l
  | name n => name n
  | list items => list (reboundAll items)
  | call callee args => call callee (reboundAll args)
  | binary op lhs rhs => binary op lhs.rebound rhs.rebound
  | unary op operand => unary op operand.rebound
  | ifThen condition consequent => ifThen condition.rebound consequent.rebound
  | ifElse condition consequent alternative =>
    if !consequent.isOpenConditional && consequent.rebound.openEnded then
      ifThen condition.rebound (consequent.rebound.takeElse alternative.rebound)
    else ifElse condition.rebound consequent.rebound alternative.rebound

def reboundAll : List Expr → List Expr
  | [] => []
  | e :: es => e.rebound :: reboundAll es

end

/-! ## The same tokens -/

theorem isOpenConditional_eq_false {e : Expr} (h : e.openEnded = false) :
    e.isOpenConditional = false := by
  cases e <;> first | rfl | cases h

theorem tokens_takeElse (e : Expr) : ∀ {x : Expr}, x.openEnded = true →
    (x.takeElse e).tokens = x.tokens ++ .identifier "else" :: e.tokens
  | ifThen condition consequent, _ => by
    cases hopen : consequent.openEnded with
    | true => simp [takeElse, hopen, tokens, tokens_takeElse e hopen]
    | false =>
      simp [takeElse, hopen, tokens, isOpenConditional_eq_false hopen, wrappedTokens]
  | ifElse condition consequent alternative, h => by
    simp [takeElse, tokens, tokens_takeElse e (x := alternative) h]

theorem strength_rebound (e : Expr) : e.rebound.strength = e.strength := by
  cases e with
  | ifElse condition consequent alternative =>
    simp only [rebound]
    split <;> rfl
  | _ => rfl

theorem isPostfix_rebound (e : Expr) : e.rebound.isPostfix = e.isPostfix := by
  cases e with
  | ifElse condition consequent alternative =>
    simp only [rebound]
    split <;> rfl
  | _ => rfl

theorem startsWithDigit_rebound (e : Expr) : e.rebound.startsWithDigit = e.startsWithDigit := by
  cases e with
  | ifElse condition consequent alternative =>
    simp only [rebound]
    split <;> rfl
  | _ => rfl

theorem wrapsLeft_rebound (op : BinaryOp) (lhs : Expr) :
    wrapsLeft op lhs.rebound = wrapsLeft op lhs := by
  simp only [wrapsLeft, barelyKept, strength_rebound, isPostfix_rebound]

theorem wrapsRight_rebound (op : BinaryOp) (rhs : Expr) :
    wrapsRight op rhs.rebound = wrapsRight op rhs := by
  simp only [wrapsRight, strength_rebound, startsWithDigit_rebound]

theorem wrapsOperand_rebound (op : UnaryOp) (operand : Expr) :
    wrapsOperand op operand.rebound = wrapsOperand op operand := by
  simp only [wrapsOperand, strength_rebound, isPostfix_rebound]

/-- A branch that needs no parentheses before an `else` needs none after it is rebound, unless the
`else` goes on with it. -/
theorem isOpenConditional_rebound {e : Expr}
    (h : (!e.isOpenConditional && e.rebound.openEnded) = false) :
    e.rebound.isOpenConditional = e.isOpenConditional := by
  cases hopen : e.isOpenConditional with
  | true => cases e <;> first | rfl | cases hopen
  | false =>
    rw [hopen] at h
    exact isOpenConditional_eq_false (by simpa using h)

mutual

/-- Rebinding keeps the tokens. -/
theorem tokens_rebound : ∀ e : Expr, e.rebound.tokens = e.tokens
  | literal _ | name _ => rfl
  | list items => by simp only [rebound, tokens, itemTokens_rebound]
  | call callee args => by simp only [rebound, tokens, itemTokens_rebound]
  | binary op lhs rhs => by
    simp only [rebound, tokens, wrapsLeft_rebound, wrapsRight_rebound, tokens_rebound lhs,
      tokens_rebound rhs]
  | unary op operand => by
    simp only [rebound, tokens, wrapsOperand_rebound, tokens_rebound operand]
  | ifThen condition consequent => by
    simp only [rebound, tokens, strength_rebound, tokens_rebound condition,
      tokens_rebound consequent]
  | ifElse condition consequent alternative => by
    simp only [rebound]
    split
    · rename_i hopen
      simp only [Bool.and_eq_true, Bool.not_eq_true'] at hopen
      simp [tokens, strength_rebound, tokens_rebound condition, tokens_rebound consequent,
        tokens_rebound alternative, tokens_takeElse _ hopen.2, hopen.1, wrappedTokens]
    · rename_i hopen
      simp only [tokens, strength_rebound, tokens_rebound condition, tokens_rebound consequent,
        tokens_rebound alternative, isOpenConditional_rebound (Bool.eq_false_iff.mpr hopen)]

theorem itemTokens_rebound (closer : Delimiter) :
    ∀ es : List Expr, itemTokens closer (reboundAll es) = itemTokens closer es
  | [] => rfl
  | e :: es => by
    simp only [reboundAll, itemTokens, tokens_rebound e, moreTokens_rebound closer es]

theorem moreTokens_rebound (closer : Delimiter) :
    ∀ es : List Expr, moreTokens closer (reboundAll es) = moreTokens closer es
  | [] => rfl
  | e :: es => by
    simp only [reboundAll, moreTokens, tokens_rebound e, moreTokens_rebound closer es]

end

/-! ## Every alternative where it is read -/

/-- What has to hold of a part for its tokens to be read back, apart from where an `else` belongs. -/
def Worded : Expr → Prop
  | name n | call n _ => Climb.isKeyword n = false
  | binary .keep lhs _ => lhs.isPostfix = false
  | _ => True

/-- The `else` of a part belongs where it is read. -/
def Binds : Expr → Prop
  | ifElse _ consequent _ => consequent.isOpenConditional = false → consequent.openEnded = false
  | _ => True

theorem readable_iff {e : Expr} : e.Readable ↔ e.Worded ∧ e.Binds := by
  cases e with
  | binary op lhs rhs => cases op <;> simp [Readable, Worded, Binds]
  | _ => simp [Readable, Worded, Binds]

theorem readable_takeElse {e : Expr} (he : e.All Readable) :
    ∀ {x : Expr}, x.All Readable → (x.takeElse e).All Readable
  | ifThen condition consequent, hx => by
    simp only [takeElse]
    split
    · exact ⟨trivial, hx.2.1, readable_takeElse he hx.2.2⟩
    · rename_i hopen
      exact ⟨fun _ => by simpa using hopen, hx.2.1, hx.2.2, he⟩
  | ifElse _ _ _, hx => ⟨hx.1, hx.2.1, hx.2.2.1, readable_takeElse he hx.2.2.2⟩
  | literal _, hx | name _, hx | list _, hx | call _ _, hx | binary _ _ _, hx | unary _ _, hx => hx

mutual

/-- Rebinding makes an expression readable. -/
theorem readable_rebound : ∀ {e : Expr}, e.All Worded → e.rebound.All Readable
  | literal _, _ => trivial
  | name _, h => h
  | list _, h => ⟨trivial, readable_reboundAll h.2⟩
  | call _ _, h => ⟨h.1, readable_reboundAll h.2⟩
  | binary op lhs rhs, h => by
    refine ⟨?_, readable_rebound h.2.1, readable_rebound h.2.2⟩
    cases op with
    | keep => exact (isPostfix_rebound lhs).trans h.1
    | _ => trivial
  | unary _ _, h => ⟨trivial, readable_rebound h.2⟩
  | ifThen _ _, h => ⟨trivial, readable_rebound h.2.1, readable_rebound h.2.2⟩
  | ifElse condition consequent alternative, h => by
    have hc := readable_rebound h.2.1
    have hx := readable_rebound h.2.2.1
    have he := readable_rebound h.2.2.2
    simp only [rebound]
    split
    · exact ⟨trivial, hc, readable_takeElse he hx⟩
    · rename_i hopen
      have hclosed := Bool.eq_false_iff.mpr hopen
      refine ⟨fun hbare => ?_, hc, hx, he⟩
      rw [isOpenConditional_rebound hclosed] at hbare
      simpa [hbare] using hclosed

theorem readable_reboundAll : ∀ {es : List Expr}, AllItems Worded es →
    AllItems Readable (reboundAll es)
  | [], _ => trivial
  | _ :: _, h => ⟨readable_rebound h.1, readable_reboundAll h.2⟩

end

/-- The tokens of an expression are parsed as the rebound expression. -/
theorem parse_tokens_rebound {e : Expr} (h : e.All Worded) :
    Climb.parse e.tokens = some e.rebound := by
  rw [← tokens_rebound]
  exact parse_tokens (readable_rebound h)

/-- The tokens of an expression are parsed as itself exactly if every `else` belongs where it is
read. -/
theorem parse_tokens_iff {e : Expr} (h : e.All Worded) :
    Climb.parse e.tokens = some e ↔ e.All Binds := by
  constructor
  · intro hparse
    rw [parse_tokens_rebound h, Option.some.injEq] at hparse
    have hread := readable_rebound h
    rw [hparse] at hread
    exact hread.imp fun _ he => (readable_iff.mp he).2
  · intro hbinds
    exact parse_tokens ((h.and hbinds).imp fun _ he => readable_iff.mpr he)

end DiceTome.Expr
