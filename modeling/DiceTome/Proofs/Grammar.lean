import DiceTome.Proofs.StackParser

/-!
# The grammar

The grammar of expressions says which lists of tokens are expressions at all, whatever tree they
stand for. It is ambiguous: an `else` may belong to either of two conditionals, and an operator
behind a conditional may join the whole of it or its last branch. The parser takes whatever it can
where it stands and never looks back, and still refuses no list that the grammar derives.

* `Grammar.IsExpr`, `Grammar.IsTerm`, `Grammar.IsPrimary` and `Grammar.IsSeries` are the rules.
* `Outline` is the parser without its trees: what is still open, and what is due next.
* `Grammar.IsExpr.accepts`: an outline accepts what the grammar derives. Conditionals that a
  derivation has closed may still be open in the outline, which is why the lemmas hold for any
  number of them.
* `Outline.level_of_accepts`: climbing reads what an outline accepts.
* `Grammar.isExpr_of_level`: what climbing reads is an expression of the grammar.
* `Arena.parse_succeeds_iff_derivable` puts these together.
-/

namespace DiceTome

open Token (Kind)
open Climb

namespace Grammar

/-- The tokens that stand for a value by themselves. -/
inductive IsLiteral : Kind → Prop
  | natural (n : Nat) : IsLiteral (.natural n)
  | decimal (x : Float) : IsLiteral (.decimal x)
  | roll (quantity die : Nat) : IsLiteral (.roll quantity die)
  | string (text : String) : IsLiteral (.string text)
  | yes : IsLiteral (.identifier "true")
  | no : IsLiteral (.identifier "false")

/-- The operators in front of a term. A minus sign is one of them. -/
inductive IsPrefixOp : Kind → Prop
  | minus : IsPrefixOp (.operator (.binary .sub))
  | sign (op : UnaryOp) (h : op.isPostfix = false) : IsPrefixOp (.operator (.unary op))

/-- The operators behind a primary. -/
inductive IsPostfixOp : Kind → Prop
  | suffix (op : UnaryOp) (h : op.isPostfix = true) : IsPostfixOp (.operator (.unary op))

mutual

/-- Terms with binary operators between them. -/
inductive IsExpr : List Kind → Prop
  | term {ts : List Kind} (h : IsTerm ts) : IsExpr ts
  | binary {ts us : List Kind} (op : BinaryOp) (hl : IsTerm ts) (hr : IsExpr us) :
    IsExpr (ts ++ .operator (.binary op) :: us)

/-- A primary with operators in front of it and behind it. -/
inductive IsTerm : List Kind → Prop
  | prefixOp {t : Kind} {ts : List Kind} (ht : IsPrefixOp t) (h : IsTerm ts) : IsTerm (t :: ts)
  | primary {ts ops : List Kind} (h : IsPrimary ts) (hops : ∀ t ∈ ops, IsPostfixOp t) :
    IsTerm (ts ++ ops)

/-- What needs no operator. The words of a conditional and the truth values are no names. -/
inductive IsPrimary : List Kind → Prop
  | literal {t : Kind} (h : IsLiteral t) : IsPrimary [t]
  | name {n : String} (h : isKeyword n = false) : IsPrimary [.identifier n]
  | call {n : String} {args : List Kind} (h : isKeyword n = false) (hargs : IsItems args) :
    IsPrimary (.identifier n :: .delimiter .parenOpen :: (args ++ [.delimiter .parenClose]))
  | list {items : List Kind} (hitems : IsItems items) :
    IsPrimary (.delimiter .bracketOpen :: (items ++ [.delimiter .bracketClose]))
  | group {ts : List Kind} (h : IsExpr ts) :
    IsPrimary (.delimiter .parenOpen :: (ts ++ [.delimiter .parenClose]))
  | ifThen {cs xs : List Kind} (hc : IsExpr cs) (hx : IsExpr xs) :
    IsPrimary (.identifier "if" :: (cs ++ .identifier "then" :: xs))
  | ifElse {cs xs es : List Kind} (hc : IsExpr cs) (hx : IsExpr xs) (he : IsExpr es) :
    IsPrimary (.identifier "if" :: (cs ++ .identifier "then" :: (xs ++ .identifier "else" :: es)))

/-- No expression, or some with commas between them. -/
inductive IsItems : List Kind → Prop
  | none : IsItems []
  | some {ts : List Kind} (h : IsSeries ts) : IsItems ts

/-- At least one expression, with commas between them. -/
inductive IsSeries : List Kind → Prop
  | last {ts : List Kind} (h : IsExpr ts) : IsSeries ts
  | more {ts us : List Kind} (h : IsExpr ts) (hs : IsSeries us) :
    IsSeries (ts ++ .delimiter .comma :: us)

end

/-! ## Operators at the ends of an expression -/

theorem IsTerm.append_postfixOp {ts : List Kind} {t : Kind} (ht : IsPostfixOp t) :
    IsTerm ts → IsTerm (ts ++ [t])
  | .prefixOp hsign h => .prefixOp hsign (h.append_postfixOp ht)
  | .primary h hops => by
    rw [List.append_assoc]
    refine .primary h fun op hop => ?_
    rcases List.mem_append.mp hop with hop | hop
    · exact hops op hop
    · rw [List.mem_singleton.mp hop]
      exact ht

theorem IsExpr.append_postfixOp {ts : List Kind} {t : Kind} (ht : IsPostfixOp t) :
    IsExpr ts → IsExpr (ts ++ [t])
  | .term h => .term (h.append_postfixOp ht)
  | .binary op hl hr => by
    rw [List.append_assoc, List.cons_append]
    exact .binary op hl (hr.append_postfixOp ht)

theorem IsExpr.cons_prefixOp {ts : List Kind} {t : Kind} (ht : IsPrefixOp t) :
    IsExpr ts → IsExpr (t :: ts)
  | .term h => .term (.prefixOp ht h)
  | .binary op hl hr => .binary op (.prefixOp ht hl) hr

theorem IsExpr.append_binary {ts us : List Kind} (op : BinaryOp) (hr : IsExpr us) :
    IsExpr ts → IsExpr (ts ++ .operator (.binary op) :: us)
  | .term h => .binary op h hr
  | .binary op' hl h => by
    rw [List.append_assoc, List.cons_append]
    exact .binary op' hl (IsExpr.append_binary op hr h)

theorem isPrefixOp_iff {t : Kind} : IsPrefixOp t ↔ (prefixOp? t).isSome = true := by
  constructor
  · rintro (_ | ⟨op, h⟩)
    · rfl
    · simp [prefixOp?, h]
  · intro h
    unfold prefixOp? at h
    split at h
    · exact .minus
    · rename_i op
      cases hop : op.isPostfix with
      | false => exact .sign op hop
      | true => simp [hop] at h
    · cases h

end Grammar

/-! ## Outlines -/

/-- What is open around the tokens that come next. -/
inductive Open where
  | group
  | items (square : Bool)
  | condition
  | consequent
  | alternative
  deriving Repr, DecidableEq

/-- The end of a list in square brackets or of arguments in round ones. -/
def closer (square : Bool) : Delimiter :=
  if square then .bracketClose else .parenClose

/-- What is due next: an operand, the first item of a list or its end, whatever may follow a name,
or whatever may follow an operand. -/
inductive Due where
  | operand
  | firstItem
  | behindName
  | operator
  deriving Repr, DecidableEq

/-- A parse without its trees. -/
structure Outline where
  frames : List Open := []
  due : Due := .operand
  deriving Repr, DecidableEq

namespace Outline

/-- Takes a token where an operand is due. -/
def takeOperand (frames : List Open) : Kind → Option Outline
  | .natural _ | .decimal _ | .roll _ _ | .string _ => some ⟨frames, .operator⟩
  | .identifier n =>
    if n = "true" ∨ n = "false" then some ⟨frames, .operator⟩
    else if n = "if" then some ⟨.condition :: frames, .operand⟩
    else if n = "then" ∨ n = "else" then none
    else some ⟨frames, .behindName⟩
  | .operator op => if (prefixOp? (.operator op)).isSome then some ⟨frames, .operand⟩ else none
  | .delimiter .parenOpen => some ⟨.group :: frames, .operand⟩
  | .delimiter .bracketOpen => some ⟨.items true :: frames, .firstItem⟩
  | .delimiter _ => none

/-- Takes a token that ends an expression. Conditionals that it does not go on with end as well. -/
def settle (t : Kind) : List Open → Option Outline
  | [] => none
  | .group :: frames => if startsWith .parenClose [t] then some ⟨frames, .operator⟩ else none
  | .items square :: frames =>
    if startsWith .comma [t] then some ⟨.items square :: frames, .operand⟩
    else if startsWith (closer square) [t] then some ⟨frames, .operator⟩
    else none
  | .condition :: frames =>
    if startsWithWord "then" [t] then some ⟨.consequent :: frames, .operand⟩ else none
  | .consequent :: frames =>
    if startsWithWord "else" [t] then some ⟨.alternative :: frames, .operand⟩
    else settle t frames
  | .alternative :: frames => settle t frames

/-- Takes a token behind an operand. -/
def takeOperator (frames : List Open) : Kind → Option Outline
  | .operator (.binary _) => some ⟨frames, .operand⟩
  | .operator (.unary op) =>
    if op.isPostfix then some ⟨frames, .operator⟩ else settle (.operator (.unary op)) frames
  | t => settle t frames

/-- Takes one token. -/
def step (o : Outline) (t : Kind) : Option Outline :=
  match o.due, o.frames with
  | .firstItem, .items square :: frames =>
    if startsWith (closer square) [t] then some ⟨frames, .operator⟩ else takeOperand o.frames t
  | .operand, frames | .firstItem, frames => takeOperand frames t
  | .behindName, frames =>
    if startsWith .parenOpen [t] then some ⟨.items false :: frames, .firstItem⟩
    else takeOperator frames t
  | .operator, frames => takeOperator frames t

/-- Whether a conditional is all that is open. -/
def isBranch : Open → Bool
  | .consequent | .alternative => true
  | _ => false

/-- Whether the tokens may end here. -/
def ends (o : Outline) : Bool :=
  match o.due with
  | .operand | .firstItem => false
  | .behindName | .operator => o.frames.all isBranch

/-- Whether some tokens lead to an end. -/
def accepts (o : Outline) : List Kind → Bool
  | [] => o.ends
  | t :: ts =>
    match o.step t with
    | none => false
    | some o => o.accepts ts

end Outline

/-! ## Outlines accept what the grammar derives -/

namespace Outline

theorem startsWith_singleton (d : Delimiter) (t : Kind) (ts : List Kind) :
    startsWith d (t :: ts) = startsWith d [t] := by
  cases t <;> rfl

theorem startsWithWord_singleton (word : String) (t : Kind) (ts : List Kind) :
    startsWithWord word (t :: ts) = startsWithWord word [t] := by
  cases t <;> rfl

/-- A token that ends an expression ends the conditionals inside it first. -/
theorem settle_append {t : Kind} (ht : startsWithWord "else" [t] = false) {branches : List Open}
    (hbranches : branches.all isBranch = true) (frames : List Open) :
    settle t (branches ++ frames) = settle t frames := by
  induction branches with
  | nil => rfl
  | cons b branches ih =>
    obtain ⟨hb, hmore⟩ := Bool.and_eq_true_iff.mp hbranches
    cases b with
    | consequent => simpa [settle, ht] using ih hmore
    | alternative => simpa [settle] using ih hmore
    | _ => cases hb

/-- An `else` goes to the innermost conditional that lacks one. -/
theorem settle_else {branches : List Open} (hbranches : branches.all isBranch = true)
    (frames : List Open) :
    ∃ more, more.all isBranch = true ∧
      settle (.identifier "else") (branches ++ .consequent :: frames) =
        some ⟨.alternative :: (more ++ frames), .operand⟩ := by
  induction branches with
  | nil => exact ⟨[], rfl, rfl⟩
  | cons b branches ih =>
    obtain ⟨hb, hmore⟩ := Bool.and_eq_true_iff.mp hbranches
    obtain ⟨more, hall, hsettle⟩ := ih hmore
    cases b with
    | consequent =>
      refine ⟨branches ++ [.consequent], ?_, ?_⟩
      · simp [hmore, isBranch]
      · simp [settle]
    | alternative => exact ⟨more, hall, hsettle⟩
    | _ => cases hb

/-- No expression ends with what only opens one. -/
theorem settle_paren (frames : List Open) : settle (.delimiter .parenOpen) frames = none := by
  induction frames with
  | nil => rfl
  | cons f frames ih =>
    cases f with
    | items square => cases square <;> rfl
    | consequent => exact ih
    | alternative => exact ih
    | _ => rfl

/-- Whatever may follow an operand may follow a name. -/
theorem accepts_behindName {frames : List Open} {ts : List Kind}
    (h : accepts ⟨frames, .operator⟩ ts = true) : accepts ⟨frames, .behindName⟩ ts = true := by
  cases ts with
  | nil => exact h
  | cons t ts =>
    have hparen : startsWith .parenOpen [t] = false := by
      cases t with
      | delimiter d =>
        cases d with
        | parenOpen => simp [accepts, step, takeOperator, settle_paren] at h
        | _ => rfl
      | _ => rfl
    have hstep : step ⟨frames, .behindName⟩ t = step ⟨frames, .operator⟩ t := by
      simp [step, hparen]
    rw [accepts, hstep]
    exact h

/-- Whatever may be an operand may be the first item. -/
theorem accepts_firstItem {square : Bool} {frames : List Open} {ts : List Kind}
    (h : accepts ⟨.items square :: frames, .operand⟩ ts = true) :
    accepts ⟨.items square :: frames, .firstItem⟩ ts = true := by
  cases ts with
  | nil => cases h
  | cons t ts =>
    have hcloser : startsWith (closer square) [t] = false := by
      cases t with
      | delimiter d =>
        cases square <;> cases d <;>
          first | rfl | simp [accepts, step, takeOperand] at h
      | _ => rfl
    have hstep : step ⟨.items square :: frames, .firstItem⟩ t =
        step ⟨.items square :: frames, .operand⟩ t := by
      simp [step, hcloser]
    rw [accepts, hstep]
    exact h

/-- Some tokens may follow the operand inside any number of conditionals. -/
def Follows (frames : List Open) (rest : List Kind) : Prop :=
  ∀ branches : List Open, branches.all isBranch = true →
    accepts ⟨branches ++ frames, .operator⟩ rest = true

theorem Follows.accepts {frames : List Open} {rest : List Kind} (h : Follows frames rest) :
    Outline.accepts ⟨frames, .operator⟩ rest = true :=
  h [] rfl

theorem Follows.branches {frames : List Open} {rest : List Kind} (h : Follows frames rest)
    (branches : List Open) (hbranches : branches.all isBranch = true) :
    Follows (branches ++ frames) rest := by
  intro more hmore
  rw [← List.append_assoc]
  exact h _ (by simp [hmore, hbranches])

/-- The tokens may end where only conditionals are open. -/
theorem follows_nil {frames : List Open} (h : frames.all isBranch = true) : Follows frames [] :=
  fun branches hbranches => by simp [Outline.accepts, ends, hbranches, h]

theorem follows_binary {op : BinaryOp} {frames : List Open} {ts : List Kind}
    (h : ∀ branches : List Open, branches.all isBranch = true →
      accepts ⟨branches ++ frames, .operand⟩ ts = true) :
    Follows frames (.operator (.binary op) :: ts) :=
  fun branches hbranches => h branches hbranches

theorem follows_postfixOps {ops : List Kind} (hops : ∀ t ∈ ops, Grammar.IsPostfixOp t)
    {frames : List Open} {rest : List Kind} (h : Follows frames rest) :
    Follows frames (ops ++ rest) := by
  induction ops with
  | nil => exact h
  | cons t ops ih =>
    intro branches hbranches
    obtain ⟨op, hop⟩ := hops t List.mem_cons_self
    have hrest := ih (fun t ht => hops t (List.mem_cons_of_mem _ ht)) branches hbranches
    simpa [Outline.accepts, step, takeOperator, hop] using hrest

/-- A token that settles the same frames inside any conditionals. -/
theorem follows_settle {t : Kind} (ht : startsWithWord "else" [t] = false)
    (hoperator : ∀ frames, takeOperator frames t = settle t frames) {frames : List Open}
    {o : Outline} (ho : settle t frames = some o) {ts : List Kind} (h : o.accepts ts = true) :
    Follows frames (t :: ts) := by
  intro branches hbranches
  simpa [Outline.accepts, step, hoperator, settle_append ht hbranches, ho] using h

end Outline

namespace Grammar

open Outline

theorem accepts_literal {t : Kind} (h : IsLiteral t) {frames : List Open} {rest : List Kind}
    (hrest : accepts ⟨frames, .operator⟩ rest = true) :
    accepts ⟨frames, .operand⟩ (t :: rest) = true := by
  cases h <;> exact hrest

theorem accepts_name {n : String} (h : isKeyword n = false) {frames : List Open}
    {rest : List Kind} (hrest : accepts ⟨frames, .behindName⟩ rest = true) :
    accepts ⟨frames, .operand⟩ (.identifier n :: rest) = true := by
  simp only [isKeyword, Bool.or_eq_false_iff, decide_eq_false_iff_not] at h
  simpa [accepts, step, takeOperand, h] using hrest

mutual

theorem IsExpr.accepts {ts : List Kind} : IsExpr ts → ∀ {frames : List Open} {rest : List Kind},
    Follows frames rest → Outline.accepts ⟨frames, .operand⟩ (ts ++ rest) = true
  | .term h, _, _, hrest => h.accepts hrest
  | .binary op hl hr, _, _, hrest => by
    rw [List.append_assoc, List.cons_append]
    refine hl.accepts (follows_binary fun branches hbranches => ?_)
    exact hr.accepts (hrest.branches branches hbranches)

theorem IsTerm.accepts {ts : List Kind} : IsTerm ts → ∀ {frames : List Open} {rest : List Kind},
    Follows frames rest → Outline.accepts ⟨frames, .operand⟩ (ts ++ rest) = true
  | .prefixOp (t := t) ht h, frames, rest, hrest => by
    have hmore := h.accepts hrest
    obtain _ | ⟨op, hop⟩ := ht
    · exact hmore
    · simpa [Outline.accepts, step, takeOperand, prefixOp?, hop] using hmore
  | .primary h hops, _, _, hrest => by
    rw [List.append_assoc]
    exact h.accepts (follows_postfixOps hops hrest)

theorem IsPrimary.accepts {ts : List Kind} :
    IsPrimary ts → ∀ {frames : List Open} {rest : List Kind},
    Follows frames rest → Outline.accepts ⟨frames, .operand⟩ (ts ++ rest) = true
  | .literal h, _, _, hrest => accepts_literal h hrest.accepts
  | .name h, _, _, hrest => accepts_name h (accepts_behindName hrest.accepts)
  | .call h hargs, _, _, hrest => by
    rw [List.cons_append, List.cons_append, List.append_assoc]
    exact accepts_name h (hargs.accepts false hrest)
  | .list hitems, _, _, hrest => by
    rw [List.cons_append, List.append_assoc]
    exact hitems.accepts true hrest
  | .group h, _, _, hrest => by
    rw [List.cons_append, List.append_assoc]
    exact h.accepts (follows_settle rfl (fun _ => rfl) rfl hrest.accepts)
  | .ifThen hc hx, _, _, hrest => by
    rw [List.cons_append, List.append_assoc]
    refine hc.accepts (follows_settle rfl (fun _ => rfl) rfl ?_)
    exact hx.accepts (hrest.branches [.consequent] rfl)
  | .ifElse hc hx he, frames, rest, hrest => by
    rw [List.cons_append, List.append_assoc, List.cons_append, List.append_assoc]
    refine hc.accepts (follows_settle rfl (fun _ => rfl) rfl ?_)
    refine hx.accepts fun branches hbranches => ?_
    -- the `else` may belong to a conditional inside the first branch
    obtain ⟨more, hmore, hsettle⟩ := settle_else hbranches frames
    have halternative := he.accepts (hrest.branches (.alternative :: more) hmore)
    simpa [Outline.accepts, step, takeOperator, hsettle] using halternative

theorem IsItems.accepts {ts : List Kind} : IsItems ts → ∀ (square : Bool) {frames : List Open}
    {rest : List Kind}, Follows frames rest →
    Outline.accepts ⟨.items square :: frames, .firstItem⟩
      (ts ++ .delimiter (closer square) :: rest) = true
  | .none, square, _, _, hrest => by cases square <;> exact hrest.accepts
  | .some h, square, _, _, hrest => accepts_firstItem (h.accepts square hrest)

theorem IsSeries.accepts {ts : List Kind} : IsSeries ts → ∀ (square : Bool) {frames : List Open}
    {rest : List Kind}, Follows frames rest →
    Outline.accepts ⟨.items square :: frames, .operand⟩
      (ts ++ .delimiter (closer square) :: rest) = true
  | .last h, square, _, _, hrest => by
    refine h.accepts ?_
    cases square <;> exact follows_settle rfl (fun _ => rfl) rfl hrest.accepts
  | .more h hs, square, _, _, hrest => by
    rw [List.append_assoc, List.cons_append]
    exact h.accepts (follows_settle rfl (fun _ => rfl) rfl (hs.accepts square hrest))

end

end Grammar

/-! ## Climbing reads what outlines accept -/

namespace Outline

/-- The reader reads something, and what is left may follow it. -/
def Reads (read : Option (α × List Kind)) (frames : List Open) : Prop :=
  ∃ a rest, read = some (a, rest) ∧ accepts ⟨frames, .operator⟩ rest = true

theorem Reads.map {read : Option (α × List Kind)} {frames : List Open} (h : Reads read frames)
    (f : α → β) : Reads (read.map fun p => (f p.1, p.2)) frames := by
  obtain ⟨a, rest, rfl, hrest⟩ := h
  exact ⟨f a, rest, rfl, hrest⟩

/-- Every level of fewer than `n` tokens that an outline accepts is read. -/
def ReadsLevels (n : Nat) : Prop :=
  ∀ (m : Nat) (frames : List Open) (ts : List Kind), ts.length < n →
    accepts ⟨frames, .operand⟩ ts = true → Reads (level m ts) frames

theorem reads_climb {n : Nat} (hlevel : ReadsLevels n) {m : Nat} {frames : List Open}
    {ts : List Kind} (hts : ts.length ≤ n) (left : Expr)
    (h : accepts ⟨frames, .operator⟩ ts = true) : Reads (climb m left ts) frames := by
  induction hlen : ts.length using Nat.strongRecOn generalizing left ts with
  | ind k ih =>
    subst hlen
    by_cases hstops : Stops m ts
    · exact ⟨left, ts, climb_of_stops hstops left, h⟩
    unfold Stops at hstops
    split at hstops
    · rename_i op ts
      have hop : m ≤ op.precedence := Nat.not_lt.mp hstops
      obtain ⟨right, rest, hright, hrest⟩ := hlevel op.rightRank frames ts hts h
      have hlt : rest.length < (Kind.operator (.binary op) :: ts).length :=
        Nat.lt_succ_of_lt (length_level hright)
      rw [climb_binary hop, hright, Option.bind_some]
      exact ih rest.length hlt (Nat.le_trans (Nat.le_of_lt hlt) hts) _ hrest rfl
    · rename_i op ts
      obtain ⟨hpost, hop⟩ := Classical.not_imp.mp hstops
      have hrest : accepts ⟨frames, .operator⟩ ts = true := by
        simpa [accepts, step, takeOperator, hpost] using h
      rw [climb_postfixOp hpost (Nat.not_lt.mp hop)]
      exact ih ts.length (Nat.lt_succ_self _) (Nat.le_of_succ_le hts) (.unary op left) hrest rfl
    · exact absurd trivial hstops

/-- Behind a complete expression the innermost frame decides. -/
theorem takeOperator_of_stops {t : Kind} {ts : List Kind} (hstops : Stops 0 (t :: ts))
    (frames : List Open) : takeOperator frames t = settle t frames := by
  cases t with
  | operator op =>
    rcases op with _ | op | op
    · rfl
    · exact absurd hstops (Nat.not_lt_zero _)
    · cases hpost : op.isPostfix with
      | false => simp [takeOperator, hpost]
      | true => exact absurd (hstops hpost) (Nat.not_lt_zero _)
  | _ => rfl

theorem settle_of_accepts {frames : List Open} {t : Kind} {ts : List Kind}
    (hstops : Stops 0 (t :: ts)) (h : accepts ⟨frames, .operator⟩ (t :: ts) = true) :
    ∃ o, settle t frames = some o ∧ o.accepts ts = true := by
  simp only [accepts, step, takeOperator_of_stops hstops] at h
  split at h
  · cases h
  · exact ⟨_, ‹_›, h⟩

/-- What ends a branch of a conditional ends the conditional, unless it is its `else`. -/
theorem accepts_of_branch {b : Open} (hb : isBranch b = true) {frames : List Open}
    {ts : List Kind} (hstops : Stops 0 ts)
    (helse : b = .consequent → startsWithWord "else" ts = false)
    (h : accepts ⟨b :: frames, .operator⟩ ts = true) :
    accepts ⟨frames, .operator⟩ ts = true := by
  rcases ts with _ | ⟨t, ts⟩
  · exact (Bool.and_eq_true_iff.mp h).2
  · have hsettle : settle t (b :: frames) = settle t frames := by
      cases b with
      | consequent =>
        have hword := helse rfl
        rw [startsWithWord_singleton] at hword
        simp [settle, hword]
      | alternative => rfl
      | _ => cases hb
    simpa [accepts, step, takeOperator_of_stops hstops, hsettle] using h

theorem reads_someItems {n : Nat} (hlevel : ReadsLevels n) {square : Bool} {frames : List Open}
    {ts : List Kind} (hts : ts.length < n)
    (h : accepts ⟨.items square :: frames, .operand⟩ ts = true) :
    Reads (someItems (closer square) ts) frames := by
  induction hlen : ts.length using Nat.strongRecOn generalizing ts with
  | ind k ih =>
    subst hlen
    obtain ⟨e, rest, he, hrest⟩ := hlevel 0 _ ts hts h
    have hlt := length_level he
    rw [someItems_eq, he, Option.bind_some]
    rcases rest with _ | ⟨t, rest⟩
    · cases hrest
    obtain ⟨o, ho, hmore⟩ := settle_of_accepts (stops_level he) hrest
    simp only [startsWith_singleton _ t rest, List.tail_cons]
    simp only [List.length_cons] at hlt
    simp only [settle] at ho
    split at ho
    · rename_i hcomma
      cases ho
      rw [if_pos hcomma]
      exact (ih rest.length (by omega) (by omega) hmore rfl).map (e :: ·)
    · rename_i hcomma
      split at ho
      · rename_i hcloser
        cases ho
        rw [if_neg hcomma, if_pos hcloser]
        exact ⟨[e], rest, rfl, hmore⟩
      · cases ho

theorem reads_items {n : Nat} (hlevel : ReadsLevels n) {square : Bool} {frames : List Open}
    {ts : List Kind} (hts : ts.length < n)
    (h : accepts ⟨.items square :: frames, .firstItem⟩ ts = true) :
    Reads (items (closer square) ts) frames := by
  rcases ts with _ | ⟨t, ts⟩
  · cases h
  rw [items.eq_def, startsWith_singleton]
  cases hcloser : startsWith (closer square) [t] with
  | true => exact ⟨[], ts, rfl, by simpa [accepts, step, hcloser] using h⟩
  | false =>
    have hoperand : accepts ⟨.items square :: frames, .operand⟩ (t :: ts) = true := by
      simpa [accepts, step, hcloser] using h
    exact reads_someItems hlevel hts hoperand

/-- Behind the condition of a conditional. -/
theorem reads_afterCondition {n : Nat} (hlevel : ReadsLevels n) {frames : List Open}
    {ts : List Kind} (hts : ts.length ≤ n) (hstops : Stops 0 ts) (condition : Expr)
    (h : accepts ⟨.condition :: frames, .operator⟩ ts = true) :
    Reads (afterCondition condition ts) frames := by
  rcases ts with _ | ⟨t, ts⟩
  · cases h
  obtain ⟨o, ho, hmore⟩ := settle_of_accepts hstops h
  simp only [settle] at ho
  split at ho
  · rename_i hthen
    cases ho
    obtain ⟨consequent, rest, hx, hrest⟩ := hlevel 0 _ ts hts hmore
    have hlt := length_level hx
    simp only [afterCondition, startsWithWord_singleton _ t ts, hthen, if_true, List.tail_cons, hx,
      Option.bind_some]
    cases helse : startsWithWord "else" rest with
    | false =>
      refine ⟨.ifThen condition consequent, rest, rfl, ?_⟩
      exact accepts_of_branch rfl (stops_level hx) (fun _ => helse) hrest
    | true =>
      rcases rest with _ | ⟨t', rest⟩
      · cases helse
      obtain ⟨o, ho, hmore⟩ := settle_of_accepts (stops_level hx) hrest
      rw [startsWithWord_singleton] at helse
      simp only [settle, helse, if_true] at ho
      cases ho
      simp only [List.length_cons] at hts hlt
      obtain ⟨alternative, rest', he, hrest'⟩ := hlevel 0 _ rest (by omega) hmore
      refine ⟨.ifElse condition consequent alternative, rest', by simp [he], ?_⟩
      exact accepts_of_branch (b := .alternative) rfl (stops_level he) (fun heq => by cases heq)
        hrest'
  · cases ho

theorem reads_identifier {n : Nat} (hlevel : ReadsLevels n) {frames : List Open} {name : String}
    {ts : List Kind} (hts : ts.length < n)
    (h : accepts ⟨frames, .operand⟩ (.identifier name :: ts) = true) :
    Reads (primary (.identifier name) ts) frames := by
  cases hkeyword : isKeyword name with
  | false =>
    rw [primary_identifier hkeyword]
    simp only [isKeyword, Bool.or_eq_false_iff, decide_eq_false_iff_not] at hkeyword
    have hname : accepts ⟨frames, .behindName⟩ ts = true := by
      simpa [accepts, step, takeOperand, hkeyword] using h
    cases hopen : startsWith .parenOpen ts with
    | true =>
      rcases ts with _ | ⟨t, ts⟩
      · cases hopen
      rw [startsWith_singleton] at hopen
      have hitems : accepts ⟨.items false :: frames, .firstItem⟩ ts = true := by
        simpa [accepts, step, hopen] using hname
      exact (reads_items hlevel (Nat.lt_of_succ_lt hts) hitems).map (Expr.call name)
    | false =>
      refine ⟨.name name, ts, rfl, ?_⟩
      rcases ts with _ | ⟨t, ts⟩
      · exact hname
      rw [startsWith_singleton] at hopen
      simpa [accepts, step, hopen] using hname
  | true =>
    simp only [isKeyword, Bool.or_eq_true, decide_eq_true_eq] at hkeyword
    rcases hkeyword with (((rfl | rfl) | rfl) | rfl) | rfl
    · obtain ⟨condition, rest, hc, hrest⟩ := hlevel 0 (.condition :: frames) ts hts h
      have hlt := length_level hc
      rw [primary_if, hc, Option.bind_some]
      exact reads_afterCondition hlevel (by omega) (stops_level hc) condition hrest
    · cases h
    · cases h
    · rw [primary.eq_def]
      exact ⟨_, ts, rfl, h⟩
    · rw [primary.eq_def]
      exact ⟨_, ts, rfl, h⟩

theorem reads_primary {n : Nat} (hlevel : ReadsLevels n) {frames : List Open} {t : Kind}
    {ts : List Kind} (hts : ts.length < n) (ht : prefixOp? t = none)
    (h : accepts ⟨frames, .operand⟩ (t :: ts) = true) : Reads (primary t ts) frames := by
  cases t with
  | identifier name => exact reads_identifier hlevel hts h
  | operator op => simp [accepts, step, takeOperand, ht] at h
  | delimiter d =>
    cases d with
    | parenOpen =>
      obtain ⟨e, rest, he, hrest⟩ := hlevel 0 (.group :: frames) ts hts h
      rcases rest with _ | ⟨t, rest⟩
      · cases hrest
      obtain ⟨o, ho, hmore⟩ := settle_of_accepts (stops_level he) hrest
      rw [primary_paren, he, Option.bind_some]
      simp only [startsWith_singleton _ t rest]
      simp only [settle] at ho
      split at ho
      · rename_i hclose
        cases ho
        exact ⟨e, rest, by simp [hclose], hmore⟩
      · cases ho
    | bracketOpen =>
      rw [primary_bracket]
      exact (reads_items hlevel hts h).map Expr.list
    | _ => cases h
  | _ =>
    rw [primary.eq_def]
    exact ⟨_, ts, rfl, h⟩

/-- Climbing reads what an outline accepts. -/
theorem level_of_accepts (n : Nat) : ReadsLevels n := by
  induction n with
  | zero => exact fun _ _ _ hts => absurd hts (Nat.not_lt_zero _)
  | succ n ih =>
    intro m frames ts hts h
    rcases ts with _ | ⟨t, ts⟩
    · cases h
    have hshort : ts.length < n := Nat.lt_of_succ_lt_succ hts
    cases hprefixOp : prefixOp? t with
    | none =>
      obtain ⟨e, rest, he, hrest⟩ := reads_primary ih hshort hprefixOp h
      have hlt := length_primary he
      rw [level_primary m hprefixOp, he, Option.bind_some]
      exact reads_climb ih (Nat.le_of_lt_succ (Nat.lt_trans hlt hts)) e hrest
    | some op =>
      have hoperand : accepts ⟨frames, .operand⟩ ts = true := by
        cases t with
        | operator op => simpa [accepts, step, takeOperand, hprefixOp] using h
        | _ => cases hprefixOp
      obtain ⟨e, rest, he, hrest⟩ := ih 8 frames ts hshort hoperand
      have hlt := length_level he
      rw [level_prefixOp m hprefixOp, he, Option.bind_some]
      exact reads_climb ih (Nat.le_of_lt (Nat.lt_trans hlt hshort)) (.unary op e) hrest

/-- Nothing is left of what an outline accepts from the start. -/
theorem level_of_accepts_start {ts : List Kind} (h : accepts {} ts = true) :
    ∃ e, level 0 ts = some (e, []) := by
  obtain ⟨e, rest, hlevel, hrest⟩ := level_of_accepts _ 0 [] ts (Nat.lt_succ_self _) h
  -- nothing is open, so that nothing but the end may follow
  rcases rest with _ | ⟨t, rest⟩
  · exact ⟨e, hlevel⟩
  · obtain ⟨o, ho, -⟩ := settle_of_accepts (stops_level hlevel) hrest
    cases ho

end Outline

/-! ## Climbing reads expressions of the grammar -/

namespace Grammar

/-- The tokens in front of the rest make up something with the property `p`. -/
def Consumes (p : List Kind → Prop) (ts rest : List Kind) : Prop :=
  ∃ used, ts = used ++ rest ∧ p used

/-- What is read from fewer than `n` tokens is an expression. -/
def DerivesLevels (n : Nat) : Prop :=
  ∀ (m : Nat) (ts : List Kind) (e : Expr) (rest : List Kind), ts.length < n →
    level m ts = some (e, rest) → Consumes IsExpr ts rest

/-- What is joined with an expression makes an expression with it. -/
theorem isExpr_of_climbReads {n : Nat} (hlevel : DerivesLevels n) {m : Nat} {left e : Expr}
    {ts rest : List Kind} (hts : ts.length ≤ n) (h : ClimbReads m left ts e rest) :
    Consumes (fun more => ∀ used, IsExpr used → IsExpr (used ++ more)) ts rest := by
  induction h with
  | stops => exact ⟨[], rfl, fun used hused => by rwa [List.append_nil]⟩
  | @binary op left right e ts behindRight rest hop hright h ih =>
    have hlt := length_level hright
    obtain ⟨us, rfl, hus⟩ := hlevel _ ts right behindRight hts hright
    obtain ⟨more, rfl, hmore⟩ := ih (Nat.le_trans (Nat.le_of_lt hlt) (Nat.le_of_lt hts))
    refine ⟨.operator (.binary op) :: us ++ more, by simp, fun used hused => ?_⟩
    rw [← List.append_assoc]
    exact hmore _ (IsExpr.append_binary op hus hused)
  | @postfixOp op left e ts rest hpost hop h ih =>
    obtain ⟨more, rfl, hmore⟩ := ih (Nat.le_of_lt hts)
    refine ⟨.operator (.unary op) :: more, rfl, fun used hused => ?_⟩
    rw [List.append_cons]
    exact hmore _ (hused.append_postfixOp (.suffix op hpost))

theorem isSeries_of_seriesReads {n : Nat} (hlevel : DerivesLevels n) {closer : Delimiter}
    {ts rest : List Kind} {es : List Expr} (hts : ts.length < n)
    (h : SeriesReads closer ts es rest) : Consumes IsSeries ts (.delimiter closer :: rest) := by
  induction h with
  | last he =>
    obtain ⟨us, rfl, hus⟩ := hlevel 0 _ _ _ hts he
    exact ⟨us, rfl, .last hus⟩
  | more he _ ih =>
    have hlt := Nat.lt_of_succ_lt (length_level he)
    obtain ⟨us, rfl, hus⟩ := hlevel 0 _ _ _ hts he
    obtain ⟨vs, rfl, hvs⟩ := ih (Nat.lt_trans hlt hts)
    exact ⟨us ++ .delimiter .comma :: vs, by simp, .more hus hvs⟩

theorem isItems_of_itemsReads {n : Nat} (hlevel : DerivesLevels n) {closer : Delimiter}
    {ts rest : List Kind} {es : List Expr} (hts : ts.length < n)
    (h : ItemsReads closer ts es rest) : Consumes IsItems ts (.delimiter closer :: rest) := by
  cases h with
  | none => exact ⟨[], rfl, .none⟩
  | some h =>
    obtain ⟨us, hus, hseries⟩ := isSeries_of_seriesReads hlevel hts h
    exact ⟨us, hus, .some hseries⟩

theorem isPrimary_of_primaryReads {n : Nat} (hlevel : DerivesLevels n) {t : Kind}
    {ts rest : List Kind} {e : Expr} (hts : ts.length < n) (h : PrimaryReads t ts e rest) :
    Consumes IsPrimary (t :: ts) rest := by
  cases h with
  | natural | decimal | roll | string | yes | no => exact ⟨[_], rfl, .literal (by constructor)⟩
  | name hn => exact ⟨[_], rfl, .name hn⟩
  | call hn hargs =>
    obtain ⟨us, rfl, hitems⟩ := isItems_of_itemsReads hlevel (Nat.lt_of_succ_lt hts) hargs
    exact ⟨_, by simp, .call hn hitems⟩
  | list hes =>
    obtain ⟨us, rfl, hitems⟩ := isItems_of_itemsReads hlevel hts hes
    exact ⟨_, by simp, .list hitems⟩
  | group he =>
    obtain ⟨us, rfl, hus⟩ := hlevel 0 _ _ _ hts he
    exact ⟨_, by simp, .group hus⟩
  | ifThen hc hx =>
    have hlt := Nat.lt_of_succ_lt (length_level hc)
    obtain ⟨cs, rfl, hcs⟩ := hlevel 0 _ _ _ hts hc
    obtain ⟨xs, rfl, hxs⟩ := hlevel 0 _ _ _ (Nat.lt_trans hlt hts) hx
    exact ⟨_, by simp, .ifThen hcs hxs⟩
  | ifElse hc hx hy =>
    have hlt := Nat.lt_of_succ_lt (length_level hc)
    have hlt' := Nat.lt_of_succ_lt (length_level hx)
    obtain ⟨cs, rfl, hcs⟩ := hlevel 0 _ _ _ hts hc
    obtain ⟨xs, rfl, hxs⟩ := hlevel 0 _ _ _ (Nat.lt_trans hlt hts) hx
    obtain ⟨es, rfl, hes⟩ := hlevel 0 _ _ _ (Nat.lt_trans hlt' (Nat.lt_trans hlt hts)) hy
    exact ⟨_, by simp, .ifElse hcs hxs hes⟩

/-- What climbing reads is an expression of the grammar. -/
theorem isExpr_of_level (n : Nat) : DerivesLevels n := by
  induction n with
  | zero => exact fun _ _ _ _ hts => absurd hts (Nat.not_lt_zero _)
  | succ n ih =>
    intro m ts e rest hts h
    cases levelReads_of_level h with
    | @prefixOp t op operand _ ts behindOperand _ hop ho hclimb =>
      have hshort : ts.length < n := Nat.lt_of_succ_lt_succ hts
      have hlt := length_level ho
      obtain ⟨us, rfl, hus⟩ := ih 8 ts operand behindOperand hshort ho
      have hrest : behindOperand.length ≤ n := Nat.le_of_lt (Nat.lt_trans hlt hshort)
      obtain ⟨more, rfl, hmore⟩ := isExpr_of_climbReads ih hrest hclimb
      have hsign : IsPrefixOp t := isPrefixOp_iff.mpr (by simp [hop])
      exact ⟨t :: us ++ more, by simp, hmore _ (hus.cons_prefixOp hsign)⟩
    | @primary t operand _ ts behindOperand _ _ ho hclimb =>
      have hshort : ts.length < n := Nat.lt_of_succ_lt_succ hts
      have hle := ho.length_le
      obtain ⟨us, hus, hprimary⟩ := isPrimary_of_primaryReads ih hshort ho
      have hrest : behindOperand.length ≤ n := Nat.le_trans hle (Nat.le_of_lt hshort)
      obtain ⟨more, rfl, hmore⟩ := isExpr_of_climbReads ih hrest hclimb
      have hterm : IsExpr us := .term (us.append_nil ▸ .primary hprimary nofun)
      exact ⟨us ++ more, by rw [hus, List.append_assoc], hmore us hterm⟩

/-- An outline accepts exactly what the grammar derives. -/
theorem isExpr_iff_accepts (ts : List Kind) : IsExpr ts ↔ Outline.accepts {} ts = true := by
  constructor
  · intro h
    simpa using h.accepts (Outline.follows_nil rfl)
  · intro h
    obtain ⟨e, hlevel⟩ := Outline.level_of_accepts_start h
    obtain ⟨us, rfl, hus⟩ := isExpr_of_level _ 0 ts _ _ (Nat.lt_succ_self _) hlevel
    rwa [List.append_nil]

/-- Climbing reads all tokens of a list exactly if the grammar derives it. -/
theorem isSome_parse_iff (ts : List Kind) : (Climb.parse ts).isSome = true ↔ IsExpr ts := by
  constructor
  · intro h
    obtain ⟨e, he⟩ := Option.isSome_iff_exists.mp h
    unfold Climb.parse at he
    split at he
    · rename_i hlevel
      obtain ⟨us, rfl, hus⟩ := isExpr_of_level _ 0 ts _ _ (Nat.lt_succ_self _) hlevel
      rwa [List.append_nil]
    · cases he
  · intro h
    obtain ⟨e, hlevel⟩ := Outline.level_of_accepts_start ((isExpr_iff_accepts ts).mp h)
    simp [Climb.parse, hlevel]

end Grammar

namespace Arena

/-- The parser accepts exactly the lists of tokens that the grammar derives. -/
theorem parse_succeeds_iff_derivable (tokens : List Token) :
    (∃ a, parse tokens = .ok a) ↔ Grammar.IsExpr (tokens.map Token.kind) := by
  rw [← Grammar.isSome_parse_iff]
  have heq := parse_eq tokens
  cases hread : Climb.parse (tokens.map Token.kind) with
  | none =>
    rw [hread] at heq
    obtain ⟨err, herr⟩ := heq
    simp [herr]
  | some e =>
    rw [hread] at heq
    simp [heq]

end Arena

end DiceTome
