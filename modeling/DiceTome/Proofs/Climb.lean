import DiceTome.Expr
import DiceTome.Token

/-!
# Precedence climbing

A second reading of tokens, by recursion over ranks instead of stacks. `level m` reads an operand,
which is a primary or a prefix operator applied to what `level 8` reads, and then joins it with
every operator of rank `m` or more that follows: a binary operator takes a right operand of its own
rank or of the next one, depending on how it groups, and a postfix operator takes all that was read
before it. Parentheses, arguments, list items and the parts of a conditional are read by `level 0`.

* `Climb.level`, `Climb.climb`, `Climb.primary` and `Climb.items` are the readers.
* `Climb.parse` reads one expression that uses every token.
* `Climb.LevelReads`, `Climb.ClimbReads`, `Climb.PrimaryReads` and `Climb.ItemsReads` say once what
  the readers have read if they succeed.
* `Climb.level_prefixOp`, `Climb.climb_binary` and the other equations say what each reader does
  without the bookkeeping that makes it end.
* `Climb.stops_level`: what follows a level cannot go on with it.
-/

namespace DiceTome

/-- The least rank of an operator inside the right operand. -/
def BinaryOp.rightRank (op : BinaryOp) : Nat :=
  if op.leftAssociative then op.precedence + 1 else op.precedence

namespace Climb

open Token (Kind)

/-- The prefix operator that a token stands for where an operand is due. -/
def prefixOp? : Kind → Option UnaryOp
  | .operator (.binary .sub) => some .neg
  | .operator (.unary op) => if op.isPostfix then none else some op
  | _ => none

/-- Whether the first token is the given delimiter. -/
def startsWith (d : Delimiter) : List Kind → Bool
  | .delimiter e :: _ => e = d
  | _ => false

/-- Whether the first token is the given word. -/
def startsWithWord (word : String) : List Kind → Bool
  | .identifier n :: _ => n = word
  | _ => false

@[simp]
theorem startsWithWord_cons (word : String) (ts : List Kind) :
    startsWithWord word (.identifier word :: ts) = true := by
  simp [startsWithWord]

theorem eq_cons_of_startsWith {d : Delimiter} {ts : List Kind} (h : startsWith d ts = true) :
    ts = .delimiter d :: ts.tail := by
  unfold startsWith at h
  split at h
  · rw [of_decide_eq_true h]
    rfl
  · cases h

theorem eq_cons_of_startsWithWord {word : String} {ts : List Kind}
    (h : startsWithWord word ts = true) : ts = .identifier word :: ts.tail := by
  unfold startsWithWord at h
  split at h
  · rw [of_decide_eq_true h]
    rfl
  · cases h

/-- Goes on behind a part that has been read. What is left has to be shorter than what there was;
the readers always grant that, and the test makes them end. -/
def behind (ts : List Kind) (part : Option (α × List Kind))
    (next : α → (rest : List Kind) → rest.length < ts.length → Option β) : Option β :=
  match part with
  | none => none
  | some (a, rest) => if h : rest.length < ts.length then next a rest h else none

mutual

/-- Reads an operand and every operator of at least the given rank behind it. -/
def level (m : Nat) (ts : List Kind) : Option (Expr × List Kind) :=
  match ts with
  | [] => none
  | t :: ts =>
    match prefixOp? t with
    | some op => behind (t :: ts) (level 8 ts) fun e rest _ => climb m (.unary op e) rest
    | none => behind (t :: ts) (primary t ts) fun e rest _ => climb m e rest
termination_by (ts.length, 2)

/-- Joins what has been read with every operator of at least the given rank that follows. -/
def climb (m : Nat) (left : Expr) (ts : List Kind) : Option (Expr × List Kind) :=
  match ts with
  | .operator (.binary op) :: ts =>
    if m ≤ op.precedence then
      behind (.operator (.binary op) :: ts) (level op.rightRank ts) fun right rest _ =>
        climb m (.binary op left right) rest
    else some (left, .operator (.binary op) :: ts)
  | .operator (.unary op) :: ts =>
    if op.isPostfix ∧ m ≤ op.precedence then climb m (.unary op left) ts
    else some (left, .operator (.unary op) :: ts)
  | ts => some (left, ts)
termination_by (ts.length, 0)

/-- Reads an operand that starts with the token `t` and has no operator in front. -/
def primary (t : Kind) (ts : List Kind) : Option (Expr × List Kind) :=
  match t with
  | .natural n => some (.literal (.natural n), ts)
  | .decimal x => some (.literal (.decimal x), ts)
  | .roll quantity die => some (.literal (.roll quantity die), ts)
  | .string text => some (.literal (.string text), ts)
  | .identifier "if" =>
    behind (t :: ts) (level 0 ts) fun condition rest _ =>
      if startsWithWord "then" rest then
        behind (t :: ts) (level 0 rest.tail) fun consequent rest _ =>
          if startsWithWord "else" rest then
            (level 0 rest.tail).map fun p => (.ifElse condition consequent p.1, p.2)
          else some (.ifThen condition consequent, rest)
      else none
  | .identifier "then" | .identifier "else" => none
  | .identifier "true" => some (.literal (.bool true), ts)
  | .identifier "false" => some (.literal (.bool false), ts)
  | .identifier n =>
    if startsWith .parenOpen ts then
      (items .parenClose ts.tail).map fun p => (.call n p.1, p.2)
    else some (.name n, ts)
  | .delimiter .parenOpen =>
    (level 0 ts).bind fun p =>
      if startsWith .parenClose p.2 then some (p.1, p.2.tail) else none
  | .delimiter .bracketOpen => (items .bracketClose ts).map fun p => (.list p.1, p.2)
  | _ => none
termination_by (ts.length + 1, 1)
decreasing_by
  all_goals simp only [Prod.lex_def, List.length_cons, List.length_tail] at *
  all_goals omega

/-- Reads expressions with commas between them up to the closing delimiter, or no expression. -/
def items (closer : Delimiter) (ts : List Kind) : Option (List Expr × List Kind) :=
  if startsWith closer ts then some ([], ts.tail) else someItems closer ts
termination_by (ts.length, 4)

/-- Reads at least one expression. -/
def someItems (closer : Delimiter) (ts : List Kind) : Option (List Expr × List Kind) :=
  behind ts (level 0 ts) fun e rest _ =>
    if startsWith .comma rest then
      (someItems closer rest.tail).map fun p => (e :: p.1, p.2)
    else if startsWith closer rest then some ([e], rest.tail)
    else none
termination_by (ts.length, 3)
decreasing_by
  · decreasing_tactic
  · simp only [Prod.lex_def, List.length_tail] at *
    omega

end

/-- Reads one expression that uses every token. -/
def parse (ts : List Kind) : Option Expr :=
  match level 0 ts with
  | some (e, []) => some e
  | _ => none

/-! ## What is left is shorter -/

theorem length_of_behind {ts : List Kind} {part : Option (α × List Kind)}
    {next : α → (rest : List Kind) → rest.length < ts.length → Option β} {b : β}
    (h : behind ts part next = some b) :
    ∃ a rest, ∃ hlt : rest.length < ts.length, part = some (a, rest) ∧ next a rest hlt = some b := by
  unfold behind at h
  split at h
  · cases h
  · rename_i a rest
    split at h
    · rename_i hlt
      exact ⟨a, rest, hlt, rfl, h⟩
    · cases h

theorem length_climb {m : Nat} {left e : Expr} {ts rest : List Kind}
    (h : climb m left ts = some (e, rest)) : rest.length ≤ ts.length := by
  induction hn : ts.length using Nat.strongRecOn generalizing left ts with
  | ind n ih =>
    subst hn
    rw [climb.eq_def] at h
    split at h
    · split at h
      · obtain ⟨right, behindRight, hlt, -, hnext⟩ := length_of_behind h
        exact Nat.le_trans (ih _ hlt hnext rfl) (Nat.le_of_lt hlt)
      · cases h
        exact Nat.le_refl _
    · split at h
      · exact Nat.le_trans (ih _ (by simp) h rfl) (by simp)
      · cases h
        exact Nat.le_refl _
    · cases h
      exact Nat.le_refl _

theorem length_level {m : Nat} {e : Expr} {ts rest : List Kind}
    (h : level m ts = some (e, rest)) : rest.length < ts.length := by
  rw [level.eq_def] at h
  split at h
  · cases h
  · split at h <;>
    · obtain ⟨_, _, hlt, -, hnext⟩ := length_of_behind h
      exact Nat.lt_of_le_of_lt (length_climb hnext) hlt

/-! ## What has been read -/

/-- Whether the tokens cannot go on with an expression that joins operators of the given rank. -/
def Stops (m : Nat) : List Kind → Prop
  | .operator (.binary op) :: _ => op.precedence < m
  | .operator (.unary op) :: _ => op.isPostfix → op.precedence < m
  | _ => True

/-- How an expression is joined with the operators behind it. -/
inductive ClimbReads (m : Nat) : Expr → List Kind → Expr → List Kind → Prop
  | stops {left : Expr} {ts : List Kind} (h : Stops m ts) : ClimbReads m left ts left ts
  | binary {op : BinaryOp} {left right e : Expr} {ts behindRight rest : List Kind}
    (hop : m ≤ op.precedence) (hright : level op.rightRank ts = some (right, behindRight))
    (h : ClimbReads m (.binary op left right) behindRight e rest) :
    ClimbReads m left (.operator (.binary op) :: ts) e rest
  | postfixOp {op : UnaryOp} {left e : Expr} {ts rest : List Kind} (hpost : op.isPostfix = true)
    (hop : m ≤ op.precedence) (h : ClimbReads m (.unary op left) ts e rest) :
    ClimbReads m left (.operator (.unary op) :: ts) e rest

theorem climbReads_of_climb {m : Nat} {left e : Expr} {ts rest : List Kind}
    (h : climb m left ts = some (e, rest)) : ClimbReads m left ts e rest := by
  induction hn : ts.length using Nat.strongRecOn generalizing left ts with
  | ind n ih =>
    subst hn
    rw [climb.eq_def] at h
    split at h
    · split at h
      · obtain ⟨right, behindRight, hlt, hright, hnext⟩ := length_of_behind h
        exact .binary ‹_› hright (ih _ hlt hnext rfl)
      · cases h
        exact .stops (Nat.not_le.mp ‹_›)
    · split at h
      · rename_i hop
        exact .postfixOp hop.1 hop.2 (ih _ (by simp) h rfl)
      · cases h
        rename_i hop
        exact .stops fun hp => Nat.not_le.mp fun hle => hop ⟨hp, hle⟩
    · cases h
      rename_i hbinary hunary
      refine .stops ?_
      unfold Stops
      split
      · exact absurd rfl (hbinary _ _)
      · exact absurd rfl (hunary _ _)
      · trivial

/-- How at least one expression is read up to the closing delimiter. -/
inductive SeriesReads (closer : Delimiter) : List Kind → List Expr → List Kind → Prop
  | last {e : Expr} {ts rest : List Kind} (he : level 0 ts = some (e, .delimiter closer :: rest)) :
    SeriesReads closer ts [e] rest
  | more {e : Expr} {es : List Expr} {ts later rest : List Kind}
    (he : level 0 ts = some (e, .delimiter .comma :: later))
    (hes : SeriesReads closer later es rest) : SeriesReads closer ts (e :: es) rest

theorem seriesReads_of_someItems {closer : Delimiter} {es : List Expr} {ts rest : List Kind}
    (h : someItems closer ts = some (es, rest)) : SeriesReads closer ts es rest := by
  induction hn : ts.length using Nat.strongRecOn generalizing es ts with
  | ind n ih =>
    subst hn
    rw [someItems.eq_def] at h
    obtain ⟨e, behindItem, hlt, he, hnext⟩ := length_of_behind h
    split at hnext
    · rename_i hcomma
      obtain ⟨⟨es', rest'⟩, hmore, hpair⟩ := Option.map_eq_some_iff.mp hnext
      cases hpair
      rw [eq_cons_of_startsWith hcomma] at he hlt
      exact .more he (ih _ (Nat.lt_of_succ_lt hlt) hmore rfl)
    · split at hnext
      · rename_i hclose
        cases hnext
        exact .last (he.trans (by rw [← eq_cons_of_startsWith hclose]))
      · cases hnext

theorem SeriesReads.length_lt {closer : Delimiter} {es : List Expr} {ts rest : List Kind}
    (h : SeriesReads closer ts es rest) : rest.length < ts.length := by
  induction h with
  | last he => exact Nat.lt_of_succ_lt (length_level he)
  | more he _ ih => exact Nat.lt_trans ih (Nat.lt_of_succ_lt (length_level he))

/-- How expressions with commas between them are read up to the closing delimiter. -/
inductive ItemsReads (closer : Delimiter) : List Kind → List Expr → List Kind → Prop
  | none (rest : List Kind) : ItemsReads closer (.delimiter closer :: rest) [] rest
  | some {es : List Expr} {ts rest : List Kind} (h : SeriesReads closer ts es rest) :
    ItemsReads closer ts es rest

theorem itemsReads_of_items {closer : Delimiter} {es : List Expr} {ts rest : List Kind}
    (h : items closer ts = some (es, rest)) : ItemsReads closer ts es rest := by
  rw [items.eq_def] at h
  split at h
  · rename_i hclose
    cases h
    rw [eq_cons_of_startsWith hclose]
    exact .none _
  · exact .some (seriesReads_of_someItems h)

theorem ItemsReads.length_le {closer : Delimiter} {es : List Expr} {ts rest : List Kind}
    (h : ItemsReads closer ts es rest) : rest.length ≤ ts.length := by
  cases h with
  | none => exact Nat.le_succ _
  | some h => exact Nat.le_of_lt h.length_lt

/-- The words that are no names. -/
def isKeyword (n : String) : Bool :=
  n = "if" || n = "then" || n = "else" || n = "true" || n = "false"

/-- How an operand that starts with a token is read, unless an operator stands in front. -/
inductive PrimaryReads : Kind → List Kind → Expr → List Kind → Prop
  | natural (n : Nat) (ts : List Kind) : PrimaryReads (.natural n) ts (.literal (.natural n)) ts
  | decimal (x : Float) (ts : List Kind) : PrimaryReads (.decimal x) ts (.literal (.decimal x)) ts
  | roll (quantity die : Nat) (ts : List Kind) :
    PrimaryReads (.roll quantity die) ts (.literal (.roll quantity die)) ts
  | string (text : String) (ts : List Kind) :
    PrimaryReads (.string text) ts (.literal (.string text)) ts
  | yes (ts : List Kind) : PrimaryReads (.identifier "true") ts (.literal (.bool true)) ts
  | no (ts : List Kind) : PrimaryReads (.identifier "false") ts (.literal (.bool false)) ts
  | name {n : String} (hn : isKeyword n = false) (ts : List Kind) :
    PrimaryReads (.identifier n) ts (.name n) ts
  | call {n : String} {args : List Expr} {ts rest : List Kind} (hn : isKeyword n = false)
    (hargs : ItemsReads .parenClose ts args rest) :
    PrimaryReads (.identifier n) (.delimiter .parenOpen :: ts) (.call n args) rest
  | list {es : List Expr} {ts rest : List Kind} (hitems : ItemsReads .bracketClose ts es rest) :
    PrimaryReads (.delimiter .bracketOpen) ts (.list es) rest
  | group {e : Expr} {ts rest : List Kind}
    (he : level 0 ts = some (e, .delimiter .parenClose :: rest)) :
    PrimaryReads (.delimiter .parenOpen) ts e rest
  | ifThen {c x : Expr} {ts consequent rest : List Kind}
    (hc : level 0 ts = some (c, .identifier "then" :: consequent))
    (hx : level 0 consequent = some (x, rest)) :
    PrimaryReads (.identifier "if") ts (.ifThen c x) rest
  | ifElse {c x y : Expr} {ts consequent alternative rest : List Kind}
    (hc : level 0 ts = some (c, .identifier "then" :: consequent))
    (hx : level 0 consequent = some (x, .identifier "else" :: alternative))
    (hy : level 0 alternative = some (y, rest)) :
    PrimaryReads (.identifier "if") ts (.ifElse c x y) rest

theorem primaryReads_of_if {t : Kind} {e : Expr} {ts rest : List Kind}
    (h : (behind (t :: ts) (level 0 ts) fun condition rest _ =>
      if startsWithWord "then" rest then
        behind (t :: ts) (level 0 rest.tail) fun consequent rest _ =>
          if startsWithWord "else" rest then
            (level 0 rest.tail).map fun p => (.ifElse condition consequent p.1, p.2)
          else some (.ifThen condition consequent, rest)
      else none) = some (e, rest)) : PrimaryReads (.identifier "if") ts e rest := by
  obtain ⟨c, rest₁, -, hc, hthen⟩ := length_of_behind h
  split at hthen
  · rename_i hword
    obtain ⟨x, rest₂, -, hx, helse⟩ := length_of_behind hthen
    rw [eq_cons_of_startsWithWord hword] at hc
    split at helse
    · rename_i hword
      obtain ⟨⟨y, rest₃⟩, hy, hpair⟩ := Option.map_eq_some_iff.mp helse
      cases hpair
      rw [eq_cons_of_startsWithWord hword] at hx
      exact .ifElse hc hx hy
    · cases helse
      exact .ifThen hc hx
  · cases hthen

theorem primaryReads_of_primary {t : Kind} {e : Expr} {ts rest : List Kind}
    (h : primary t ts = some (e, rest)) : PrimaryReads t ts e rest := by
  rw [primary.eq_def] at h
  split at h
  case h_1 | h_2 | h_3 | h_4 | h_8 | h_9 =>
    cases h
    constructor
  case h_5 => exact primaryReads_of_if h
  case h_10 n hif hthen helse htrue hfalse =>
    have hn : isKeyword n = false := by simp_all [isKeyword]
    split at h
    · rename_i hopen
      obtain ⟨⟨args, rest'⟩, hargs, hpair⟩ := Option.map_eq_some_iff.mp h
      cases hpair
      rw [eq_cons_of_startsWith hopen]
      exact .call hn (itemsReads_of_items hargs)
    · cases h
      exact .name hn _
  case h_11 =>
    obtain ⟨⟨inner, rest'⟩, hinner, hclose⟩ := Option.bind_eq_some_iff.mp h
    split at hclose
    · rename_i hcloser
      cases hclose
      exact .group (hinner.trans (by rw [← eq_cons_of_startsWith hcloser]))
    · cases hclose
  case h_12 =>
    obtain ⟨⟨es, rest'⟩, hitems, hpair⟩ := Option.map_eq_some_iff.mp h
    cases hpair
    exact .list (itemsReads_of_items hitems)
  all_goals cases h

theorem PrimaryReads.length_le {t : Kind} {e : Expr} {ts rest : List Kind}
    (h : PrimaryReads t ts e rest) : rest.length ≤ ts.length := by
  cases h with
  | natural | decimal | roll | string | yes | no | name => exact Nat.le_refl _
  | call _ hargs => exact Nat.le_succ_of_le hargs.length_le
  | list hitems => exact hitems.length_le
  | group he => exact Nat.le_of_lt (Nat.lt_of_succ_lt (length_level he))
  | ifThen hc hx =>
    have hlt := length_level hc
    have hlt' := length_level hx
    simp only [List.length_cons] at hlt
    omega
  | ifElse hc hx hy =>
    have hlt := length_level hc
    have hlt' := length_level hx
    have hlt'' := length_level hy
    simp only [List.length_cons] at hlt hlt'
    omega

theorem length_primary {t : Kind} {e : Expr} {ts rest : List Kind}
    (h : primary t ts = some (e, rest)) : rest.length < (t :: ts).length :=
  Nat.lt_succ_of_le (primaryReads_of_primary h).length_le

/-- How an operand and the operators behind it are read. -/
inductive LevelReads (m : Nat) : List Kind → Expr → List Kind → Prop
  | prefixOp {t : Kind} {op : UnaryOp} {operand e : Expr} {ts behindOperand rest : List Kind}
    (hop : prefixOp? t = some op) (ho : level 8 ts = some (operand, behindOperand))
    (h : ClimbReads m (.unary op operand) behindOperand e rest) : LevelReads m (t :: ts) e rest
  | primary {t : Kind} {operand e : Expr} {ts behindOperand rest : List Kind}
    (ht : prefixOp? t = none) (ho : PrimaryReads t ts operand behindOperand)
    (h : ClimbReads m operand behindOperand e rest) : LevelReads m (t :: ts) e rest

theorem levelReads_of_level {m : Nat} {e : Expr} {ts rest : List Kind}
    (h : level m ts = some (e, rest)) : LevelReads m ts e rest := by
  rw [level.eq_def] at h
  split at h
  · cases h
  · split at h
    · obtain ⟨operand, behindOperand, -, ho, hnext⟩ := length_of_behind h
      exact .prefixOp ‹_› ho (climbReads_of_climb hnext)
    · obtain ⟨operand, behindOperand, -, ho, hnext⟩ := length_of_behind h
      exact .primary ‹_› (primaryReads_of_primary ho) (climbReads_of_climb hnext)

/-- What follows a climb cannot go on with it. -/
theorem ClimbReads.stops_rest {m : Nat} {left e : Expr} {ts rest : List Kind}
    (h : ClimbReads m left ts e rest) : Stops m rest := by
  induction h with
  | stops h => exact h
  | binary _ _ _ ih | postfixOp _ _ _ ih => exact ih

theorem stops_level {m : Nat} {e : Expr} {ts rest : List Kind}
    (h : level m ts = some (e, rest)) : Stops m rest := by
  cases levelReads_of_level h with
  | prefixOp _ _ h | primary _ _ h => exact h.stops_rest

/-! ## Equations -/

theorem behind_eq_bind {ts : List Kind} {part : Option (α × List Kind)}
    (h : ∀ a rest, part = some (a, rest) → rest.length < ts.length)
    (next : α → List Kind → Option β) :
    behind ts part (fun a rest _ => next a rest) = part.bind fun p => next p.1 p.2 := by
  unfold behind
  cases part with
  | none => rfl
  | some p => simp [h p.1 p.2 rfl]

@[simp]
theorem level_nil (m : Nat) : level m [] = none := by
  rw [level.eq_def]

theorem level_prefixOp (m : Nat) {t : Kind} {op : UnaryOp} (h : prefixOp? t = some op)
    (ts : List Kind) :
    level m (t :: ts) = (level 8 ts).bind fun p => climb m (.unary op p.1) p.2 := by
  rw [level.eq_def]
  simp only [h]
  refine behind_eq_bind (fun a rest hr => ?_) fun e rest => climb m (.unary op e) rest
  exact Nat.lt_succ_of_lt (length_level hr)

theorem level_primary (m : Nat) {t : Kind} (h : prefixOp? t = none) (ts : List Kind) :
    level m (t :: ts) = (primary t ts).bind fun p => climb m p.1 p.2 := by
  rw [level.eq_def]
  simp only [h]
  exact behind_eq_bind (fun a rest hr => length_primary hr) fun e rest => climb m e rest

theorem climb_binary {m : Nat} {op : BinaryOp} (h : m ≤ op.precedence) (left : Expr)
    (ts : List Kind) :
    climb m left (.operator (.binary op) :: ts) =
      (level op.rightRank ts).bind fun p => climb m (.binary op left p.1) p.2 := by
  rw [climb.eq_def]
  simp only [h, if_true]
  refine behind_eq_bind (fun a rest hr => ?_) fun right rest => climb m (.binary op left right) rest
  exact Nat.lt_succ_of_lt (length_level hr)

theorem climb_postfixOp {m : Nat} {op : UnaryOp} (hp : op.isPostfix) (h : m ≤ op.precedence)
    (left : Expr) (ts : List Kind) :
    climb m left (.operator (.unary op) :: ts) = climb m (.unary op left) ts := by
  rw [climb.eq_def]
  simp [hp, h]

theorem climb_of_stops {m : Nat} {ts : List Kind} (h : Stops m ts) (left : Expr) :
    climb m left ts = some (left, ts) := by
  rw [climb.eq_def]
  split
  · rw [if_neg (Nat.not_le.mpr h)]
  · rw [if_neg fun hop => Nat.not_le.mpr (h hop.1) hop.2]
  · rfl

/-- A level that joins fewer operators stops where one that joins more does. -/
theorem Stops.mono {m n : Nat} {ts : List Kind} (h : Stops m ts) (hmn : m ≤ n) : Stops n ts := by
  unfold Stops at *
  split
  · exact Nat.lt_of_lt_of_le h hmn
  · exact fun hp => Nat.lt_of_lt_of_le (h hp) hmn
  · trivial

/-- What is read behind the condition of a conditional. -/
def afterCondition (condition : Expr) (ts : List Kind) : Option (Expr × List Kind) :=
  if startsWithWord "then" ts then
    (level 0 ts.tail).bind fun p =>
      if startsWithWord "else" p.2 then
        (level 0 p.2.tail).map fun q => (.ifElse condition p.1 q.1, q.2)
      else some (.ifThen condition p.1, p.2)
  else none

theorem primary_if (ts : List Kind) :
    primary (.identifier "if") ts = (level 0 ts).bind fun p => afterCondition p.1 p.2 := by
  rw [primary.eq_def]
  simp only
  cases hc : level 0 ts with
  | none => rfl
  | some p =>
    obtain ⟨condition, rest⟩ := p
    have hlt := length_level hc
    have htail := List.length_tail (l := rest)
    simp only [behind, List.length_cons, Nat.lt_succ_of_lt hlt, dite_true, Option.bind_some,
      afterCondition]
    cases hx : level 0 rest.tail with
    | none => rfl
    | some q =>
      have hlt' : q.2.length < ts.length + 1 := by
        have := length_level hx
        omega
      simp only [hlt', dite_true, Option.bind_some]

theorem primary_identifier {n : String} (h : isKeyword n = false) (ts : List Kind) :
    primary (.identifier n) ts =
      if startsWith .parenOpen ts then
        (items .parenClose ts.tail).map fun p => (.call n p.1, p.2)
      else some (.name n, ts) := by
  rw [primary.eq_def]
  split <;> simp_all [isKeyword]

theorem primary_paren (ts : List Kind) :
    primary (.delimiter .parenOpen) ts = (level 0 ts).bind fun p =>
      if startsWith .parenClose p.2 then some (p.1, p.2.tail) else none := by
  rw [primary.eq_def]

theorem primary_bracket (ts : List Kind) :
    primary (.delimiter .bracketOpen) ts =
      (items .bracketClose ts).map fun p => (.list p.1, p.2) := by
  rw [primary.eq_def]

theorem someItems_eq (closer : Delimiter) (ts : List Kind) :
    someItems closer ts = (level 0 ts).bind fun p =>
      if startsWith .comma p.2 then
        (someItems closer p.2.tail).map fun q => (p.1 :: q.1, q.2)
      else if startsWith closer p.2 then some ([p.1], p.2.tail)
      else none := by
  rw [someItems.eq_def]
  exact behind_eq_bind (fun a rest hr => length_level hr) fun e rest =>
    if startsWith .comma rest then (someItems closer rest.tail).map fun q => (e :: q.1, q.2)
    else if startsWith closer rest then some ([e], rest.tail)
    else none

end Climb

end DiceTome
