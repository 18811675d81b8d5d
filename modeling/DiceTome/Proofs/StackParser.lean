import DiceTome.Arena.Parse
import DiceTome.Proofs.Climb
import DiceTome.Proofs.Plant

/-!
# The stack parser climbs

The parser with two stacks reads the same expressions as the readers of `Climb`. A tree that
`Climb.level m` reads is left on the stacks as an operand and some pending operators; whatever
follows makes the parser reduce all of them, since it cannot go on with the level. So a run from
behind the tree is the same run as with the finished tree as the only new operand, which is how
every lemma here states it.

* `Parse.Work.reduceWhile_binary`, `Parse.Work.reduceWhile_unary`: one pending operator is reduced.
* `Parse.State.meets_level`: reading a level is running the parser to the end of it.
* `Arena.parse_eq`: the parser gives the listing of the tree that climbing reads.
-/

namespace DiceTome

namespace Parse

open Token (Kind)
open Climb

namespace Work

/-- Makes a tree an operand. -/
def pushTree (w : Work) (e : Expr) : Work :=
  ⟨e.plant w.arena, w.stack.operators, (e.plant w.arena).root :: w.stack.operands⟩

@[simp]
theorem arena_fresh (w : Work) : w.fresh.arena = w.arena :=
  rfl

@[simp]
theorem arena_pushTree (w : Work) (e : Expr) : (w.pushTree e).arena = e.plant w.arena :=
  rfl

@[simp]
theorem top_pushTree (w : Work) (e : Expr) : (w.pushTree e).top = .ok (e.plant w.arena).root :=
  rfl

/-! ## Reducing pending operators -/

/-- The operators of the work itself do not matter to a reduction, which is given them apart. -/
theorem reduceFrom_congr {p : Operator → Bool} {ops : List Operator} {w v : Work}
    (ha : w.arena = v.arena) (ho : w.stack.operands = v.stack.operands) :
    reduceFrom p ops w = reduceFrom p ops v := by
  induction ops generalizing w v with
  | nil => rfl
  | cons top ops ih =>
    obtain ⟨a, ⟨wops, operands⟩⟩ := w
    obtain ⟨b, ⟨vops, operands'⟩⟩ := v
    cases ha
    cases ho
    unfold reduceFrom
    split
    · rcases top with _ | op | op
      · rfl
      · rcases operands with _ | ⟨rhs, _ | ⟨lhs, rest⟩⟩
        · rfl
        · rfl
        · exact ih rfl rfl
      · rcases operands with _ | ⟨operand, rest⟩
        · rfl
        · exact ih rfl rfl
    · rfl

theorem reduceWhile_binary {p : Operator → Bool} {op : BinaryOp} (hp : p (.binary op) = true)
    (w : Work) (lhs rhs : Expr) :
    (((w.pushTree lhs).pushOperator (.binary op)).pushTree rhs).reduceWhile p =
      (w.pushTree (.binary op lhs rhs)).reduceWhile p := by
  simp only [reduceWhile, pushTree, pushOperator, reduceFrom, hp, if_true]
  refine reduceFrom_congr rfl ?_
  simp [pushNode, Expr.plant]

theorem reduceWhile_unary {p : Operator → Bool} {op : UnaryOp} (hp : p (.unary op) = true)
    (w : Work) (operand : Expr) :
    ((w.pushOperator (.unary op)).pushTree operand).reduceWhile p =
      (w.pushTree (.unary op operand)).reduceWhile p := by
  simp only [reduceWhile, pushTree, pushOperator, reduceFrom, hp, if_true]
  refine reduceFrom_congr rfl ?_
  simp [pushNode, Expr.plant]

/-- Nothing is reduced below an operator that does not ask for it. -/
theorem reduceWhile_of_top {p : Operator → Bool} {w : Work} {top : Operator}
    {ops : List Operator} (hw : w.stack.operators = top :: ops) (hp : p top = false) :
    w.reduceWhile p = .ok w := by
  obtain ⟨a, ⟨wops, operands⟩⟩ := w
  cases hw
  simp [reduceWhile, reduceFrom, hp]

/-- The top operator of the stack lets every operator of rank `m` or more pass. -/
def Blocks (m : Nat) (w : Work) : Prop :=
  ∃ top ops, w.stack.operators = top :: ops ∧
    ∀ next : Operator, m ≤ next.precedence → top.reducesBefore next = false

theorem blocks_floor {w : Work} {ops : List Operator} (hw : w.stack.operators = .floor :: ops)
    (m : Nat) : Blocks m w :=
  ⟨.floor, ops, hw, fun next _ => by cases next <;> rfl⟩

theorem blocks_binary (w : Work) (op : BinaryOp) :
    Blocks op.rightRank (w.pushOperator (.binary op)) := by
  refine ⟨.binary op, w.stack.operators, rfl, fun next hle => ?_⟩
  cases next with
  | floor => rfl
  | binary next =>
    simp only [Operator.precedence, BinaryOp.rightRank] at hle
    simp only [Operator.reducesBefore]
    split at hle
    · rw [if_neg (by omega), decide_eq_false (by omega)]
    · split
      · simpa using ‹¬ op.leftAssociative = true›
      · rw [decide_eq_false (by omega)]
  | unary next =>
    simp only [Operator.precedence, UnaryOp.precedence] at hle
    simp only [Operator.reducesBefore, Bool.and_eq_false_iff, UnaryOp.precedence]
    right
    cases op <;> simp_all [BinaryOp.rightRank, BinaryOp.precedence, BinaryOp.leftAssociative]

theorem blocks_prefixOp (w : Work) (op : UnaryOp) : Blocks 8 (w.pushOperator (.unary op)) := by
  refine ⟨.unary op, w.stack.operators, rfl, fun next hle => ?_⟩
  cases next with
  | floor => rfl
  | binary next =>
    simp only [Operator.precedence] at hle
    refine decide_eq_false fun hnext => ?_
    simp only [UnaryOp.precedence] at hnext
    omega
  | unary next =>
    simp only [Operator.precedence, UnaryOp.precedence] at hle
    omega

end Work

/-! ## What follows an operand -/

/-- Whether the next token makes the parser reduce an operator on top of the stack. -/
def triggers : List Kind → Operator → Bool
  | .operator op :: _ => fun top =>
    if op.isUnaryPostfix || op.isBinary then top.reducesBefore op else top != .floor
  | _ => fun top => top != .floor

theorem triggers_binary {op : BinaryOp} {ts : List Kind} (h : Stops op.rightRank ts) :
    triggers ts (.binary op) = true := by
  unfold triggers
  split
  · rename_i next ts
    rcases next with _ | next | next
    · rfl
    · have hlt : next.precedence < op.rightRank := h
      simp only [Operator.isBinary, Bool.or_true, if_true, Operator.reducesBefore]
      simp only [BinaryOp.rightRank] at hlt
      split at hlt
      · split
        · assumption
        · exact decide_eq_true (by omega)
      · rw [if_neg (by omega)]
        exact decide_eq_true hlt
    · cases hpost : next.isPostfix with
      | false => simp [Operator.isUnaryPostfix, Operator.isBinary, hpost]
      | true =>
        have hlt : UnaryOp.precedence next < op.rightRank := h hpost
        simp only [Operator.isUnaryPostfix, hpost, Bool.true_or, if_true, Operator.reducesBefore,
          Bool.true_and]
        refine decide_eq_true ?_
        simp only [UnaryOp.precedence] at *
        cases op <;> simp_all [BinaryOp.rightRank, BinaryOp.precedence, BinaryOp.leftAssociative]
  · rfl

theorem triggers_prefixOp (op : UnaryOp) {ts : List Kind} (h : Stops 8 ts) :
    triggers ts (.unary op) = true := by
  unfold triggers
  split
  · rename_i next ts
    rcases next with _ | next | next
    · rfl
    · have hlt : next.precedence < 8 := h
      exact decide_eq_true (Nat.le_of_lt_succ hlt)
    · cases hpost : next.isPostfix with
      | false => simp [Operator.isUnaryPostfix, Operator.isBinary, hpost]
      | true =>
        simp [Operator.isUnaryPostfix, hpost, Operator.reducesBefore, UnaryOp.precedence]
  · rfl

namespace State

/-- A run behind an operand goes on in the same way from two works that the next token reduces to
the same one. -/
theorem run_congr {last : Option Token} {ts : List Token} {frames : List Frame} {w v : Work}
    (h : w.reduceWhile (triggers (ts.map Token.kind)) =
      v.reduceWhile (triggers (ts.map Token.kind))) :
    run last ts ⟨w, frames, .operator⟩ = run last ts ⟨v, frames, .operator⟩ := by
  cases ts with
  | nil =>
    have hdrain : w.drain = v.drain := h
    simp only [run, finish, hdrain]
  | cons t ts =>
    have hstep : takeOperator frames w t = takeOperator frames v t := by
      obtain ⟨kind, lexeme, span⟩ := t
      cases kind with
      | operator op =>
        simp only [List.map_cons, triggers] at h
        cases hpost : op.isUnaryPostfix <;> cases hbinary : op.isBinary <;>
          simp only [hpost, hbinary, Bool.or_true, Bool.or_false, Bool.false_eq_true, if_true,
            if_false] at h <;>
          simp only [takeOperator, hpost, hbinary, Bool.false_eq_true, if_true, if_false,
            Work.takeOperator, Work.drain, h]
      | _ =>
        have hdrain : w.drain = v.drain := h
        simp only [takeOperator, hdrain]
    have hstep' : step ⟨w, frames, .operator⟩ t = step ⟨v, frames, .operator⟩ t := hstep
    simp only [run, hstep']

/-! ## Complete expressions -/

/-- Goes on with tokens that cannot continue a complete expression. -/
def settled (last : Option Token) (frames : List Frame) (ts : List Token) (w : Work) :
    Except ParseError (Arena × List Token) :=
  match ts with
  | [] => do return (← finishFrames last frames w, [])
  | t :: ts => do
    match ← settle t frames w with
    | .shift s => run last ts s
    | .stop a => return (a, t :: ts)

theorem takeOperator_of_stops {t : Token} {ts : List Kind} (h : Stops 0 (t.kind :: ts))
    (frames : List Frame) (w : Work) :
    takeOperator frames w t = w.drain >>= fun w => settle t frames w := by
  obtain ⟨kind, lexeme, span⟩ := t
  cases kind with
  | operator op =>
    rcases op with _ | op | op
    · rfl
    · exact absurd h (Nat.not_lt_zero _)
    · have hpost : op.isPostfix = false := by
        cases hpost : op.isPostfix
        · rfl
        · exact absurd (h hpost) (Nat.not_lt_zero _)
      simp [takeOperator, Operator.isUnaryPostfix, Operator.isBinary, hpost]
  | _ => rfl

/-- A run behind a complete expression first reduces all that is pending. -/
theorem run_of_stops {ts : List Token} (h : Stops 0 (ts.map Token.kind)) (last : Option Token)
    (frames : List Frame) (w : Work) :
    run last ts ⟨w, frames, .operator⟩ = w.drain >>= fun w => settled last frames ts w := by
  cases ts with
  | nil =>
    simp only [run, finish, settled]
    cases w.drain <;> rfl
  | cons t ts =>
    have hstep : step ⟨w, frames, .operator⟩ t = takeOperator frames w t := rfl
    simp only [run, settled, hstep, takeOperator_of_stops h]
    cases w.drain <;> rfl

/-- Above a floor nothing is pending. -/
theorem run_of_floor {ts : List Token} (h : Stops 0 (ts.map Token.kind)) (last : Option Token)
    (frames : List Frame) {w : Work} {ops : List Operator}
    (hw : w.stack.operators = .floor :: ops) :
    run last ts ⟨w, frames, .operator⟩ = settled last frames ts w := by
  rw [run_of_stops h, Work.drain, Work.reduceWhile_of_top hw (by rfl)]
  rfl

/-! ## Simulation -/

/-- A run meets a reader if it fails where the reader reads nothing, and goes on like `next` with
what the reader reads and the tokens behind it otherwise. -/
def Meets (read : Option (α × List Kind)) (outcome : Except ParseError β)
    (next : α → List Token → Except ParseError β) : Prop :=
  match read with
  | none => ∃ err, outcome = .error err
  | some (a, rest) => ∃ ts, ts.map Token.kind = rest ∧ outcome = next a ts

theorem Meets.error (err : ParseError) {next : α → List Token → Except ParseError β} :
    Meets none (.error err) next :=
  ⟨err, rfl⟩

/-- Two readers in a row are met in a row. -/
theorem Meets.bind {read : Option (α × List Kind)} {outcome : Except ParseError γ}
    {next : α → List Token → Except ParseError γ} (h : Meets read outcome next)
    {more : α × List Kind → Option (β × List Kind)} {next' : β → List Token → Except ParseError γ}
    (hmore : ∀ a ts, read = some (a, ts.map Token.kind) →
      Meets (more (a, ts.map Token.kind)) (next a ts) next') :
    Meets (read.bind more) outcome next' := by
  cases read with
  | none => exact h
  | some p =>
    obtain ⟨a, rest⟩ := p
    obtain ⟨ts, rfl, rfl⟩ := h
    exact hmore a ts rfl

theorem Meets.map {read : Option (α × List Kind)} {outcome : Except ParseError γ}
    {next : α → List Token → Except ParseError γ} {f : α → β}
    {next' : β → List Token → Except ParseError γ} (h : Meets read outcome next)
    (hnext : ∀ a ts, read = some (a, ts.map Token.kind) → next a ts = next' (f a) ts) :
    Meets (read.map fun p => (f p.1, p.2)) outcome next' := by
  cases read with
  | none => exact h
  | some p =>
    obtain ⟨a, rest⟩ := p
    obtain ⟨ts, rfl, rfl⟩ := h
    exact ⟨ts, rfl, hnext a ts rfl⟩

/-- Every level of fewer than `n` tokens is met. -/
def MeetsLevels (n : Nat) : Prop :=
  ∀ (last : Option Token) (ts : List Token) (m : Nat) (w : Work) (frames : List Frame),
    ts.length < n → w.Blocks m →
    Meets (level m (ts.map Token.kind)) (run last ts ⟨w, frames, .operand⟩)
      fun e rest => run last rest ⟨w.pushTree e, frames, .operator⟩

/-- An operator that the top of the stack lets pass is taken up at once. -/
theorem takeOperator_of_blocks {m : Nat} {w : Work} (hw : w.Blocks m) (op : Operator)
    (hop : m ≤ op.precedence) (e : Expr) :
    (w.pushTree e).takeOperator op =
      if op.isUnaryPostfix then (w.pushTree e).apply op
      else .ok ((w.pushTree e).pushOperator op) := by
  obtain ⟨top, ops, htop, hpass⟩ := hw
  have hreduce : (w.pushTree e).reduceWhile (·.reducesBefore op) = .ok (w.pushTree e) :=
    Work.reduceWhile_of_top htop (hpass op hop)
  simp only [Work.takeOperator, hreduce]
  rfl

theorem run_binary {m : Nat} {w : Work} (hw : w.Blocks m) {op : BinaryOp}
    (hop : m ≤ op.precedence) {t : Token} (ht : t.kind = .operator (.binary op))
    (last : Option Token) (ts : List Token) (frames : List Frame) (e : Expr) :
    run last (t :: ts) ⟨w.pushTree e, frames, .operator⟩ =
      run last ts ⟨(w.pushTree e).pushOperator (.binary op), frames, .operand⟩ := by
  have htake := takeOperator_of_blocks hw (.binary op) hop e
  simp only [run, step, takeOperator, ht, htake]
  rfl

theorem run_postfixOp {m : Nat} {w : Work} (hw : w.Blocks m) {op : UnaryOp}
    (hpost : op.isPostfix) (hop : m ≤ op.precedence) {t : Token}
    (ht : t.kind = .operator (.unary op)) (last : Option Token) (ts : List Token)
    (frames : List Frame) (e : Expr) :
    run last (t :: ts) ⟨w.pushTree e, frames, .operator⟩ =
      run last ts ⟨w.pushTree (.unary op e), frames, .operator⟩ := by
  have htake := takeOperator_of_blocks hw (.unary op) hop e
  have happly : (w.pushTree e).apply (.unary op) = .ok (w.pushTree (.unary op e)) := by
    simp [Work.apply, Work.pushTree, Work.pushNode, Expr.plant]
  simp only [Operator.isUnaryPostfix, hpost, if_true, happly] at htake
  simp only [run, step, takeOperator, ht, Operator.isUnaryPostfix, hpost, if_true, htake]
  rfl

/-- The parser joins an operand with what follows as climbing does. -/
theorem meets_climb {n : Nat} (hlevel : MeetsLevels n) {last : Option Token} {ts : List Token}
    {m : Nat} {w : Work} {frames : List Frame} (hts : ts.length ≤ n) (hw : w.Blocks m)
    (left : Expr) :
    Meets (climb m left (ts.map Token.kind)) (run last ts ⟨w.pushTree left, frames, .operator⟩)
      fun e rest => run last rest ⟨w.pushTree e, frames, .operator⟩ := by
  induction hlen : ts.length using Nat.strongRecOn generalizing left ts with
  | ind k ih =>
    subst hlen
    rcases ts with _ | ⟨t, ts⟩
    · have hnil : Stops m [] := trivial
      rw [List.map_nil, climb_of_stops hnil]
      exact ⟨[], rfl, rfl⟩
    have stay (h : Stops m ((t :: ts).map Token.kind)) :
        Meets (climb m left ((t :: ts).map Token.kind))
          (run last (t :: ts) ⟨w.pushTree left, frames, .operator⟩)
          fun e rest => run last rest ⟨w.pushTree e, frames, .operator⟩ := by
      rw [climb_of_stops h]
      exact ⟨t :: ts, rfl, rfl⟩
    have hshort : ts.length < n := hts
    rcases hkind : t.kind with _ | _ | _ | _ | _ | (_ | op | op) | _
    case operator.binary =>
      by_cases hop : m ≤ op.precedence
      · rw [List.map_cons, hkind, climb_binary hop, run_binary hw hop hkind]
        refine (hlevel last ts op.rightRank _ frames hshort (Work.blocks_binary _ _)).bind ?_
        intro right rest hright
        have hreduced := Work.reduceWhile_binary (triggers_binary (stops_level hright)) w left right
        rw [run_congr hreduced]
        have hlt := length_level hright
        simp only [List.length_map] at hlt
        exact ih _ (Nat.lt_succ_of_lt hlt) (Nat.le_of_lt (Nat.lt_trans hlt hshort)) _ rfl
      · refine stay ?_
        rw [List.map_cons, hkind]
        exact Nat.not_le.mp hop
    case operator.unary =>
      by_cases hop : op.isPostfix ∧ m ≤ op.precedence
      · rw [List.map_cons, hkind, climb_postfixOp hop.1 hop.2, run_postfixOp hw hop.1 hop.2 hkind]
        exact ih _ (Nat.lt_succ_self _) (Nat.le_of_lt hshort) _ rfl
      · refine stay ?_
        rw [List.map_cons, hkind]
        exact fun hpost => Nat.not_le.mp fun hle => hop ⟨hpost, hle⟩
    all_goals
      refine stay ?_
      rw [List.map_cons, hkind]
      trivial

/-! ## Items -/

theorem startsWith_map (d : Delimiter) (t : Token) (ts : List Token) :
    startsWith d ((t :: ts).map Token.kind) = isDelimiter t d := by
  obtain ⟨kind, lexeme, span⟩ := t
  cases kind <;> rfl

theorem startsWithWord_map (word : String) (t : Token) (ts : List Token) :
    startsWithWord word ((t :: ts).map Token.kind) = isWord t word := by
  obtain ⟨kind, lexeme, span⟩ := t
  cases kind <;> rfl

/-- The parse behind a list or a call that is complete. -/
def afterItems (a : Arena) (outer : Stacks) (callee : Option String) (done : List Nat)
    (frames : List Frame) (es : List Expr) : State :=
  ⟨(Work.mk (Expr.plantAll es a).1 outer).pushNode
    (itemsNode callee (done ++ (Expr.plantAll es a).2)), frames, .operator⟩

/-- The parser reads items with commas between them on stacks of their own. -/
theorem meets_someItems {n : Nat} (hlevel : MeetsLevels n) {last : Option Token}
    {ts : List Token} (hts : ts.length < n) (opening : Token) (callee : Option String)
    (outer : Stacks) (frames : List Frame) (done : List Nat) (a : Arena) :
    Meets (someItems (closerOf opening) (ts.map Token.kind))
      (run last ts ⟨{ arena := a }, .items opening callee done outer :: frames, .operand⟩)
      fun es rest => run last rest (afterItems a outer callee done frames es) := by
  induction hlen : ts.length using Nat.strongRecOn generalizing ts done a with
  | ind k ih =>
    subst hlen
    rw [someItems_eq]
    refine (hlevel last ts 0 _ _ hts (Work.blocks_floor rfl 0)).bind ?_
    intro e rest he
    have hlt := length_level he
    simp only [List.length_map] at hlt
    rw [run_of_floor (stops_level he) _ _ rfl]
    rcases rest with _ | ⟨t, rest⟩
    · exact Meets.error _
    simp only [startsWith_map, settled, settle, Work.top_pushTree, bind, Except.bind]
    cases hcomma : isDelimiter t .comma with
    | true =>
      simp only [if_true]
      refine (ih rest.length (Nat.lt_of_succ_lt hlt) (Nat.lt_trans (Nat.lt_of_succ_lt hlt) hts)
        _ _ rfl).map fun es rest _ => ?_
      simp only [afterItems, Expr.plantAll, List.append_assoc, List.singleton_append]
      rfl
    | false =>
      cases hclose : isDelimiter t (closerOf opening) with
      | true => exact ⟨rest, rfl, rfl⟩
      | false => exact Meets.error _

theorem run_firstItem {t : Token} {ts : List Token} (opening : Token)
    (ht : isDelimiter t (closerOf opening) = false) (last : Option Token) (w : Work)
    (callee : Option String) (done : List Nat) (outer : Stacks) (frames : List Frame) :
    run last (t :: ts) ⟨w, .items opening callee done outer :: frames, .firstItem⟩ =
      run last (t :: ts) ⟨w, .items opening callee done outer :: frames, .operand⟩ := by
  simp only [run, step, ht, Bool.false_eq_true, if_false]
  rfl

theorem meets_items {n : Nat} (hlevel : MeetsLevels n) {last : Option Token}
    {ts : List Token} (hts : ts.length < n) (opening : Token) (callee : Option String)
    (s : State) :
    Meets (items (closerOf opening) (ts.map Token.kind))
      (run last ts (s.openItems opening callee))
      fun es rest => run last rest (afterItems s.work.arena s.work.stack callee [] s.frames es) := by
  rw [items.eq_def]
  rcases ts with _ | ⟨t, ts⟩
  · rw [List.map_nil, someItems_eq, level_nil]
    exact Meets.error _
  · rw [startsWith_map]
    cases hclose : isDelimiter t (closerOf opening) with
    | true =>
      refine ⟨ts, rfl, ?_⟩
      simp only [run, openItems, step, hclose]
      rfl
    | false =>
      simp only [openItems]
      rw [run_firstItem opening hclose]
      exact meets_someItems hlevel hts opening callee _ _ [] _

/-! ## Operands -/

/-- A conditional without an alternative that cannot go on is an operand of what encloses it. -/
theorem run_consequent {ts : List Token} (h : Stops 0 (ts.map Token.kind))
    (helse : startsWithWord "else" (ts.map Token.kind) = false) (last : Option Token)
    (frames : List Frame) (w : Work) (condition consequent : Expr) :
    run last ts ⟨(w.fresh.pushTree condition).fresh.pushTree consequent,
        .consequent (condition.plant w.arena).root w.stack :: frames, .operator⟩ =
      run last ts ⟨w.pushTree (.ifThen condition consequent), frames, .operator⟩ := by
  have hresume : ((w.fresh.pushTree condition).fresh.pushTree consequent).resume w.stack
      (.conditional (condition.plant w.arena).root
        (consequent.plant (condition.plant w.arena)).root none) =
      w.pushTree (.ifThen condition consequent) := by
    simp [Work.resume, Work.pushNode, Work.pushTree, Work.fresh, Expr.plant]
  rw [run_of_floor h _ _ rfl, run_of_stops h]
  rcases ts with _ | ⟨t, ts⟩
  · simp only [settled, finishFrames, Work.top_pushTree, bind_assoc]
    simp only [bind, Except.bind, Work.arena_fresh, Work.arena_pushTree, hresume]
  · rw [startsWithWord_map] at helse
    simp only [settled, settle, helse, Work.top_pushTree, bind, Except.bind, Bool.false_eq_true,
      if_false, Work.arena_fresh, Work.arena_pushTree, hresume]
    cases (w.pushTree (.ifThen condition consequent)).drain <;> rfl

theorem run_alternative {ts : List Token} (h : Stops 0 (ts.map Token.kind))
    (last : Option Token) (frames : List Frame) (w : Work)
    (condition consequent alternative : Expr) :
    run last ts ⟨((w.fresh.pushTree condition).fresh.pushTree consequent).fresh.pushTree alternative,
        .alternative (condition.plant w.arena).root
          (consequent.plant (condition.plant w.arena)).root w.stack :: frames, .operator⟩ =
      run last ts ⟨w.pushTree (.ifElse condition consequent alternative), frames, .operator⟩ := by
  have hresume : (((w.fresh.pushTree condition).fresh.pushTree consequent).fresh.pushTree
        alternative).resume w.stack (.conditional (condition.plant w.arena).root
        (consequent.plant (condition.plant w.arena)).root
        (some (alternative.plant (consequent.plant (condition.plant w.arena))).root)) =
      w.pushTree (.ifElse condition consequent alternative) := by
    simp [Work.resume, Work.pushNode, Work.pushTree, Work.fresh, Expr.plant]
  rw [run_of_floor h _ _ rfl, run_of_stops h]
  rcases ts with _ | ⟨t, ts⟩
  · simp only [settled, finishFrames, Work.top_pushTree, bind_assoc]
    simp only [bind, Except.bind, Work.arena_fresh, Work.arena_pushTree, hresume]
  · simp only [settled, settle, Work.top_pushTree, bind, Except.bind, Work.arena_fresh,
      Work.arena_pushTree, hresume]
    cases (w.pushTree (.ifElse condition consequent alternative)).drain <;> rfl

/-- The parser reads a conditional on stacks of its own. -/
theorem meets_if {n : Nat} (hlevel : MeetsLevels n) {last : Option Token} {ts : List Token}
    (hts : ts.length < n) (w : Work) (frames : List Frame) :
    Meets ((level 0 (ts.map Token.kind)).bind fun p => afterCondition p.1 p.2)
      (run last ts ⟨w.fresh, .condition w.stack :: frames, .operand⟩)
      fun e rest => run last rest ⟨w.pushTree e, frames, .operator⟩ := by
  refine (hlevel last ts 0 _ _ hts (Work.blocks_floor rfl 0)).bind ?_
  intro condition rest hcondition
  have hlt := length_level hcondition
  rw [run_of_floor (stops_level hcondition) _ _ rfl]
  rcases rest with _ | ⟨t, rest⟩
  · exact Meets.error _
  simp only [afterCondition, startsWithWord_map, settled, settle]
  cases hthen : isWord t "then" with
  | false => exact Meets.error _
  | true =>
    simp only [if_true, Work.top_pushTree, List.map_cons, List.tail_cons]
    simp only [List.length_map, List.length_cons] at hlt
    refine (hlevel last rest 0 _ _ (by omega) (Work.blocks_floor rfl 0)).bind ?_
    intro consequent more hconsequent
    have hlt' := length_level hconsequent
    cases helse : startsWithWord "else" (more.map Token.kind) with
    | false =>
      exact ⟨more, rfl, run_consequent (stops_level hconsequent) helse last frames w _ _⟩
    | true =>
      rw [run_of_floor (stops_level hconsequent) _ _ rfl]
      rcases more with _ | ⟨t, more⟩
      · cases helse
      rw [startsWithWord_map] at helse
      simp only [settled, settle, helse, if_true, Work.top_pushTree, List.map_cons, List.tail_cons]
      simp only [List.length_map, List.length_cons] at hlt'
      refine (hlevel last more 0 _ _ (by omega) (Work.blocks_floor rfl 0)).map ?_
      intro alternative more' halternative
      exact run_alternative (stops_level halternative) last frames w _ _ _

theorem run_name {ts : List Token} (h : startsWith .parenOpen (ts.map Token.kind) = false)
    (last : Option Token) (w : Work) (frames : List Frame) (name : String) :
    run last ts ⟨w, frames, .name name⟩ =
      run last ts ⟨w.pushTree (.name name), frames, .operator⟩ := by
  have hpush : w.pushNode (.name name) = w.pushTree (.name name) := by
    simp [Work.pushNode, Work.pushTree, Expr.plant]
  rcases ts with _ | ⟨t, ts⟩
  · simp only [run, finish, hpush]
  · rw [startsWith_map] at h
    simp only [run, step, h, hpush, Bool.false_eq_true, if_false]

/-- The parser reads a name, and a call if a parenthesis follows it. -/
theorem meets_name {n : Nat} (hlevel : MeetsLevels n) {last : Option Token} {ts : List Token}
    (hts : ts.length < n) (w : Work) (frames : List Frame) (name : String) :
    Meets (if startsWith .parenOpen (ts.map Token.kind) then
        (items .parenClose (ts.map Token.kind).tail).map fun p => (Expr.call name p.1, p.2)
      else some (.name name, ts.map Token.kind))
      (run last ts ⟨w, frames, .name name⟩)
      fun e rest => run last rest ⟨w.pushTree e, frames, .operator⟩ := by
  cases hopen : startsWith .parenOpen (ts.map Token.kind) with
  | false => exact ⟨ts, rfl, run_name hopen last w frames name⟩
  | true =>
    rcases ts with _ | ⟨t, ts⟩
    · cases hopen
    rw [startsWith_map] at hopen
    have hcloser : closerOf t = .parenClose := by
      obtain ⟨kind, lexeme, span⟩ := t
      cases kind <;> simp [isDelimiter] at hopen
      subst hopen
      rfl
    simp only [run, step, hopen, if_true, List.map_cons, List.tail_cons]
    rw [← hcloser]
    refine (meets_items hlevel (Nat.lt_of_succ_lt hts) t (some name) ⟨w, frames, .name name⟩).map ?_
    intro es rest _
    simp [afterItems, itemsNode, Work.pushNode, Work.pushTree, Expr.plant]

theorem run_of_takeOperand {t : Token} {ts : List Token} {w : Work} {frames : List Frame}
    {s : State} (h : takeOperand ⟨w, frames, .operand⟩ t = .ok s) (last : Option Token) :
    run last (t :: ts) ⟨w, frames, .operand⟩ = run last ts s := by
  simp only [run, step, h]
  rfl

theorem takeOperand_prefixOp {t : Token} {op : UnaryOp} (h : prefixOp? t.kind = some op)
    (s : State) : takeOperand s t = .ok ⟨s.work.pushOperator (.unary op), s.frames, .operand⟩ := by
  obtain ⟨kind, lexeme, span⟩ := t
  unfold prefixOp? at h
  split at h
  · rename_i hkind
    cases hkind
    cases h
    rfl
  · rename_i op' hkind
    cases hkind
    cases op' <;> cases h <;> rfl
  · cases h

theorem meets_literal {l : Literal} {t : Token} {ts : List Token} {w : Work}
    {frames : List Frame} (h : takeOperand ⟨w, frames, .operand⟩ t =
      .ok (afterOperand frames (w.pushNode (.literal l)))) (last : Option Token) :
    Meets (some (.literal l, ts.map Token.kind)) (run last (t :: ts) ⟨w, frames, .operand⟩)
      fun e rest => run last rest ⟨w.pushTree e, frames, .operator⟩ := by
  have hpush : w.pushNode (.literal l) = w.pushTree (.literal l) := by
    simp [Work.pushNode, Work.pushTree, Expr.plant]
  refine ⟨ts, rfl, ?_⟩
  rw [run_of_takeOperand h, hpush]
  rfl

/-- The words that are no names are read before all names. -/
theorem takeOperand_name {name : String} (h : isKeyword name = false) (s : State)
    (lexeme : String) (span : Span) :
    takeOperand s ⟨.identifier name, lexeme, span⟩ = .ok { s with mode := .name name } := by
  unfold takeOperand
  simp only
  split <;> simp_all [isKeyword]

theorem meets_identifier {n : Nat} (hlevel : MeetsLevels n) {last : Option Token}
    {ts : List Token} (hts : ts.length < n) (w : Work) (frames : List Frame) (name : String)
    (lexeme : String) (span : Span) :
    Meets (primary (.identifier name) (ts.map Token.kind))
      (run last (⟨.identifier name, lexeme, span⟩ :: ts) ⟨w, frames, .operand⟩)
      fun e rest => run last rest ⟨w.pushTree e, frames, .operator⟩ := by
  cases hkeyword : isKeyword name with
  | false =>
    rw [primary_identifier hkeyword, run_of_takeOperand (takeOperand_name hkeyword _ _ _)]
    exact meets_name hlevel hts w frames name
  | true =>
    simp only [isKeyword, Bool.or_eq_true, decide_eq_true_eq] at hkeyword
    rcases hkeyword with (((rfl | rfl) | rfl) | rfl) | rfl
    · rw [primary_if]
      exact meets_if hlevel hts w frames
    · rw [primary.eq_def]
      exact Meets.error _
    · rw [primary.eq_def]
      exact Meets.error _
    · rw [primary.eq_def]
      exact meets_literal rfl last
    · rw [primary.eq_def]
      exact meets_literal rfl last

/-- The parser reads an operand without an operator in front. -/
theorem meets_primary {n : Nat} (hlevel : MeetsLevels n) {last : Option Token} {t : Token}
    {ts : List Token} (hts : ts.length < n) (ht : prefixOp? t.kind = none) (w : Work)
    (frames : List Frame) :
    Meets (primary t.kind (ts.map Token.kind)) (run last (t :: ts) ⟨w, frames, .operand⟩)
      fun e rest => run last rest ⟨w.pushTree e, frames, .operator⟩ := by
  obtain ⟨kind, lexeme, span⟩ := t
  cases kind with
  | natural | decimal | roll | string =>
    rw [primary.eq_def]
    exact meets_literal rfl last
  | identifier name => exact meets_identifier hlevel hts w frames name lexeme span
  | operator op =>
    rw [primary.eq_def]
    rcases op with _ | op | op
    · exact Meets.error _
    · cases op <;> first | exact Meets.error _ | cases ht
    · cases op <;> first | exact Meets.error _ | cases ht
  | delimiter d =>
    cases d with
    | parenOpen =>
      rw [primary_paren]
      refine (hlevel last ts 0 _ _ hts (Work.blocks_floor rfl 0)).bind ?_
      intro e rest he
      rw [run_of_floor (stops_level he) _ _ rfl]
      rcases rest with _ | ⟨t, rest⟩
      · exact Meets.error _
      have hcloser : closerOf ⟨.delimiter .parenOpen, lexeme, span⟩ = .parenClose := rfl
      simp only [startsWith_map, settled, settle, hcloser]
      cases isDelimiter t .parenClose with
      | true => exact ⟨rest, rfl, rfl⟩
      | false => exact Meets.error _
    | bracketOpen =>
      rw [primary_bracket]
      refine (meets_items hlevel hts ⟨.delimiter .bracketOpen, lexeme, span⟩ none
        ⟨w, frames, .operand⟩).map ?_
      intro es rest _
      simp [afterItems, itemsNode, Work.pushNode, Work.pushTree, Expr.plant]
    | parenClose | bracketClose | comma =>
      rw [primary.eq_def]
      exact Meets.error _

/-- Reading a level is running the parser to the end of it. -/
theorem meets_level (n : Nat) : MeetsLevels n := by
  induction n with
  | zero => exact fun _ _ _ _ _ hts => absurd hts (Nat.not_lt_zero _)
  | succ n ih =>
    intro last ts m w frames hts hw
    rcases ts with _ | ⟨t, ts⟩
    · rw [List.map_nil, level_nil]
      exact Meets.error _
    have hshort : ts.length < n := Nat.lt_of_succ_lt_succ hts
    cases hprefixOp : prefixOp? t.kind with
    | none =>
      rw [List.map_cons, level_primary m hprefixOp]
      refine (meets_primary ih hshort hprefixOp w frames).bind ?_
      intro e rest he
      have hlt := length_primary he
      simp only [List.length_map, List.length_cons] at hlt
      exact meets_climb ih (by omega) hw e
    | some op =>
      rw [List.map_cons, level_prefixOp m hprefixOp, run_of_takeOperand (takeOperand_prefixOp hprefixOp _)]
      refine (ih last ts 8 _ frames hshort (Work.blocks_prefixOp w op)).bind ?_
      intro e rest he
      have hreduced := Work.reduceWhile_unary (triggers_prefixOp op (stops_level he)) w e
      rw [run_congr hreduced]
      have hlt := length_level he
      simp only [List.length_map] at hlt
      exact meets_climb ih (by omega) hw _

end State

/-- A statement is a level of rank zero from the front of the tokens. -/
theorem meets_statement (tokens : List Token) :
    State.Meets (level 0 (tokens.map Token.kind)) (statement tokens)
      fun e rest => .ok (e.plant {}, rest) := by
  have hlevel := State.meets_level (tokens.length + 1) tokens.getLast? tokens 0 {} []
    (Nat.lt_succ_self _) (Work.blocks_floor rfl 0)
  cases hread : level 0 (tokens.map Token.kind) with
  | none =>
    rw [hread] at hlevel
    exact hlevel
  | some p =>
    obtain ⟨e, kinds⟩ := p
    rw [hread] at hlevel
    obtain ⟨rest, rfl, hrun⟩ := hlevel
    refine ⟨rest, rfl, hrun.trans ?_⟩
    show State.run _ rest ⟨Work.pushTree {} e, [], .operator⟩ = _
    rw [State.run_of_floor (stops_level hread) _ _ rfl]
    cases rest <;> rfl

end Parse

namespace Arena

open Parse

/-- The parser succeeds with the listing of the tree that climbing reads, and fails where climbing
reads none. -/
theorem parse_eq (tokens : List Token) :
    match Climb.parse (tokens.map Token.kind) with
    | some e => parse tokens = .ok (e.plant {})
    | none => ∃ err, parse tokens = .error err := by
  have hmeets := meets_statement tokens
  unfold Climb.parse
  cases hread : Climb.level 0 (tokens.map Token.kind) with
  | none =>
    rw [hread] at hmeets
    obtain ⟨err, herr⟩ := hmeets
    exact ⟨err, by simp only [parse, herr]; rfl⟩
  | some p =>
    obtain ⟨e, kinds⟩ := p
    rw [hread] at hmeets
    obtain ⟨rest, rfl, hok⟩ := hmeets
    cases rest with
    | nil => simp only [List.map_nil, parse, hok]; rfl
    | cons t rest => exact ⟨leftover t, by simp only [parse, hok]; rfl⟩

theorem parse_ok_iff {tokens : List Token} {a : Arena} :
    parse tokens = .ok a ↔
      ∃ e, Climb.parse (tokens.map Token.kind) = some e ∧ a = e.plant {} := by
  have heq := parse_eq tokens
  split at heq
  · rename_i e hread
    simp [heq, hread, eq_comm]
  · rename_i hread
    obtain ⟨err, herr⟩ := heq
    simp [herr, hread]

/-- The parser with two stacks and precedence climbing read the same tree from every list of
tokens, and one of them fails exactly when the other does. -/
theorem parse_reads_climb (tokens : List Token) :
    (∀ e, (∃ a, parse tokens = .ok a ∧ a.expr? = some e) ↔
        Climb.parse (tokens.map Token.kind) = some e) ∧
      ((∃ err, parse tokens = .error err) ↔ Climb.parse (tokens.map Token.kind) = none) := by
  have heq := parse_eq tokens
  cases hread : Climb.parse (tokens.map Token.kind) with
  | none =>
    rw [hread] at heq
    obtain ⟨err, herr⟩ := heq
    simp [herr]
  | some e =>
    rw [hread] at heq
    simp [heq, expr?_plant]

end Arena

end DiceTome
