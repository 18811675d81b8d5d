import DiceTome.Proofs.Listings
import DiceTome.Proofs.Segments

/-!
# What a statement leaves on the stacks

Reductions, postfix operators that are applied at once and expressions on stacks of their own all
append nodes to one arena, and the parser names them by the operands on its stacks. When a statement
is complete, one operand is left: the node that was appended last.

* `State.after` is where some tokens lead, and `State.of_after` carries an invariant there.
* `Work.Topped`, `State.Topped`: behind an operand the last node of the arena is on top.
* `State.close` ends a parse as `State.finish` does and keeps the stacks.
* `Parse.statement_leaves_root`: no stack is taken too much from, and what is left is the root of a
  listing.
-/

namespace DiceTome

open Token (bind_eq_ok)

namespace Parse

namespace State

/-- The parse after some tokens, if it takes all of them. -/
def after : List Token → State → Option State
  | [], s => some s
  | t :: ts, s =>
    match s.step t with
    | .ok (.shift s) => after ts s
    | _ => none

theorem after_cons {t : Token} {ts : List Token} {s u : State} (h : after (t :: ts) s = some u) :
    ∃ s', s.step t = .ok (.shift s') ∧ after ts s' = some u := by
  unfold after at h
  split at h
  · rename_i s' hstep
    exact ⟨s', hstep, h⟩
  · cases h

/-- A property that every token keeps holds after any number of them. -/
theorem of_after {p : State → Prop}
    (hp : ∀ s t s', p s → s.step t = .ok (.shift s') → p s') {ts : List Token} {s u : State}
    (hs : p s) (h : after ts s = some u) : p u := by
  induction ts generalizing s with
  | nil =>
    cases h
    exact hs
  | cons t ts ih =>
    obtain ⟨s', hstep, h⟩ := after_cons h
    exact ih (hp s t s' hs hstep) h

/-- A run goes on from where its first tokens lead. -/
theorem run_append_of_after (last : Option Token) {used : List Token} (more : List Token)
    {s u : State} (h : after used s = some u) : run last (used ++ more) s = run last more u := by
  induction used generalizing s with
  | nil =>
    cases h
    rfl
  | cons t used ih =>
    obtain ⟨s', hstep, h⟩ := after_cons h
    rw [List.cons_append, run, hstep]
    exact ih h

theorem balanced_after {ts : List Token} {s : State} (h : after ts {} = some s) : s.Balanced := by
  refine of_after (fun s t s' hs hstep => ?_) balanced_start h
  have hnumbered := balanced_step hs t
  rw [hstep] at hnumbered
  exact hnumbered s' rfl

end State

/-! ## The node on top -/

namespace Work

/-- The node that was appended last is the operand on top. -/
def Topped (w : Work) : Prop :=
  w.stack.operands.head? = some w.arena.root

theorem topped_pushNode (w : Work) (node : Node) : (w.pushNode node).Topped := by
  simp [Topped, pushNode]

theorem topped_apply {w v : Work} {op : Operator} (h : w.apply op = .ok v) : v.Topped := by
  unfold apply at h
  split at h
  · cases h
    exact topped_pushNode _ _
  · cases h
    exact topped_pushNode _ _
  · cases h

theorem topped_reduceFrom {p : Operator → Bool} {ops : List Operator} {w v : Work}
    (hw : w.Topped) (h : reduceFrom p ops w = .ok v) : v.Topped := by
  induction ops generalizing w with
  | nil => cases h
  | cons top ops ih =>
    unfold reduceFrom at h
    split at h
    · obtain ⟨u, hu, h⟩ := bind_eq_ok h
      exact ih (topped_apply hu) h
    · cases h
      exact hw

theorem topped_drain {w v : Work} (hw : w.Topped) (h : w.drain = .ok v) : v.Topped :=
  topped_reduceFrom hw h

end Work

namespace State

/-- Behind an operand the node that was appended last is on top. -/
def Topped (s : State) : Prop :=
  s.mode = .operator → s.work.Topped

theorem topped_settle {t : Token} {frames : List Frame} {w : Work} {s : State} (hw : w.Topped)
    (h : settle t frames w = .ok (.shift s)) : s.Topped := by
  induction frames generalizing w with
  | nil => cases h
  | cons frame frames ih =>
    rcases settle_cases h with ⟨_, hs, htakes⟩ | ⟨u, hends, hsettle⟩
    · cases hs
      cases htakes with
      | group => exact fun _ => hw
      | items => exact fun _ => Work.topped_pushNode _ _
      | comma | consequent | alternative => nofun
    · cases hends with
      | consequent hi hu | alternative hi hu =>
        exact ih (Work.topped_drain (Work.topped_pushNode _ _) hu) hsettle

theorem topped_takeOperator {t : Token} {frames : List Frame} {w : Work} {s : State}
    (hw : w.Topped) (h : takeOperator frames w t = .ok (.shift s)) : s.Topped := by
  rcases takeOperator_cases h with ⟨op, u, -, hu, ⟨hpost, hs⟩ | hs⟩ | ⟨u, hu, hsettle⟩
  · cases hs
    obtain ⟨v, -, hu⟩ := bind_eq_ok hu
    rw [if_pos hpost] at hu
    exact fun _ => Work.topped_apply hu
  · cases hs
    nofun
  · exact topped_settle (Work.topped_drain hw hu) hsettle

theorem topped_takeOperand {s s' : State} {t : Token} (h : s.takeOperand t = .ok s') :
    s'.Topped := by
  have hliteral : ∀ l, .ok (afterOperand s.frames (s.work.pushNode (.literal l))) =
      (.ok s' : Except ParseError State) → s'.Topped := by
    rintro l ⟨⟩
    exact fun _ => Work.topped_pushNode _ _
  unfold takeOperand at h
  simp only at h
  split at h
  · exact hliteral _ h
  · exact hliteral _ h
  · exact hliteral _ h
  · exact hliteral _ h
  · cases h
    nofun
  · cases h
  · cases h
  · exact hliteral _ h
  · exact hliteral _ h
  · cases h
    nofun
  · split at h
    · cases h
      nofun
    · split at h <;> cases h
      nofun
  · cases h
    nofun
  · cases h
    nofun
  · cases h

theorem topped_step {s s' : State} {t : Token} (hs : s.Topped) (h : s.step t = .ok (.shift s')) :
    s'.Topped := by
  cases takes_of_step h with
  | operand h => exact topped_takeOperand h
  | noItems => exact fun _ => Work.topped_pushNode _ _
  | arguments => nofun
  | name _ h => exact topped_takeOperator (Work.topped_pushNode _ _) h
  | operator hmode h => exact topped_takeOperator (hs hmode) h

theorem topped_after {ts : List Token} {s : State} (h : after ts {} = some s) : s.Topped :=
  of_after (fun _ _ _ hs hstep => topped_step hs hstep) (nofun : Topped {}) h

/-! ## Closing what is open -/

/-- `finishFrames` with everything that is left of the work. -/
def closeFrames (last : Option Token) : List Frame → Work → Except ParseError Work
  | [], w => .ok w
  | .group opening :: _, _ => .error (.unmatched opening)
  | .items opening _ _ _ :: _, _ => .error (.unmatched opening)
  | .condition _ :: _, _ => .error (.unexpectedEnd .thenKeyword last)
  | .consequent condition outer :: frames, w => do
    let w := w.resume outer (.conditional condition (← w.top) none)
    closeFrames last frames (← w.drain)
  | .alternative condition consequent outer :: frames, w => do
    let w := w.resume outer (.conditional condition consequent (some (← w.top)))
    closeFrames last frames (← w.drain)

/-- `finish` with everything that is left of the work. -/
def close (last : Option Token) (s : State) : Except ParseError Work := do
  match s.mode with
  | .operand | .firstItem => throw (.unexpectedEnd .expression last)
  | .name n => closeFrames last s.frames (← (s.work.pushNode (.name n)).drain)
  | .operator => closeFrames last s.frames (← s.work.drain)

theorem finishFrames_eq (last : Option Token) (frames : List Frame) (w : Work) :
    finishFrames last frames w = Work.arena <$> closeFrames last frames w := by
  induction frames generalizing w with
  | nil => rfl
  | cons frame frames ih =>
    cases frame with
    | group | items | condition => rfl
    | consequent | alternative => simp only [finishFrames, closeFrames, ih, map_bind]

/-- The expression of a parse is what is left of it without the stacks. -/
theorem finish_eq (last : Option Token) (s : State) :
    s.finish last = Work.arena <$> s.close last := by
  obtain ⟨w, frames, mode⟩ := s
  cases mode with
  | operand | firstItem => rfl
  | name n => simp only [finish, close, finishFrames_eq, map_bind]
  | operator => simp only [finish, close, finishFrames_eq, map_bind]

/-- Where only the one floor is left, so is only the one operand. -/
theorem stack_of_balanced {w : Work} {rest : List Operator} (hstack : w.stack.Balanced 1 1)
    (hfloor : w.stack.operators = .floor :: rest) (hw : w.Topped) :
    w.stack = ⟨[.floor], [w.arena.root]⟩ := by
  obtain ⟨a, ⟨operators, operands⟩⟩ := w
  dsimp only at hfloor
  subst hfloor
  have hnone : rest = [] := by
    have hcount := hstack.floors
    have hbottom := hstack.bottom
    cases rest with
    | nil => rfl
    | cons next rest =>
      rw [List.getLast?_cons_cons] at hbottom
      have hmem : Operator.floor ∈ next :: rest := List.mem_of_getLast? hbottom
      have hpos := List.count_pos_iff.mpr hmem
      rw [List.count_cons_self] at hcount
      omega
  subst hnone
  obtain ⟨operand, rfl⟩ := List.length_eq_one_iff.mp hstack.operands
  obtain rfl : operand = a.root := Option.some.inj hw
  rfl

theorem stack_closeFrames (last : Option Token) {frames : List Frame} {k : Nat} {w u : Work}
    {rest : List Operator} (hframes : Nested frames k) (hstack : w.stack.Balanced 1 k)
    (hfloor : w.stack.operators = .floor :: rest) (hw : w.Topped)
    (h : closeFrames last frames w = .ok u) : u.stack = ⟨[.floor], [u.arena.root]⟩ := by
  induction frames generalizing w k rest with
  | nil =>
    cases h
    cases hframes with
    | none => exact stack_of_balanced hstack hfloor hw
  | cons frame frames ih =>
    -- a conditional that is complete is the operand on top of what encloses it
    have hbranch : ∀ {outer : Stacks} (node : Nat → Node), frame.outer? = some outer →
        (do closeFrames last frames (← (w.resume outer (node (← w.top))).drain)) = .ok u →
        u.stack = ⟨[.floor], [u.arena.root]⟩ := by
      intro outer node hframe h
      obtain ⟨i, -, h⟩ := bind_eq_ok h
      obtain ⟨v, hv, h⟩ := bind_eq_ok h
      obtain ⟨j, houter, hmore⟩ := hframes.outer hframe
      obtain ⟨v', rest, hv', hfloor, hbalanced⟩ :=
        Work.drain_of_balanced (balanced_resume houter w (node i))
      rw [hv] at hv'
      cases hv'
      exact ih hmore hbalanced hfloor (Work.topped_drain (Work.topped_pushNode _ _) hv) h
    cases frame with
    | group | items | condition => cases h
    | consequent condition outer =>
      rw [closeFrames] at h
      exact hbranch (fun i => .conditional condition i none) rfl h
    | alternative condition consequent outer =>
      rw [closeFrames] at h
      exact hbranch (fun i => .conditional condition consequent (some i)) rfl h

/-- Where a parse may end, one floor and one operand are left: the root. -/
theorem stack_close (last : Option Token) {s : State} {u : Work} (hbalanced : s.Balanced)
    (htopped : s.Topped) (h : s.close last = .ok u) : u.stack = ⟨[.floor], [u.arena.root]⟩ := by
  obtain ⟨w, frames, mode⟩ := s
  obtain ⟨k, hframes, hstack⟩ := hbalanced
  have hdrain : ∀ v : Work, v.stack.Balanced 1 k → v.Topped →
      (do closeFrames last frames (← v.drain)) = .ok u → u.stack = ⟨[.floor], [u.arena.root]⟩ := by
    intro v hv htop h
    obtain ⟨x, hx, h⟩ := bind_eq_ok h
    obtain ⟨y, rest, hy, hfloor, hbalanced⟩ := Work.drain_of_balanced hv
    rw [hx] at hy
    cases hy
    exact stack_closeFrames last hframes hbalanced hfloor (Work.topped_drain htop hx) h
  cases mode with
  | operand | firstItem => cases h
  | name n => exact hdrain _ (Work.balanced_pushNode hstack _) (Work.topped_pushNode _ _) h
  | operator => exact hdrain _ hstack (htopped rfl) h

/-- A run that succeeds has come to a state in which the tokens might end. -/
theorem finish_of_run {last : Option Token} {ts rest : List Token} {s : State} {a : Arena}
    (h : run last ts s = .ok (a, rest)) :
    ∃ used u, ts = used ++ rest ∧ after used s = some u ∧ u.finish last = .ok a := by
  induction ts generalizing s with
  | nil =>
    obtain ⟨b, hb, h⟩ := bind_eq_ok h
    cases h
    exact ⟨[], s, rfl, rfl, hb⟩
  | cons t ts ih =>
    obtain ⟨verdict, hstep, h⟩ := bind_eq_ok h
    cases verdict with
    | shift s' =>
      obtain ⟨used, u, rfl, hafter, hfinish⟩ := ih h
      refine ⟨t :: used, u, rfl, ?_, hfinish⟩
      rw [after, hstep]
      exact hafter
    | stop b =>
      cases h
      exact ⟨[], s, rfl, rfl, finish_of_stop last hstep⟩

end State

theorem ne_emptyStack_of_numbered {x : Except ParseError α} {q : α → Prop} (h : Numbered x q) :
    x ≠ .error .emptyStack := by
  rintro rfl
  cases h

/-- What a statement is parsed as is a planted tree. -/
theorem exists_plant_of_statement {tokens rest : List Token} {a : Arena}
    (h : statement tokens = .ok (a, rest)) : ∃ e : Expr, a = e.plant {} := by
  have hmeets := meets_statement tokens
  rw [h] at hmeets
  cases hread : Climb.level 0 (tokens.map Token.kind) with
  | none =>
    rw [hread] at hmeets
    obtain ⟨err, herr⟩ := hmeets
    cases herr
  | some p =>
    rw [hread] at hmeets
    obtain ⟨ts, -, hok⟩ := hmeets
    cases hok
    exact ⟨p.1, rfl⟩

/-- Wherever the tokens lead, the stacks are balanced: there are as many operands as the binary
operators will join, and one more behind an operand, and every stack of operators has a floor at its
bottom and one more for each open parenthesis. So nothing is taken from an empty stack and no floor
is reduced, neither by the next token nor by the end of the tokens. A statement that is read leaves
one operand, the root of the arena, above one floor. The arena is the listing of one tree in
post-order, and copying it from its root gives it again. -/
theorem statement_leaves_root (tokens : List Token) :
    (∀ used s, State.after used {} = some s →
      s.Balanced ∧ (∀ t, s.step t ≠ .error .emptyStack) ∧
        ∀ last, s.finish last ≠ .error .emptyStack) ∧
    statement tokens ≠ .error .emptyStack ∧ Arena.parse tokens ≠ .error .emptyStack ∧
    ∀ a rest, statement tokens = .ok (a, rest) →
      (∃ used s w, tokens = used ++ rest ∧ State.after used {} = some s ∧
        s.close tokens.getLast? = .ok w ∧ w.arena = a ∧ w.stack = ⟨[.floor], [a.root]⟩) ∧
      a.IsListing ∧ (∃ e, a.expr? = some e ∧ a = e.plant {}) ∧ a.subtree? a.root = some a := by
  refine ⟨fun used s h => ?_, ne_emptyStack_of_numbered (numbered_statement tokens),
    ne_emptyStack_of_numbered (Arena.numbered_parse tokens), fun a rest h => ⟨?_, ?_⟩⟩
  · have hs := State.balanced_after h
    exact ⟨hs, fun t => ne_emptyStack_of_numbered (State.balanced_step hs t),
      fun last => ne_emptyStack_of_numbered (State.numbered_finish last hs)⟩
  · obtain ⟨used, s, hsplit, hafter, hfinish⟩ := State.finish_of_run h
    rw [State.finish_eq] at hfinish
    cases hclose : s.close tokens.getLast? with
    | error err =>
      rw [hclose] at hfinish
      cases hfinish
    | ok w =>
      rw [hclose] at hfinish
      cases hfinish
      exact ⟨used, s, w, hsplit, hafter, hclose, rfl,
        State.stack_close _ (State.balanced_after hafter) (State.topped_after hafter) hclose⟩
  · obtain ⟨e, rfl⟩ := exists_plant_of_statement h
    have htree := Arena.expr?_plant e {}
    exact ⟨Arena.isListing_plant e, ⟨e, htree, rfl⟩, Arena.subtree?_of_tree? htree⟩

theorem statement_leaves_root_group :
    let token (kind : Token.Kind) : Token := ⟨kind, "", ⟨{}, {}, none⟩⟩
    let tokens := [.operator (.binary .sub), .delimiter .parenOpen, .identifier "a",
      .operator (.binary .add), .delimiter .bracketOpen, .identifier "b",
      .delimiter .bracketClose, .delimiter .parenClose].map token
    let a : Arena := ⟨#[.name "a", .name "b", .list [1], .binary .add 0 2, .unary .neg 3]⟩
    statement (tokens ++ [token (.identifier "c")]) = .ok (a, [token (.identifier "c")]) ∧
      a.IsListing ∧ a.subtree? a.root = some a := by
  intro token tokens a
  have h : statement (tokens ++ [token (.identifier "c")]) =
    .ok (a, [token (.identifier "c")]) := rfl
  obtain ⟨-, hlisting, -, hcopy⟩ := (statement_leaves_root _).2.2.2 a _ h
  exact ⟨h, hlisting, hcopy⟩

end Parse

end DiceTome
