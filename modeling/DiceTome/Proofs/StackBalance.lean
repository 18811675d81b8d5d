import DiceTome.Arena.Parse

/-!
# The stacks of the parser

The parser takes operands off a stack without asking whether there are any. It never takes one too
many: behind an operand there is one operand more than the pending binary operators will join, and
where an operand is due there are as many. The lowest entry of every stack of operators is a floor,
and each parenthesis that is open has put one more floor on it.

* `Stacks.Balanced` counts the operands and the floors of a pair of stacks.
* `Nested` says the same of the stacks that wait in the frames around them.
* `State.balanced_step`: one token keeps the stacks balanced, or is refused with a numbered error.
* `Arena.numbered_parse` and `Arena.numbered_parseTome`: every refusal of tokens has a number.
-/

namespace DiceTome

namespace Parse

/-! ## Failures with a number -/

/-- A failure has a number, and a result has the property `q`. -/
def Numbered (outcome : Except ParseError α) (q : α → Prop) : Prop :=
  match outcome with
  | .ok a => q a
  | .error err => err.code?.isSome = true

theorem Numbered.bind {x : Except ParseError α} {f : α → Except ParseError β} {q : α → Prop}
    {r : β → Prop} (hx : Numbered x q) (hf : ∀ a, q a → Numbered (f a) r) :
    Numbered (x >>= f) r := by
  cases x with
  | error err => exact hx
  | ok a => exact hf a hx

theorem Numbered.map {x : Except ParseError α} {f : α → β} {q : β → Prop}
    (hx : Numbered x fun a => q (f a)) : Numbered (f <$> x) q := by
  cases x with
  | error err => exact hx
  | ok a => exact hx

theorem Numbered.mono {x : Except ParseError α} {q r : α → Prop} (hx : Numbered x q)
    (hqr : ∀ a, q a → r a) : Numbered x r := by
  cases x with
  | error err => exact hx
  | ok a => exact hqr a hx

/-! ## Balanced stacks -/

/-- The operands are those that the binary operators will join and `spare` more; among the operators
are the given number of floors, one of them at the bottom. -/
structure Stacks.Balanced (st : Stacks) (spare floors : Nat) : Prop where
  operands : st.operands.length = st.operators.countP Operator.isBinary + spare
  floors : st.operators.count .floor = floors
  bottom : st.operators.getLast? = some .floor

theorem Stacks.balanced_fresh : Stacks.Balanced {} 0 1 :=
  ⟨rfl, rfl, rfl⟩

namespace Work

variable {w : Work} {k : Nat}

theorem balanced_pushNode (h : w.stack.Balanced 0 k) (node : Node) :
    (w.pushNode node).stack.Balanced 1 k := by
  refine ⟨?_, h.floors, h.bottom⟩
  have hoperands := h.operands
  simp only [pushNode, List.length_cons]
  omega

/-- A stack with an entry on top of it keeps its bottom. -/
theorem getLast?_cons_of_bottom {ops : List Operator} (h : ops.getLast? = some .floor)
    (op : Operator) : (op :: ops).getLast? = some .floor := by
  cases ops with
  | nil => cases h
  | cons next ops => rw [List.getLast?_cons_cons, h]

theorem balanced_pushBinary {op : BinaryOp} (h : w.stack.Balanced 1 k) :
    (w.pushOperator (.binary op)).stack.Balanced 0 k := by
  refine ⟨?_, ?_, getLast?_cons_of_bottom h.bottom _⟩
  · have hoperands := h.operands
    simp only [pushOperator, List.countP_cons, Operator.isBinary]
    simpa using hoperands
  · simpa [pushOperator, List.count_cons] using h.floors

theorem balanced_pushUnary {op : UnaryOp} (h : w.stack.Balanced 0 k) :
    (w.pushOperator (.unary op)).stack.Balanced 0 k := by
  refine ⟨?_, ?_, getLast?_cons_of_bottom h.bottom _⟩
  · simpa [pushOperator, Operator.isBinary] using h.operands
  · simpa [pushOperator, List.count_cons] using h.floors

theorem balanced_pushFloor (h : w.stack.Balanced 0 k) :
    (w.pushOperator .floor).stack.Balanced 0 (k + 1) := by
  refine ⟨?_, ?_, getLast?_cons_of_bottom h.bottom _⟩
  · simpa [pushOperator, Operator.isBinary] using h.operands
  · simpa [pushOperator] using h.floors

/-- The floor of a parenthesis goes from the top, and those below it stay. -/
theorem balanced_popFloor {rest : List Operator} (h : w.stack.Balanced 1 (k + 1)) (hk : 0 < k)
    (hfloor : w.stack.operators = .floor :: rest) :
    Stacks.Balanced ⟨w.stack.operators.tail, w.stack.operands⟩ 1 k := by
  obtain ⟨hoperands, hcount, hbottom⟩ := h
  rw [hfloor, List.countP_cons_of_neg (by decide)] at hoperands
  rw [hfloor, List.count_cons_self, Nat.add_right_cancel_iff] at hcount
  rw [hfloor] at hbottom ⊢
  refine ⟨hoperands, hcount, ?_⟩
  cases rest with
  | nil => exact absurd hcount (Nat.ne_of_lt hk)
  | cons next rest => rwa [List.getLast?_cons_cons] at hbottom

theorem top_of_balanced (h : w.stack.Balanced 1 k) : ∃ i, w.top = .ok i := by
  obtain ⟨a, ⟨ops, operands⟩⟩ := w
  cases operands with
  | nil => exact absurd h.operands (by simp)
  | cons i operands => exact ⟨i, rfl⟩

/-! ## Reducing -/

/-- An operator above a floor finds its operands. -/
theorem apply_of_enough {op : Operator} {ops : List Operator} (hop : op ≠ .floor)
    (h : w.stack.operands.length = (op :: ops).countP Operator.isBinary + 1) :
    ∃ v, w.apply op = .ok v ∧ v.stack.operands.length = ops.countP Operator.isBinary + 1 := by
  obtain ⟨a, ⟨wops, operands⟩⟩ := w
  cases op with
  | floor => exact absurd rfl hop
  | binary op =>
    simp only [List.countP_cons, Operator.isBinary, if_true] at h
    rcases operands with _ | ⟨rhs, _ | ⟨lhs, rest⟩⟩
    · simp at h
    · simp at h
    · exact ⟨_, rfl, by simpa [pushNode] using h⟩
  | unary op =>
    rcases operands with _ | ⟨operand, rest⟩
    · simp at h
    · exact ⟨_, rfl, by simpa [pushNode, Operator.isBinary] using h⟩

/-- A reduction that lets floors stand ends at an operator that it lets stand, above the same
floors. -/
theorem reduceFrom_of_bottom {p : Operator → Bool} (hp : p .floor = false) {ops : List Operator}
    (hbottom : ops.getLast? = some .floor)
    (h : w.stack.operands.length = ops.countP Operator.isBinary + 1) :
    ∃ v top rest, reduceFrom p ops w = .ok v ∧ v.stack.operators = top :: rest ∧ p top = false ∧
      v.stack.Balanced 1 (ops.count .floor) := by
  induction ops generalizing w with
  | nil => cases hbottom
  | cons top ops ih =>
    cases htop : p top with
    | false =>
      refine ⟨{ w with stack.operators := top :: ops }, top, ops, ?_, rfl, htop, h, rfl, hbottom⟩
      simp [reduceFrom, htop]
    | true =>
      have hne : top ≠ .floor := by
        rintro rfl
        rw [hp] at htop
        cases htop
      have hmore : ops.getLast? = some .floor := by
        cases ops with
        | nil =>
          rw [List.getLast?_singleton, Option.some.injEq] at hbottom
          exact absurd hbottom hne
        | cons next ops => rwa [List.getLast?_cons_cons] at hbottom
      obtain ⟨v, hv, hlength⟩ := apply_of_enough hne h
      obtain ⟨u, top', rest, hu, hops, hstands, hbalanced⟩ := ih hmore hlength
      refine ⟨u, top', rest, ?_, hops, hstands, ?_⟩
      · simp only [reduceFrom, htop, if_true, hv]
        exact hu
      · rwa [List.count_cons_of_ne hne]

theorem reduceWhile_of_balanced {p : Operator → Bool} (hp : p .floor = false)
    (h : w.stack.Balanced 1 k) :
    ∃ v top rest, w.reduceWhile p = .ok v ∧ v.stack.operators = top :: rest ∧ p top = false ∧
      v.stack.Balanced 1 k := by
  obtain ⟨v, top, rest, hv, hops, hstands, hbalanced⟩ := reduceFrom_of_bottom hp h.bottom h.operands
  rw [h.floors] at hbalanced
  exact ⟨v, top, rest, hv, hops, hstands, hbalanced⟩

/-- A floor is left on top when everything above it has been reduced. -/
theorem drain_of_balanced (h : w.stack.Balanced 1 k) :
    ∃ v rest, w.drain = .ok v ∧ v.stack.operators = .floor :: rest ∧ v.stack.Balanced 1 k := by
  obtain ⟨v, top, rest, hv, hops, hstands, hbalanced⟩ :=
    reduceWhile_of_balanced (p := (· != .floor)) rfl h
  have htop : top = .floor := by simpa using hstands
  subst htop
  exact ⟨v, rest, hv, hops, hbalanced⟩

theorem takeOperator_binary_of_balanced (op : BinaryOp) (h : w.stack.Balanced 1 k) :
    ∃ v, w.takeOperator (.binary op) = .ok v ∧ v.stack.Balanced 0 k := by
  obtain ⟨v, _, _, hv, -, -, hbalanced⟩ :=
    reduceWhile_of_balanced (p := (·.reducesBefore (.binary op))) rfl h
  refine ⟨v.pushOperator (.binary op), ?_, balanced_pushBinary hbalanced⟩
  simp only [takeOperator, hv]
  rfl

theorem takeOperator_postfixOp_of_balanced {op : UnaryOp} (hop : op.isPostfix = true)
    (h : w.stack.Balanced 1 k) :
    ∃ v, w.takeOperator (.unary op) = .ok v ∧ v.stack.Balanced 1 k := by
  obtain ⟨v, _, _, hv, -, -, hbalanced⟩ :=
    reduceWhile_of_balanced (p := (·.reducesBefore (.unary op))) rfl h
  have htake : w.takeOperator (.unary op) = v.apply (.unary op) := by
    simp only [takeOperator, hv, Operator.isUnaryPostfix, hop]
    rfl
  obtain ⟨a, ⟨ops, operands⟩⟩ := v
  cases operands with
  | nil => exact absurd hbalanced.operands (by simp)
  | cons operand rest => exact ⟨_, htake, hbalanced.operands, hbalanced.floors, hbalanced.bottom⟩

end Work

/-! ## Frames -/

/-- The stacks that wait in a frame. An open parenthesis keeps none apart. -/
def Frame.outer? : Frame → Option Stacks
  | .group _ => none
  | .items _ _ _ outer | .condition outer | .consequent _ outer | .alternative _ _ outer =>
    some outer

/-- Inside the frames the stack in use has the given number of floors, and all stacks that wait in
them are balanced. -/
inductive Nested : List Frame → Nat → Prop
  | none : Nested [] 1
  | group {frames : List Frame} {k : Nat} (opening : Token) (h : Nested frames k) :
    Nested (.group opening :: frames) (k + 1)
  | inner {frames : List Frame} {k : Nat} {frame : Frame} {outer : Stacks}
    (hframe : frame.outer? = some outer) (houter : outer.Balanced 0 k) (h : Nested frames k) :
    Nested (frame :: frames) 1

theorem Nested.pos {frames : List Frame} {k : Nat} (h : Nested frames k) : 0 < k := by
  cases h with
  | none | inner => exact Nat.one_pos
  | group => exact Nat.succ_pos _

/-- The stacks that wait in the innermost frame. -/
theorem Nested.outer {frame : Frame} {frames : List Frame} {k : Nat} {outer : Stacks}
    (hframe : frame.outer? = some outer) (h : Nested (frame :: frames) k) :
    ∃ j, outer.Balanced 0 j ∧ Nested frames j := by
  cases h with
  | group => cases hframe
  | inner hframe' houter hmore =>
    rw [hframe, Option.some.injEq] at hframe'
    subst hframe'
    exact ⟨_, houter, hmore⟩

namespace State

/-- The operands that the mode has beyond those that wait for an operator. -/
def spare : Mode → Nat
  | .firstItem | .operand | .name _ => 0
  | .operator => 1

/-- The stacks of a parse and those that wait in its frames are balanced. -/
def Balanced (s : State) : Prop :=
  ∃ k, Nested s.frames k ∧ s.work.stack.Balanced (spare s.mode) k

theorem balanced_start : Balanced {} :=
  ⟨1, .none, Stacks.balanced_fresh⟩

/-- An expression inside a frame starts on stacks of its own. -/
theorem balanced_inner {frame : Frame} {frames : List Frame} {outer : Stacks} {k : Nat}
    (hframe : frame.outer? = some outer) (houter : outer.Balanced 0 k) (h : Nested frames k)
    (w : Work) {mode : Mode} (hmode : spare mode = 0) :
    Balanced ⟨w.fresh, frame :: frames, mode⟩ := by
  refine ⟨1, .inner hframe houter h, ?_⟩
  rw [hmode]
  exact Stacks.balanced_fresh

/-- What an expression inside a frame has been made into is an operand of what encloses it. -/
theorem balanced_resume {outer : Stacks} {k : Nat} (houter : outer.Balanced 0 k) (w : Work)
    (node : Node) : (w.resume outer node).stack.Balanced 1 k :=
  Work.balanced_pushNode (w := ⟨w.arena, outer⟩) houter node

theorem balanced_takeOperand {s : State} {k : Nat} (hframes : Nested s.frames k)
    (hstack : s.work.stack.Balanced 0 k) (t : Token) : Numbered (s.takeOperand t) Balanced := by
  have hliteral : ∀ l, Balanced (afterOperand s.frames (s.work.pushNode (.literal l))) := fun l =>
    ⟨k, hframes, Work.balanced_pushNode hstack _⟩
  unfold takeOperand
  simp only
  split
  · exact hliteral _
  · exact hliteral _
  · exact hliteral _
  · exact hliteral _
  · exact balanced_inner rfl hstack hframes _ rfl
  · rfl
  · rfl
  · exact hliteral _
  · exact hliteral _
  · exact ⟨k, hframes, hstack⟩
  · rename_i op _
    split
    · exact ⟨k, hframes, Work.balanced_pushUnary hstack⟩
    · cases op with
      | floor | binary _ => rfl
      | unary op =>
        split
        · exact ⟨k, hframes, Work.balanced_pushUnary hstack⟩
        · rfl
  · exact ⟨k + 1, .group t hframes, Work.balanced_pushFloor hstack⟩
  · exact balanced_inner rfl hstack hframes _ rfl
  · rfl

/-- What a token leads to is balanced. -/
def Shifts (v : Verdict) : Prop :=
  ∀ s, v = .shift s → s.Balanced

theorem shifts_shift {s : State} (h : s.Balanced) : Shifts (.shift s) := by
  rintro _ ⟨⟩
  exact h

/-- A complete conditional is an operand of what encloses it, which is complete as well. -/
theorem numbered_resume {frame : Frame} {frames : List Frame} {outer : Stacks} {k : Nat} {w : Work}
    (hframe : frame.outer? = some outer) (hframes : Nested (frame :: frames) k)
    (hstack : w.stack.Balanced 1 k) (node : Nat → Node) {next : Work → Except ParseError α}
    {q : α → Prop}
    (hnext : ∀ v rest j, v.stack.operators = .floor :: rest → Nested frames j →
      v.stack.Balanced 1 j → Numbered (next v) q) :
    Numbered (do next (← (w.resume outer (node (← w.top))).drain)) q := by
  obtain ⟨i, hi⟩ := Work.top_of_balanced hstack
  obtain ⟨j, houter, hmore⟩ := hframes.outer hframe
  obtain ⟨v, rest, hv, hfloor, hbalanced⟩ :=
    Work.drain_of_balanced (balanced_resume houter w (node i))
  rw [hi]
  show Numbered ((w.resume outer (node i)).drain >>= next) q
  rw [hv]
  exact hnext v rest j hfloor hmore hbalanced

theorem balanced_settle {frames : List Frame} {k : Nat} {w : Work} {rest : List Operator}
    (hframes : Nested frames k) (hfloor : w.stack.operators = .floor :: rest)
    (hstack : w.stack.Balanced 1 k) (t : Token) : Numbered (settle t frames w) Shifts := by
  induction frames generalizing w k rest with
  | nil => exact fun _ h => by cases h
  | cons frame frames ih =>
    obtain ⟨i, hi⟩ := Work.top_of_balanced hstack
    cases frame with
    | group opening =>
      rw [settle]
      split
      · cases hframes with
        | inner hframe => cases hframe
        | @group _ k _ hmore =>
          exact shifts_shift ⟨k, hmore, Work.balanced_popFloor hstack hmore.pos hfloor⟩
      · rfl
    | items opening callee done outer =>
      obtain ⟨j, houter, hmore⟩ := hframes.outer rfl
      rw [settle, hi]
      simp only [bind, Except.bind]
      split
      · exact shifts_shift (balanced_inner rfl houter hmore w rfl)
      · split
        · exact shifts_shift ⟨j, hmore, balanced_resume houter w _⟩
        · rfl
    | condition outer =>
      obtain ⟨j, houter, hmore⟩ := hframes.outer rfl
      rw [settle, hi]
      split
      · exact shifts_shift (balanced_inner rfl houter hmore w rfl)
      · rfl
    | consequent condition outer =>
      rw [settle]
      split
      · obtain ⟨j, houter, hmore⟩ := hframes.outer rfl
        rw [hi]
        exact shifts_shift (balanced_inner rfl houter hmore w rfl)
      · exact numbered_resume rfl hframes hstack (fun i => .conditional condition i none)
          fun v rest j hfloor hmore hbalanced => ih hmore hfloor hbalanced
    | alternative condition consequent outer =>
      rw [settle]
      exact numbered_resume rfl hframes hstack (fun i => .conditional condition consequent (some i))
        fun v rest j hfloor hmore hbalanced => ih hmore hfloor hbalanced

theorem balanced_takeOperator {frames : List Frame} {k : Nat} {w : Work} (hframes : Nested frames k)
    (hstack : w.stack.Balanced 1 k) (t : Token) : Numbered (takeOperator frames w t) Shifts := by
  have hsettle : Numbered (do settle t frames (← w.drain)) Shifts := by
    obtain ⟨v, rest, hv, hfloor, hbalanced⟩ := Work.drain_of_balanced hstack
    rw [hv]
    exact balanced_settle hframes hfloor hbalanced t
  unfold takeOperator
  split
  · rename_i op hkind
    cases op with
    | floor => exact hsettle
    | binary op =>
      obtain ⟨v, hv, hbalanced⟩ := Work.takeOperator_binary_of_balanced op hstack
      simp only [Operator.isUnaryPostfix, Operator.isBinary, if_true, hv]
      exact shifts_shift ⟨k, hframes, hbalanced⟩
    | unary op =>
      cases hop : op.isPostfix with
      | true =>
        obtain ⟨v, hv, hbalanced⟩ := Work.takeOperator_postfixOp_of_balanced hop hstack
        simp only [Operator.isUnaryPostfix, hop, if_true, hv]
        exact shifts_shift ⟨k, hframes, hbalanced⟩
      | false => simpa [Operator.isUnaryPostfix, hop, Operator.isBinary] using hsettle
  · exact hsettle

/-- One token keeps the stacks balanced, or is refused with a numbered error. -/
theorem balanced_step {s : State} (h : s.Balanced) (t : Token) : Numbered (s.step t) Shifts := by
  obtain ⟨w, frames, mode⟩ := s
  obtain ⟨k, hframes, hstack⟩ := h
  have hoperand : spare mode = 0 → Numbered (.shift <$> takeOperand ⟨w, frames, mode⟩ t) Shifts :=
    fun hmode => Numbered.map ((balanced_takeOperand (s := ⟨w, frames, mode⟩) hframes
      (hmode ▸ hstack) t).mono fun _ => shifts_shift)
  cases mode with
  | operand => exact hoperand rfl
  | firstItem =>
    unfold step
    dsimp only
    split
    · split
      · obtain ⟨j, houter, hmore⟩ := hframes.outer rfl
        exact shifts_shift ⟨j, hmore, balanced_resume houter w _⟩
      · exact hoperand rfl
    · exact hoperand rfl
  | name n =>
    unfold step
    dsimp only
    split
    · exact shifts_shift (balanced_inner rfl hstack hframes w rfl)
    · exact balanced_takeOperator hframes (Work.balanced_pushNode hstack _) t
  | operator => exact balanced_takeOperator hframes hstack t

/-! ## Whole parses -/

theorem numbered_finishFrames (last : Option Token) {frames : List Frame} {k : Nat} {w : Work}
    (hframes : Nested frames k) (hstack : w.stack.Balanced 1 k) :
    Numbered (finishFrames last frames w) fun _ => True := by
  induction frames generalizing w k with
  | nil => trivial
  | cons frame frames ih =>
    cases frame with
    | group | items | condition => rfl
    | consequent condition outer =>
      rw [finishFrames]
      exact numbered_resume rfl hframes hstack (fun i => .conditional condition i none)
        fun v rest j _ hmore hbalanced => ih hmore hbalanced
    | alternative condition consequent outer =>
      rw [finishFrames]
      exact numbered_resume rfl hframes hstack (fun i => .conditional condition consequent (some i))
        fun v rest j _ hmore hbalanced => ih hmore hbalanced

theorem numbered_finish (last : Option Token) {s : State} (h : s.Balanced) :
    Numbered (s.finish last) fun _ => True := by
  obtain ⟨w, frames, mode⟩ := s
  obtain ⟨k, hframes, hstack⟩ := h
  have hdrain : ∀ v : Work, v.stack.Balanced 1 k →
      Numbered (do finishFrames last frames (← v.drain)) fun _ => True := by
    intro v hv
    obtain ⟨u, rest, hu, -, hbalanced⟩ := Work.drain_of_balanced hv
    rw [hu]
    exact numbered_finishFrames last hframes hbalanced
  cases mode with
  | operand | firstItem => rfl
  | name n => exact hdrain _ (Work.balanced_pushNode hstack _)
  | operator => exact hdrain _ hstack

/-- A run from balanced stacks is refused with a numbered error, if at all. -/
theorem numbered_run (last : Option Token) (ts : List Token) {s : State} (h : s.Balanced) :
    Numbered (run last ts s) fun _ => True := by
  induction ts generalizing s with
  | nil => exact (numbered_finish last h).bind fun _ _ => trivial
  | cons t ts ih =>
    refine (balanced_step h t).bind fun v hv => ?_
    cases v with
    | shift s => exact ih (hv s rfl)
    | stop a => trivial

end State

theorem numbered_statement (tokens : List Token) : Numbered (statement tokens) fun _ => True :=
  State.numbered_run _ tokens State.balanced_start

theorem code?_leftover (t : Token) : (leftover t).code?.isSome = true := by
  unfold leftover
  split
  · split <;> rfl
  · rfl
  · rfl
  · rfl

end Parse

namespace Arena

open Parse

/-- Every refusal of tokens as an expression has a number. -/
theorem numbered_parse (tokens : List Token) : Numbered (parse tokens) fun _ => True := by
  refine (numbered_statement tokens).bind fun r _ => ?_
  obtain ⟨a, rest⟩ := r
  cases rest with
  | nil => trivial
  | cons t rest => exact code?_leftover t

/-- Every refusal of tokens as a tome has a number. -/
theorem numbered_parseTome (tokens : List Token) : Numbered (parseTome tokens) fun _ => True := by
  generalize hn : tokens.length = n
  induction n using Nat.strongRecOn generalizing tokens with
  | ind n ih =>
    rw [parseTome.eq_def]
    cases tokens with
    | nil => trivial
    | cons t ts =>
      dsimp only
      split
      · rfl
      · rfl
      · split
        · rename_i err herr
          have hnumbered := numbered_statement (t :: ts)
          rw [herr] at hnumbered
          exact hnumbered
        · rename_i a rest hok
          have hshorter : rest.length < n := hn ▸ length_lt_of_statement hok
          exact (ih rest.length hshorter rest rfl).bind fun _ _ => trivial

end Arena

end DiceTome
