import DiceTome.Proofs.Grammar
import DiceTome.Proofs.StackBalance
import DiceTome.Proofs.Tomes

/-!
# Where statements end

The statements of a tome have no terminator: a statement ends in front of the first token that
cannot go on with it. The parser decides that with what it has read so far, and never tries to read
less or more. It still cuts a tome into the longest statements: what it stops at would have been
refused at the end of any longer piece, and what it goes on with could have been read from the piece
alone.

* `State.settle_cases` and `State.takes_of_step` say once what a token can do to a parse.
* `State.finish_of_stop`: a token that ends an expression ends it as the end of the tokens does.
* `State.truncate_run`: a run that leaves tokens gives the same expression if some of them are cut
  off.
* `State.stop_of_finish`: where the tokens may end, only a few tokens can go on.
* `Segmented` cuts tokens into longest pieces that are parsed, and `Arena.parseTome_eq_segments`
  says that this is what parsing a tome does.
-/

namespace DiceTome

open Token (Kind bind_eq_ok)
open Climb

namespace Parse.State

/-! ## Taking a token -/

/-- The innermost frame goes on with a token behind an operand: its last delimiter, the comma before
another item, or the next word of a conditional. -/
inductive FrameTakes (t : Token) (frames : List Frame) (w : Work) : Frame → State → Prop
  | group {opening : Token} (hclose : isDelimiter t (closerOf opening) = true) :
    FrameTakes t frames w (.group opening)
      (afterOperand frames { w with stack.operators := w.stack.operators.tail })
  | comma {opening : Token} {callee : Option String} {done : List Nat} {outer : Stacks} {i : Nat}
    (hcomma : isDelimiter t .comma = true) :
    FrameTakes t frames w (.items opening callee done outer)
      ⟨w.fresh, .items opening callee (done ++ [i]) outer :: frames, .operand⟩
  | items {opening : Token} {callee : Option String} {done : List Nat} {outer : Stacks} {i : Nat}
    (hclose : isDelimiter t (closerOf opening) = true) :
    FrameTakes t frames w (.items opening callee done outer)
      (afterOperand frames (w.resume outer (itemsNode callee (done ++ [i]))))
  | consequent {outer : Stacks} {i : Nat} (hthen : isWord t "then" = true) :
    FrameTakes t frames w (.condition outer) ⟨w.fresh, .consequent i outer :: frames, .operand⟩
  | alternative {condition : Nat} {outer : Stacks} {i : Nat} (helse : isWord t "else" = true) :
    FrameTakes t frames w (.consequent condition outer)
      ⟨w.fresh, .alternative condition i outer :: frames, .operand⟩

/-- The innermost frame is a conditional that is complete, which makes it an operand of what encloses
it. -/
inductive FrameEnds (w : Work) : Frame → Work → Prop
  | consequent {condition : Nat} {outer : Stacks} {i : Nat} {u : Work} (hi : w.top = .ok i)
    (hu : (w.resume outer (.conditional condition i none)).drain = .ok u) :
    FrameEnds w (.consequent condition outer) u
  | alternative {condition consequent : Nat} {outer : Stacks} {i : Nat} {u : Work}
    (hi : w.top = .ok i)
    (hu : (w.resume outer (.conditional condition consequent (some i))).drain = .ok u) :
    FrameEnds w (.alternative condition consequent outer) u

/-- A token goes on inside the innermost frame, or ends it and settles what is around it. -/
theorem settle_cases {t : Token} {frame : Frame} {frames : List Frame} {w : Work} {v : Verdict}
    (h : settle t (frame :: frames) w = .ok v) :
    (∃ s, v = .shift s ∧ FrameTakes t frames w frame s) ∨
      ∃ u, FrameEnds w frame u ∧ settle t frames u = .ok v := by
  cases frame with
  | group opening =>
    rw [settle] at h
    split at h <;> cases h
    exact .inl ⟨_, rfl, .group ‹_›⟩
  | items opening callee done outer =>
    rw [settle] at h
    obtain ⟨i, -, h⟩ := bind_eq_ok h
    dsimp only at h
    split at h
    · cases h
      exact .inl ⟨_, rfl, .comma ‹_›⟩
    · split at h <;> cases h
      exact .inl ⟨_, rfl, .items ‹_›⟩
  | condition outer =>
    rw [settle] at h
    split at h
    · obtain ⟨i, -, h⟩ := bind_eq_ok h
      cases h
      exact .inl ⟨_, rfl, .consequent ‹_›⟩
    · cases h
  | consequent condition outer =>
    rw [settle] at h
    split at h
    · obtain ⟨i, -, h⟩ := bind_eq_ok h
      cases h
      exact .inl ⟨_, rfl, .alternative ‹_›⟩
    · obtain ⟨i, hi, h⟩ := bind_eq_ok h
      obtain ⟨u, hu, h⟩ := bind_eq_ok h
      exact .inr ⟨u, .consequent hi hu, h⟩
  | alternative condition consequent outer =>
    rw [settle] at h
    obtain ⟨i, hi, h⟩ := bind_eq_ok h
    obtain ⟨u, hu, h⟩ := bind_eq_ok h
    exact .inr ⟨u, .alternative hi hu, h⟩

theorem FrameTakes.mode {t : Token} {frame : Frame} {frames : List Frame} {w : Work} {s : State}
    (h : FrameTakes t frames w frame s) : s.mode = .operand ∨ s.mode = .operator := by
  cases h with
  | group | items => exact .inr rfl
  | comma | consequent | alternative => exact .inl rfl

theorem FrameEnds.finishFrames {frame : Frame} {w u : Work} (h : FrameEnds w frame u)
    (last : Option Token) (frames : List Frame) :
    finishFrames last (frame :: frames) w = finishFrames last frames u := by
  cases h with
  | consequent hi hu | alternative hi hu =>
    rw [State.finishFrames, hi]
    show (w.resume _ _).drain >>= _ = _
    rw [hu]
    rfl

/-- Every token but an `else` ends a complete conditional. -/
theorem FrameEnds.settle {frame : Frame} {w u : Work} (h : FrameEnds w frame u) {t : Token}
    (ht : isWord t "else" = false) (frames : List Frame) :
    settle t (frame :: frames) w = settle t frames u := by
  cases h with
  | consequent hi hu | alternative hi hu =>
    simp only [State.settle, ht, hi]
    show (w.resume _ _).drain >>= _ = _
    rw [hu]
    rfl

/-- Where the tokens may end, the innermost frame is a complete conditional. -/
theorem exists_frameEnds {last : Option Token} {frame : Frame} {frames : List Frame} {w : Work}
    {a : Arena} (h : finishFrames last (frame :: frames) w = .ok a) : ∃ u, FrameEnds w frame u := by
  cases frame with
  | group | items | condition => cases h
  | consequent =>
    obtain ⟨i, hi, h⟩ := bind_eq_ok h
    obtain ⟨u, hu, h⟩ := bind_eq_ok h
    exact ⟨u, .consequent hi hu⟩
  | alternative =>
    obtain ⟨i, hi, h⟩ := bind_eq_ok h
    obtain ⟨u, hu, h⟩ := bind_eq_ok h
    exact ⟨u, .alternative hi hu⟩

/-- Behind an operand a token is an operator, or settles what is open. -/
theorem takeOperator_cases {t : Token} {frames : List Frame} {w : Work} {v : Verdict}
    (h : takeOperator frames w t = .ok v) :
    (∃ op u, t.kind = .operator op ∧ w.takeOperator op = .ok u ∧
      ((op.isUnaryPostfix = true ∧ v = .shift (afterOperand frames u)) ∨
        v = .shift ⟨u, frames, .operand⟩)) ∨
      ∃ u, w.drain = .ok u ∧ settle t frames u = .ok v := by
  unfold takeOperator at h
  split at h
  · rename_i op hkind
    split at h
    · obtain ⟨u, hu, h⟩ := bind_eq_ok h
      cases h
      exact .inl ⟨op, u, hkind, hu, .inl ⟨‹_›, rfl⟩⟩
    · split at h
      · obtain ⟨u, hu, h⟩ := bind_eq_ok h
        cases h
        exact .inl ⟨op, u, hkind, hu, .inr rfl⟩
      · exact .inr (bind_eq_ok h)
  · exact .inr (bind_eq_ok h)

/-- How a parse goes on with a token, by what is due. -/
inductive Takes (s : State) (t : Token) : Verdict → Prop
  | operand {s' : State} (h : s.takeOperand t = .ok s') : Takes s t (.shift s')
  | noItems {opening : Token} {callee : Option String} {done : List Nat} {outer : Stacks}
    {frames : List Frame} (hframes : s.frames = .items opening callee done outer :: frames)
    (hclose : isDelimiter t (closerOf opening) = true) :
    Takes s t (.shift (afterOperand frames (s.work.resume outer (itemsNode callee []))))
  | arguments {n : String} (hparen : isDelimiter t .parenOpen = true) :
    Takes s t (.shift (s.openItems t (some n)))
  | name {n : String} {v : Verdict} (hmode : s.mode = .name n)
    (h : takeOperator s.frames (s.work.pushNode (.name n)) t = .ok v) : Takes s t v
  | operator {v : Verdict} (hmode : s.mode = .operator)
    (h : takeOperator s.frames s.work t = .ok v) : Takes s t v

theorem takes_of_step {s : State} {t : Token} {v : Verdict} (h : s.step t = .ok v) :
    s.Takes t v := by
  have hoperand : Verdict.shift <$> s.takeOperand t = .ok v → s.Takes t v := by
    intro h
    cases hs : s.takeOperand t with
    | error err =>
      rw [hs] at h
      cases h
    | ok u =>
      rw [hs] at h
      cases h
      exact .operand hs
  obtain ⟨w, frames, mode⟩ := s
  unfold step at h
  cases mode with
  | operand => exact hoperand h
  | firstItem =>
    dsimp only at h
    split at h
    · split at h
      · cases h
        exact .noItems rfl ‹_›
      · exact hoperand h
    · exact hoperand h
  | name n =>
    dsimp only at h
    split at h
    · cases h
      exact .arguments ‹_›
    · exact .name rfl h
  | operator => exact .operator rfl h

/-! ## Stopping in front of a token -/

/-- Conditionals that a token ends are ended in the same way by the end of the tokens. -/
theorem finishFrames_of_settle (last : Option Token) {t : Token} {frames : List Frame} {w : Work}
    {a : Arena} (h : settle t frames w = .ok (.stop a)) : finishFrames last frames w = .ok a := by
  induction frames generalizing w with
  | nil =>
    cases h
    rfl
  | cons frame frames ih =>
    rcases settle_cases h with ⟨s, hs, -⟩ | ⟨u, hends, hsettle⟩
    · cases hs
    · rw [hends.finishFrames]
      exact ih hsettle

/-- A token that ends an expression ends it as the end of the tokens does. -/
theorem finish_of_stop (last : Option Token) {s : State} {t : Token} {a : Arena}
    (h : s.step t = .ok (.stop a)) : s.finish last = .ok a := by
  have htake : ∀ w, takeOperator s.frames w t = .ok (.stop a) →
      (do finishFrames last s.frames (← w.drain)) = .ok a := by
    intro w h
    rcases takeOperator_cases h with ⟨_, _, -, -, ⟨-, hs⟩ | hs⟩ | ⟨u, hu, hsettle⟩
    · cases hs
    · cases hs
    · rw [hu]
      exact finishFrames_of_settle last hsettle
  unfold finish
  cases takes_of_step h with
  | name hmode h =>
    rw [hmode]
    exact htake _ h
  | operator hmode h =>
    rw [hmode]
    exact htake _ h

theorem finishFrames_ok {last : Option Token} (last' : Option Token) {frames : List Frame}
    {w : Work} {a : Arena} (h : finishFrames last frames w = .ok a) :
    finishFrames last' frames w = .ok a := by
  induction frames generalizing w with
  | nil => exact h
  | cons frame frames ih =>
    obtain ⟨u, hends⟩ := exists_frameEnds h
    rw [hends.finishFrames] at h ⊢
    exact ih h

/-- The last token only matters to the error about its end. -/
theorem finish_ok {last : Option Token} (last' : Option Token) {s : State} {a : Arena}
    (h : s.finish last = .ok a) : s.finish last' = .ok a := by
  obtain ⟨w, frames, mode⟩ := s
  cases mode with
  | operand | firstItem => cases h
  | name | operator =>
    obtain ⟨v, hv, h⟩ := bind_eq_ok h
    simp only [finish]
    rw [hv]
    exact finishFrames_ok last' h

/-- A run that leaves tokens gives the same expression if some of those are cut off. -/
theorem truncate_run {last : Option Token} {ts rest : List Token} {s : State} {a : Arena}
    (h : run last ts s = .ok (a, rest)) :
    ∃ used, ts = used ++ rest ∧
      ∀ last' left, left <+: rest → run last' (used ++ left) s = .ok (a, left) := by
  induction ts generalizing s with
  | nil =>
    obtain ⟨b, hb, h⟩ := bind_eq_ok h
    cases h
    refine ⟨[], rfl, fun last' left hleft => ?_⟩
    obtain rfl : left = [] := List.prefix_nil.mp hleft
    rw [List.append_nil, run, finish_ok last' hb]
    rfl
  | cons t ts ih =>
    obtain ⟨verdict, hstep, h⟩ := bind_eq_ok h
    cases verdict with
    | shift s' =>
      obtain ⟨used, rfl, hused⟩ := ih h
      refine ⟨t :: used, rfl, fun last' left hleft => ?_⟩
      rw [List.cons_append, run, hstep]
      exact hused last' left hleft
    | stop b =>
      cases h
      refine ⟨[], rfl, fun last' left hleft => ?_⟩
      rcases left with _ | ⟨t', left⟩
      · rw [List.append_nil, run, finish_of_stop last' hstep]
        rfl
      · obtain ⟨rfl, -⟩ := List.cons_prefix_cons.mp hleft
        rw [List.nil_append, run, hstep]
        rfl

/-! ## Going on behind a complete expression -/

theorem settle_of_finishFrames {last : Option Token} {t : Token} (ht : isWord t "else" = false)
    {frames : List Frame} {w : Work} {a : Arena} (h : finishFrames last frames w = .ok a) :
    settle t frames w = .ok (.stop a) := by
  induction frames generalizing w with
  | nil =>
    cases h
    rfl
  | cons frame frames ih =>
    obtain ⟨u, hends⟩ := exists_frameEnds h
    rw [hends.settle ht]
    rw [hends.finishFrames] at h
    exact ih h

/-- The tokens that can go on with a complete expression: an `else`, an operator behind an operand,
and the parenthesis behind a name. -/
inductive GoesOn (s : State) (t : Token) : Prop
  | alternative (h : t.kind = .identifier "else")
  | binary (op : BinaryOp) (h : t.kind = .operator (.binary op))
  | suffix (op : UnaryOp) (hop : op.isPostfix = true) (h : t.kind = .operator (.unary op))
  | arguments (n : String) (hmode : s.mode = .name n) (h : t.kind = .delimiter .parenOpen)

theorem kind_of_isWord {t : Token} {word : String} (h : isWord t word = true) :
    t.kind = .identifier word := by
  unfold isWord at h
  split at h
  · rename_i n hkind
    rw [hkind, of_decide_eq_true h]
  · cases h

theorem kind_of_isDelimiter {t : Token} {d : Delimiter} (h : isDelimiter t d = true) :
    t.kind = .delimiter d := by
  unfold isDelimiter at h
  split at h
  · rename_i e hkind
    rw [hkind, of_decide_eq_true h]
  · cases h

/-- Where the tokens may end, every token that cannot go on ends the expression. -/
theorem stop_of_finish {last : Option Token} {s : State} {a : Arena} (h : s.finish last = .ok a)
    {t : Token} (ht : ¬ s.GoesOn t) : s.step t = .ok (.stop a) := by
  have hword : isWord t "else" = false :=
    eq_false_of_ne_true fun hword => ht (.alternative (kind_of_isWord hword))
  have htake : ∀ w, (do finishFrames last s.frames (← w.drain)) = .ok a →
      takeOperator s.frames w t = .ok (.stop a) := by
    intro w h
    obtain ⟨v, hv, h⟩ := bind_eq_ok h
    have hsettle : (do settle t s.frames (← w.drain)) = .ok (.stop a) := by
      rw [hv]
      exact settle_of_finishFrames hword h
    unfold takeOperator
    split
    · rename_i op hkind
      cases op with
      | floor => exact hsettle
      | binary op => exact absurd (.binary op hkind) ht
      | unary op =>
        cases hop : op.isPostfix with
        | true => exact absurd (.suffix op hop hkind) ht
        | false => simpa [Operator.isUnaryPostfix, hop, Operator.isBinary] using hsettle
    · exact hsettle
  obtain ⟨w, frames, mode⟩ := s
  cases mode with
  | operand | firstItem => cases h
  | name n =>
    have hparen : isDelimiter t .parenOpen = false :=
      eq_false_of_ne_true fun hparen => ht (.arguments n rfl (kind_of_isDelimiter hparen))
    simp only [step, hparen]
    exact htake _ h
  | operator => exact htake w h

/-! ## Names at the end -/

theorem mode_of_settle {t : Token} {frames : List Frame} {w : Work} {s : State}
    (h : settle t frames w = .ok (.shift s)) : s.mode = .operand ∨ s.mode = .operator := by
  induction frames generalizing w with
  | nil => cases h
  | cons frame frames ih =>
    rcases settle_cases h with ⟨s', hs, htakes⟩ | ⟨u, -, hsettle⟩
    · cases hs
      exact htakes.mode
    · exact ih hsettle

theorem mode_of_takeOperator {t : Token} {frames : List Frame} {w : Work} {s : State}
    (h : takeOperator frames w t = .ok (.shift s)) : s.mode = .operand ∨ s.mode = .operator := by
  rcases takeOperator_cases h with ⟨_, u, -, -, ⟨-, hs⟩ | hs⟩ | ⟨u, -, hsettle⟩
  · cases hs
    exact .inr rfl
  · cases hs
    exact .inl rfl
  · exact mode_of_settle hsettle

theorem name_of_takeOperand {s s' : State} {t : Token} {n : String}
    (h : s.takeOperand t = .ok s') (hmode : s'.mode = .name n) :
    t.kind = .identifier n ∧ isKeyword n = false := by
  unfold takeOperand at h
  simp only at h
  split at h
  case h_10 name _ _ _ _ _ hkind =>
    cases h
    cases hmode
    exact ⟨hkind, by simp_all [isKeyword]⟩
  case h_11 =>
    split at h
    · cases h
      cases hmode
    · split at h
      · cases h
        cases hmode
      · cases h
  all_goals
    cases h
    try cases hmode

/-- A name is what the last token was. -/
theorem name_of_step {s s' : State} {t : Token} {n : String} (h : s.step t = .ok (.shift s'))
    (hmode : s'.mode = .name n) : t.kind = .identifier n ∧ isKeyword n = false := by
  have htake : ∀ w, takeOperator s.frames w t ≠ .ok (.shift s') := by
    intro w h
    rcases mode_of_takeOperator h with h | h <;>
    · rw [hmode] at h
      cases h
  cases takes_of_step h with
  | operand h => exact name_of_takeOperand h hmode
  | noItems | arguments => cases hmode
  | name _ h | operator _ h => exact absurd h (htake _)

/-- The tokens end in a name that is no word of the language. -/
def EndInName (n : String) (ts : List Token) : Prop :=
  ∃ before t, ts = before ++ [t] ∧ t.kind = .identifier n ∧ isKeyword n = false

/-- A run that uses every token can be taken up where they end. -/
theorem split_run {last : Option Token} {ts : List Token} {s : State} {a : Arena}
    (h : run last ts s = .ok (a, [])) :
    ∃ s' : State, s'.finish last = .ok a ∧
      (∀ last' more, run last' (ts ++ more) s = run last' more s') ∧
      ∀ n, s'.mode = .name n → ts = [] ∧ s' = s ∨ EndInName n ts := by
  induction ts generalizing s with
  | nil =>
    obtain ⟨b, hb, h⟩ := bind_eq_ok h
    cases h
    exact ⟨s, hb, fun _ _ => rfl, fun _ _ => .inl ⟨rfl, rfl⟩⟩
  | cons t ts ih =>
    obtain ⟨verdict, hstep, h⟩ := bind_eq_ok h
    cases verdict with
    | stop b => cases h
    | shift s₁ =>
      obtain ⟨s', hfinish, hmore, hname⟩ := ih h
      refine ⟨s', hfinish, fun last' more => ?_, fun n hn => .inr ?_⟩
      · rw [List.cons_append, run, hstep]
        exact hmore last' more
      · rcases hname n hn with ⟨rfl, rfl⟩ | ⟨before, u, rfl, hu⟩
        · exact ⟨[], t, rfl, name_of_step hstep hn⟩
        · exact ⟨t :: before, u, rfl, hu⟩

end Parse.State

/-! ## Expressions that go on -/

namespace Outline

/-- A name ends no part of an expression. -/
theorem settle_identifier {n : String} (hn : isKeyword n = false) (frames : List Open) :
    settle (.identifier n) frames = none := by
  simp only [isKeyword, Bool.or_eq_false_iff, decide_eq_false_iff_not] at hn
  induction frames with
  | nil => rfl
  | cons f frames ih =>
    cases f with
    | items square => cases square <;> rfl
    | condition => simp [settle, startsWithWord, hn]
    | consequent => simpa [settle, startsWithWord, hn] using ih
    | alternative => exact ih
    | group => rfl

/-- Behind a name that may be the end, arguments may follow as well. -/
theorem exists_behindName {n : String} (hn : isKeyword n = false) {o : Outline} {ts : List Kind}
    (h : o.accepts (ts ++ [.identifier n]) = true) :
    ∃ branches : List Open, branches.all isBranch = true ∧
      ∀ rest, accepts ⟨branches, .behindName⟩ rest = true →
        o.accepts (ts ++ .identifier n :: rest) = true := by
  induction ts generalizing o with
  | nil =>
    obtain ⟨frames, due⟩ := o
    have hoperand : takeOperand frames (.identifier n) = some ⟨frames, .behindName⟩ := by
      simp only [isKeyword, Bool.or_eq_false_iff, decide_eq_false_iff_not] at hn
      simp [takeOperand, hn]
    have hstep : step ⟨frames, due⟩ (.identifier n) = some ⟨frames, .behindName⟩ := by
      cases due with
      | operand => exact hoperand
      | firstItem =>
        cases frames with
        | nil => exact hoperand
        | cons f frames => cases f <;> exact hoperand
      | behindName | operator =>
        simp [accepts, step, startsWith, takeOperator, settle_identifier hn] at h
    refine ⟨frames, ?_, fun rest hrest => ?_⟩
    · simpa [accepts, hstep, ends] using h
    · simpa [accepts, hstep] using hrest
  | cons t ts ih =>
    rw [List.cons_append, accepts] at h
    split at h
    · cases h
    · rename_i o' hstep
      obtain ⟨branches, hbranches, hrest⟩ := ih h
      refine ⟨branches, hbranches, fun rest haccepts => ?_⟩
      rw [List.cons_append, accepts, hstep]
      exact hrest rest haccepts

end Outline

namespace Grammar

/-- The name at the end of an expression may be called. -/
theorem IsExpr.append_arguments {n : String} (hn : isKeyword n = false) {ts args : List Kind}
    (h : IsExpr (ts ++ [.identifier n])) (hargs : IsItems args) :
    IsExpr (ts ++ .identifier n :: .delimiter .parenOpen :: (args ++ [.delimiter .parenClose])) := by
  rw [isExpr_iff_accepts] at h ⊢
  obtain ⟨branches, hbranches, hrest⟩ := Outline.exists_behindName hn h
  exact hrest _ (hargs.accepts false (Outline.follows_nil hbranches))

/-- Of the tokens that go on behind an operand only a minus sign starts an expression. -/
theorem isExpr_of_operator {op : BinaryOp} {ts : List Kind}
    (h : IsExpr (.operator (.binary op) :: ts)) : op = .sub ∧ IsExpr ts := by
  rw [isExpr_iff_accepts] at h
  cases op with
  | sub => exact ⟨rfl, (isExpr_iff_accepts ts).mpr h⟩
  | _ => cases h

/-- An expression in parentheses with more behind it, which may stand behind any expression. -/
theorem exists_of_isExpr_paren {ts : List Kind} (h : IsExpr (.delimiter .parenOpen :: ts)) :
    ∃ inner more, ts = inner ++ .delimiter .parenClose :: more ∧ IsExpr inner ∧
      ∀ used, IsExpr used → IsExpr (used ++ more) := by
  obtain ⟨e, hlevel⟩ := Outline.level_of_accepts_start ((isExpr_iff_accepts _).mp h)
  cases levelReads_of_level hlevel with
  | prefixOp hop => cases hop
  | primary _ hprimary hclimb =>
    cases hprimary with
    | group hinner =>
      obtain ⟨used, rfl, hused⟩ := isExpr_of_level _ 0 ts _ _ (Nat.lt_succ_self _) hinner
      obtain ⟨more, hmore, hjoin⟩ := isExpr_of_climbReads (isExpr_of_level _) (Nat.le_refl _) hclimb
      rw [List.append_nil] at hmore
      exact ⟨used, more, by rw [← hmore], hused, hjoin⟩

end Grammar

/-! ## Segments -/

namespace Arena

open Parse

theorem parse_eq_ok_iff {ts : List Token} {a : Arena} :
    parse ts = .ok a ↔ statement ts = .ok (a, []) := by
  constructor
  · intro h
    obtain ⟨⟨b, rest⟩, hstatement, h⟩ := bind_eq_ok h
    cases rest with
    | nil =>
      cases h
      exact hstatement
    | cons t rest => cases h
  · intro h
    rw [parse, h]
    rfl

theorem isExpr_of_parse {ts : List Token} {a : Arena} (h : parse ts = .ok a) :
    Grammar.IsExpr (ts.map Token.kind) := by
  obtain ⟨e, hread, -⟩ := parse_ok_iff.mp h
  exact (Grammar.isSome_parse_iff _).mp (by simp [hread])

theorem exists_parse_of_isExpr {ts : List Token} (h : Grammar.IsExpr (ts.map Token.kind)) :
    ∃ a, parse ts = .ok a := by
  obtain ⟨e, he⟩ := Option.isSome_iff_exists.mp ((Grammar.isSome_parse_iff _).mpr h)
  exact ⟨_, parse_ok_iff.mpr ⟨e, he, rfl⟩⟩

/-- If a token goes on with a complete expression, so does every expression that starts with it. -/
theorem exists_parse_append {segment next : List Token} {t : Token} {a b : Arena} {s : State}
    (hparse : parse segment = .ok a) (hnext : parse (t :: next) = .ok b)
    (hname : ∀ n, s.mode = .name n → State.EndInName n segment) (ht : s.GoesOn t) :
    ∃ c, parse (segment ++ t :: next) = .ok c := by
  have hsegment := isExpr_of_parse hparse
  have hexpr := isExpr_of_parse hnext
  apply exists_parse_of_isExpr
  rw [List.map_append]
  rw [List.map_cons] at hexpr ⊢
  cases ht with
  | alternative hkind =>
    rw [hkind, Grammar.isExpr_iff_accepts] at hexpr
    cases hexpr
  | binary op hkind =>
    rw [hkind] at hexpr ⊢
    exact (Grammar.isExpr_of_operator hexpr).2.append_binary op hsegment
  | suffix op hop hkind =>
    rw [hkind, Grammar.isExpr_iff_accepts] at hexpr
    simp [Outline.accepts, Outline.step, Outline.takeOperand, prefixOp?, hop] at hexpr
  | arguments n hmode hkind =>
    obtain ⟨before, u, rfl, hu, hn⟩ := hname n hmode
    rw [hkind] at hexpr ⊢
    rw [List.map_append, List.map_singleton, hu] at hsegment ⊢
    obtain ⟨inner, more, hsplit, hinner, hmore⟩ := Grammar.exists_of_isExpr_paren hexpr
    have hcall := hsegment.append_arguments hn (.some (.last hinner))
    have hall := hmore _ hcall
    rw [hsplit]
    simpa using hall

/-- A longest piece is where the parser stops, if what follows starts with another one. -/
theorem statement_of_longest {segment rest : List Token} {a : Arena}
    (hparse : parse segment = .ok a)
    (hlongest : ∀ left, left <+: rest → left ≠ [] → ∀ b, parse (segment ++ left) ≠ .ok b)
    (hnext : rest ≠ [] → ∃ left b, left <+: rest ∧ left ≠ [] ∧ parse left = .ok b) :
    statement (segment ++ rest) = .ok (a, rest) := by
  obtain ⟨s, hfinish, hrun, hname⟩ := State.split_run (parse_eq_ok_iff.mp hparse)
  rw [statement, hrun]
  cases rest with
  | nil =>
    rw [State.run, State.finish_ok _ hfinish]
    rfl
  | cons t rest =>
    have ht : ¬ s.GoesOn t := by
      intro ht
      obtain ⟨left, b, hleft, hne, hb⟩ := hnext (List.cons_ne_nil t rest)
      cases left with
      | nil => exact hne rfl
      | cons t' next =>
        obtain ⟨rfl, -⟩ := List.cons_prefix_cons.mp hleft
        have hends : ∀ n, s.mode = .name n → State.EndInName n segment := by
          intro n hn
          rcases hname n hn with ⟨-, rfl⟩ | hends
          · cases hn
          · exact hends
        obtain ⟨c, hc⟩ := exists_parse_append hparse hb hends ht
        exact hlongest _ hleft hne c hc
    rw [State.run, State.stop_of_finish hfinish ht]
    rfl

/-- Tokens cut into pieces, each the longest piece from the front of what is left that is parsed by
itself, with the expressions that the pieces are parsed as. -/
inductive Segmented : List Token → List Arena → Prop
  | nil : Segmented [] []
  | cons {segment rest : List Token} {a : Arena} {as : List Arena} (hne : segment ≠ [])
      (hparse : parse segment = .ok a)
      (hlongest : ∀ longer, longer <+: segment ++ rest → segment.length < longer.length →
        ∀ b, parse longer ≠ .ok b)
      (hrest : Segmented rest as) : Segmented (segment ++ rest) (a :: as)

/-- What is cut into pieces starts with one. -/
theorem Segmented.exists_parse {ts : List Token} {as : List Arena} (h : Segmented ts as)
    (hne : ts ≠ []) : ∃ left b, left <+: ts ∧ left ≠ [] ∧ parse left = .ok b := by
  cases h with
  | nil => exact absurd rfl hne
  | cons hsegment hparse hlongest hrest => exact ⟨_, _, List.prefix_append _ _, hsegment, hparse⟩

theorem not_closer_of_statement {t : Token} {ts rest : List Token} {a : Arena}
    (h : statement (t :: ts) = .ok (a, rest)) :
    t.kind ≠ .delimiter .parenClose ∧ t.kind ≠ .delimiter .bracketClose := by
  constructor <;>
  · intro hkind
    simp only [statement, State.run, State.step, State.takeOperand, hkind] at h
    cases h

theorem parseTome_of_segmented {ts : List Token} {as : List Arena} (h : Segmented ts as) :
    parseTome ts = .ok as := by
  induction h with
  | nil =>
    rw [parseTome.eq_def]
  | @cons segment rest a as hne hparse hlongest hrest ih =>
    have hlonger : ∀ left, left <+: rest → left ≠ [] → ∀ b, parse (segment ++ left) ≠ .ok b := by
      intro left hleft hleftNe b
      refine hlongest _ ((List.prefix_append_right_inj segment).mpr hleft) ?_ b
      rw [List.length_append]
      have := List.length_pos_iff.mpr hleftNe
      omega
    have hstatement := statement_of_longest hparse hlonger hrest.exists_parse
    cases segment with
    | nil => exact absurd rfl hne
    | cons t ts =>
      rw [List.cons_append] at hstatement ⊢
      obtain ⟨hparen, hbracket⟩ := not_closer_of_statement hstatement
      rw [parseTome_of_ok hstatement hparen hbracket, ih]
      rfl

/-- What the parser stops at is in no longer piece that is parsed. -/
theorem longest_of_statement {ts rest : List Token} {a : Arena}
    (h : statement ts = .ok (a, rest)) :
    ∃ segment, ts = segment ++ rest ∧ parse segment = .ok a ∧
      ∀ longer, longer <+: ts → segment.length < longer.length → ∀ b, parse longer ≠ .ok b := by
  obtain ⟨segment, rfl, hcut⟩ := State.truncate_run h
  refine ⟨segment, rfl, ?_, fun longer hlonger hlength b hb => ?_⟩
  · rw [parse_eq_ok_iff, statement]
    simpa using hcut segment.getLast? [] List.nil_prefix
  · obtain ⟨left, rfl⟩ := List.prefix_of_prefix_length_le (List.prefix_append segment rest) hlonger
      (Nat.le_of_lt hlength)
    have hleft : left <+: rest := (List.prefix_append_right_inj segment).mp hlonger
    rw [parse_eq_ok_iff, statement, hcut _ left hleft, Except.ok.injEq, Prod.mk.injEq] at hb
    simp [hb.2] at hlength

theorem segmented_of_parseTome {ts : List Token} {as : List Arena} (h : parseTome ts = .ok as) :
    Segmented ts as := by
  induction hn : ts.length using Nat.strongRecOn generalizing ts as with
  | ind n ih =>
    subst hn
    cases ts with
    | nil =>
      rw [parseTome.eq_def] at h
      cases h
      exact .nil
    | cons t ts =>
      cases hstatement : statement (t :: ts) with
      | error err =>
        obtain ⟨err, herr⟩ := parseTome_of_error hstatement
        rw [herr] at h
        cases h
      | ok p =>
        obtain ⟨a, rest⟩ := p
        obtain ⟨hparen, hbracket⟩ := not_closer_of_statement hstatement
        have hshorter := length_lt_of_statement hstatement
        rw [parseTome_of_ok hstatement hparen hbracket] at h
        cases hmore : parseTome rest with
        | error err =>
          rw [hmore] at h
          cases h
        | ok more =>
          rw [hmore] at h
          cases h
          obtain ⟨segment, hsplit, hparse, hlongest⟩ := longest_of_statement hstatement
          have hne : segment ≠ [] := by
            rintro rfl
            simp [hsplit] at hshorter
          rw [hsplit] at hlongest ⊢
          exact .cons hne hparse hlongest (ih rest.length hshorter hmore rfl)

/-- Parsing a tome cuts it into the longest pieces that are parsed by themselves, and gives what they
are parsed as. Where there are no such pieces, it is refused with a numbered error. -/
theorem parseTome_eq_segments (tokens : List Token) :
    (∀ as, parseTome tokens = .ok as ↔ Segmented tokens as) ∧
      ((∃ as, Segmented tokens as) ∨
        ∃ err, parseTome tokens = .error err ∧ err.code?.isSome = true) := by
  refine ⟨fun as => ⟨segmented_of_parseTome, parseTome_of_segmented⟩, ?_⟩
  have hnumbered := numbered_parseTome tokens
  cases h : parseTome tokens with
  | ok as => exact .inl ⟨as, segmented_of_parseTome h⟩
  | error err =>
    rw [h] at hnumbered
    exact .inr ⟨err, rfl, hnumbered⟩

end Arena

end DiceTome
