import DiceTome.Proofs.FinalStacks

/-!
# Errors at the earliest token

A parse takes tokens one at a time and never gives one back. What it has taken can always be
completed: each open delimiter is closed, each `if` gets its `then`. What it does not take could not
have been taken whatever followed, so that an error is about the first token that makes the tokens
no expression, or about their end.

* `State.taken` counts the tokens that are taken, and `State.exists_after_taken` says where they
  lead.
* `Refuses` bounds the errors of a step: `State.refuses_step`, `State.refuses_finish`.
* `openDelimiters` are the delimiters that some tokens leave open; `State.openings_after` finds them
  in the frames.
* `State.completion` completes a parse, by `State.exists_run_completion`.
* `Arena.earliest_of_parse_error`: an error is about the first token that no completion takes.
-/

namespace DiceTome

open Token (bind_eq_ok)
open Climb

/-- The delimiters that are open behind a token, the innermost first. -/
def Token.openBehind (opened : List Token) (t : Token) : List Token :=
  match t.kind with
  | .delimiter .parenOpen | .delimiter .bracketOpen => t :: opened
  | .delimiter .parenClose | .delimiter .bracketClose => opened.tail
  | _ => opened

/-- The delimiters that some tokens leave open, the innermost first. -/
def openDelimiters (ts : List Token) : List Token :=
  ts.foldl Token.openBehind []

namespace Parse

/-! ## How far a parse goes -/

namespace State

/-- How many tokens a parse takes before it is refused or complete. -/
def taken : List Token → State → Nat
  | [], _ => 0
  | t :: ts, s =>
    match s.step t with
    | .ok (.shift s) => taken ts s + 1
    | _ => 0

/-- The tokens that are taken lead to where the next one is not. -/
theorem exists_after_taken (ts : List Token) (s : State) :
    ∃ used rest u, ts = used ++ rest ∧ used.length = taken ts s ∧ after used s = some u ∧
      ∀ t more v, rest = t :: more → u.step t ≠ .ok (.shift v) := by
  induction ts generalizing s with
  | nil =>
    refine ⟨[], [], s, rfl, rfl, rfl, ?_⟩
    rintro _ _ v ⟨⟩
  | cons t ts ih =>
    unfold taken
    split
    · rename_i s' hstep
      obtain ⟨used, rest, u, rfl, hlength, hafter, hnext⟩ := ih s'
      refine ⟨t :: used, rest, u, rfl, congrArg (· + 1) hlength, ?_, hnext⟩
      rw [after, hstep]
      exact hafter
    · rename_i hstep
      refine ⟨[], t :: ts, s, rfl, rfl, rfl, ?_⟩
      rintro _ _ v ⟨⟩
      exact hstep v

end State

/-! ## What an error is about -/

/-- A failure is an empty stack or has the property `q`. -/
def Refuses (x : Except ParseError α) (q : ParseError → Prop) : Prop :=
  ∀ err, x = .error err → err = .emptyStack ∨ q err

section

variable {q : ParseError → Prop}

theorem refuses_ok (a : α) : Refuses (.ok a) q := by
  rintro _ ⟨⟩

theorem refuses_error {err : ParseError} (h : q err) : Refuses (.error err : Except _ α) q := by
  rintro _ ⟨⟩
  exact .inr h

theorem refuses_emptyStack : Refuses (.error .emptyStack : Except ParseError α) q := by
  rintro _ ⟨⟩
  exact .inl rfl

theorem Refuses.bind {x : Except ParseError α} {f : α → Except ParseError β} (hx : Refuses x q)
    (hf : ∀ a, Refuses (f a) q) : Refuses (x >>= f) q := by
  cases x with
  | error err =>
    rintro _ ⟨⟩
    exact hx err rfl
  | ok a => exact hf a

theorem Refuses.map {x : Except ParseError α} (f : α → β) (hx : Refuses x q) :
    Refuses (f <$> x) q := by
  cases x with
  | error err =>
    rintro _ ⟨⟩
    exact hx err rfl
  | ok a => exact refuses_ok _

namespace Work

theorem refuses_apply (w : Work) (op : Operator) : Refuses (w.apply op) q := by
  unfold apply
  split
  · exact refuses_ok _
  · exact refuses_ok _
  · exact refuses_emptyStack

theorem refuses_reduceFrom (p : Operator → Bool) (ops : List Operator) (w : Work) :
    Refuses (reduceFrom p ops w) q := by
  induction ops generalizing w with
  | nil => exact refuses_emptyStack
  | cons top ops ih =>
    rw [reduceFrom]
    split
    · exact (refuses_apply w top).bind ih
    · exact refuses_ok _

theorem refuses_drain (w : Work) : Refuses w.drain q :=
  refuses_reduceFrom _ _ w

theorem refuses_top (w : Work) : Refuses w.top q := by
  unfold top
  split
  · exact refuses_ok _
  · exact refuses_emptyStack

theorem refuses_takeOperator (w : Work) (op : Operator) : Refuses (w.takeOperator op) q := by
  refine (refuses_reduceFrom _ _ w).bind fun v => ?_
  split
  · exact refuses_apply v op
  · exact refuses_ok _

end Work

end

namespace State

theorem refuses_settle (t : Token) (frames : List Frame) (w : Work) :
    Refuses (settle t frames w) fun err => err.token? = some t := by
  induction frames generalizing w with
  | nil => exact refuses_ok _
  | cons frame frames ih =>
    cases frame with
    | group opening =>
      rw [settle]
      split
      · exact refuses_ok _
      · exact refuses_error rfl
    | items opening callee done outer =>
      rw [settle]
      refine (Work.refuses_top w).bind fun i => ?_
      dsimp only
      split
      · exact refuses_ok _
      · split
        · exact refuses_ok _
        · exact refuses_error rfl
    | condition outer =>
      rw [settle]
      split
      · exact (Work.refuses_top w).bind fun i => refuses_ok _
      · exact refuses_error rfl
    | consequent condition outer =>
      rw [settle]
      split
      · exact (Work.refuses_top w).bind fun i => refuses_ok _
      · exact (Work.refuses_top w).bind fun i => (Work.refuses_drain _).bind ih
    | alternative condition consequent outer =>
      rw [settle]
      exact (Work.refuses_top w).bind fun i => (Work.refuses_drain _).bind ih

theorem refuses_takeOperator (frames : List Frame) (w : Work) (t : Token) :
    Refuses (takeOperator frames w t) fun err => err.token? = some t := by
  have hsettle : Refuses (do settle t frames (← w.drain)) fun err => err.token? = some t :=
    (Work.refuses_drain w).bind (refuses_settle t frames)
  unfold takeOperator
  split
  · split
    · exact (Work.refuses_takeOperator w _).bind fun _ => refuses_ok _
    · split
      · exact (Work.refuses_takeOperator w _).bind fun _ => refuses_ok _
      · exact hsettle
  · exact hsettle

theorem refuses_takeOperand (s : State) (t : Token) :
    Refuses (s.takeOperand t) fun err => err.token? = some t := by
  unfold takeOperand
  simp only
  split
  · exact refuses_ok _
  · exact refuses_ok _
  · exact refuses_ok _
  · exact refuses_ok _
  · exact refuses_ok _
  · exact refuses_error rfl
  · exact refuses_error rfl
  · exact refuses_ok _
  · exact refuses_ok _
  · exact refuses_ok _
  · split
    · exact refuses_ok _
    · split
      · exact refuses_ok _
      · exact refuses_error rfl
  · exact refuses_ok _
  · exact refuses_ok _
  · exact refuses_error rfl

/-- A token that is refused is what the error is about. -/
theorem refuses_step (s : State) (t : Token) :
    Refuses (s.step t) fun err => err.token? = some t := by
  have hoperand := (refuses_takeOperand s t).map Verdict.shift
  obtain ⟨w, frames, mode⟩ := s
  unfold step
  cases mode with
  | operand => exact hoperand
  | firstItem =>
    dsimp only
    split
    · split
      · exact refuses_ok _
      · exact hoperand
    · exact hoperand
  | name n =>
    dsimp only
    split
    · exact refuses_ok _
    · exact refuses_takeOperator _ _ t
  | operator => exact refuses_takeOperator _ _ t

end State

/-! ## Open delimiters -/

/-- The delimiter that a frame waits behind. -/
def Frame.opening? : Frame → Option Token
  | .group opening | .items opening _ _ _ => some opening
  | .condition _ | .consequent _ _ | .alternative _ _ _ => none

/-- The delimiters behind which frames wait, the innermost first. -/
def openings (frames : List Frame) : List Token :=
  frames.filterMap Frame.opening?

namespace State

theorem openBehind_closer {t opening : Token} (h : isDelimiter t (closerOf opening) = true)
    (opened : List Token) : t.openBehind opened = opened.tail := by
  have hkind := kind_of_isDelimiter h
  unfold closerOf at hkind
  unfold Token.openBehind
  split at hkind <;> rw [hkind]

theorem openings_settle {t : Token} {frames : List Frame} {w : Work} {s : State}
    (h : settle t frames w = .ok (.shift s)) :
    openings s.frames = Token.openBehind (openings frames) t := by
  induction frames generalizing w with
  | nil => cases h
  | cons frame frames ih =>
    rcases settle_cases h with ⟨_, hs, htakes⟩ | ⟨u, hends, hsettle⟩
    · cases hs
      cases htakes with
      | group hclose | items hclose =>
        rw [openBehind_closer hclose]
        rfl
      | comma hcomma =>
        rw [Token.openBehind, kind_of_isDelimiter hcomma]
        rfl
      | consequent hword | alternative hword =>
        rw [Token.openBehind, kind_of_isWord hword]
        rfl
    · cases hends with
      | consequent | alternative => exact ih hsettle

theorem openings_takeOperator {t : Token} {frames : List Frame} {w : Work} {s : State}
    (h : takeOperator frames w t = .ok (.shift s)) :
    openings s.frames = Token.openBehind (openings frames) t := by
  rcases takeOperator_cases h with ⟨op, u, hkind, -, ⟨-, hs⟩ | hs⟩ | ⟨u, -, hsettle⟩
  · cases hs
    rw [Token.openBehind, hkind]
    rfl
  · cases hs
    rw [Token.openBehind, hkind]
  · exact openings_settle hsettle

theorem openings_takeOperand {s s' : State} {t : Token} (h : s.takeOperand t = .ok s') :
    openings s'.frames = Token.openBehind (openings s.frames) t := by
  unfold takeOperand at h
  simp only at h
  unfold Token.openBehind
  split at h <;> rename_i hkind <;> rw [hkind]
  case h_11 =>
    split at h
    · cases h
      rfl
    · split at h <;> cases h
      rfl
  all_goals cases h
  all_goals rfl

theorem openings_step {s s' : State} {t : Token} (h : s.step t = .ok (.shift s')) :
    openings s'.frames = Token.openBehind (openings s.frames) t := by
  cases takes_of_step h with
  | operand h => exact openings_takeOperand h
  | noItems hframes hclose =>
    rw [openBehind_closer hclose, hframes]
    rfl
  | arguments hparen =>
    rw [Token.openBehind, kind_of_isDelimiter hparen]
    rfl
  | name _ h | operator _ h => exact openings_takeOperator h

/-- The frames wait behind the delimiters that the tokens have left open. -/
theorem openings_after {ts : List Token} {s u : State} (h : after ts s = some u) :
    openings u.frames = ts.foldl Token.openBehind (openings s.frames) := by
  induction ts generalizing s with
  | nil =>
    cases h
    rfl
  | cons t ts ih =>
    obtain ⟨s', hstep, h⟩ := after_cons h
    rw [ih h, openings_step hstep, List.foldl_cons]

/-- What the error at the end of the tokens is about. -/
inductive EndError (last : Option Token) (frames : List Frame) : ParseError → Prop
  | unexpected (expected : Expected) : EndError last frames (.unexpectedEnd expected last)
  | unmatched {opening : Token} (h : (openings frames).head? = some opening) :
    EndError last frames (.unmatched opening)

theorem refuses_finishFrames (last : Option Token) (frames : List Frame) (w : Work) :
    Refuses (finishFrames last frames w) (EndError last frames) := by
  induction frames generalizing w with
  | nil => exact refuses_ok _
  | cons frame frames ih =>
    -- a conditional is no delimiter, so it leaves the innermost one as it is
    have hbranch : openings (frame :: frames) = openings frames → ∀ w,
        Refuses (finishFrames last frames w) (EndError last (frame :: frames)) := by
      intro hopenings w err herr
      refine (ih w err herr).imp_right fun h => ?_
      cases h with
      | unexpected expected => exact .unexpected expected
      | unmatched h => exact .unmatched (hopenings ▸ h)
    cases frame with
    | group opening => exact refuses_error (.unmatched rfl)
    | items opening callee done outer => exact refuses_error (.unmatched rfl)
    | condition outer => exact refuses_error (.unexpected _)
    | consequent condition outer =>
      exact (Work.refuses_top w).bind fun i => (Work.refuses_drain _).bind (hbranch rfl)
    | alternative condition consequent outer =>
      exact (Work.refuses_top w).bind fun i => (Work.refuses_drain _).bind (hbranch rfl)

theorem refuses_finish (last : Option Token) (s : State) :
    Refuses (s.finish last) (EndError last s.frames) := by
  unfold finish
  split
  · exact refuses_error (.unexpected _)
  · exact refuses_error (.unexpected _)
  · exact (Work.refuses_drain _).bind (refuses_finishFrames last s.frames)
  · exact (Work.refuses_drain _).bind (refuses_finishFrames last s.frames)

end State

/-! ## Completing a parse -/

/-- A token of the given kind that stands nowhere. -/
def bare (kind : Token.Kind) : Token :=
  ⟨kind, "", ⟨{}, {}, none⟩⟩

/-- Tokens that complete an expression inside the given frames. -/
def endings : List Frame → List Token
  | [] => []
  | .group opening :: frames | .items opening _ _ _ :: frames =>
    bare (.delimiter (closerOf opening)) :: endings frames
  | .condition _ :: frames => bare (.identifier "then") :: bare (.natural 0) :: endings frames
  | .consequent _ _ :: frames | .alternative _ _ _ :: frames => endings frames

namespace State

/-- Tokens that complete a parse. -/
def completion (s : State) : List Token :=
  match s.mode with
  | .operand | .firstItem => bare (.natural 0) :: endings s.frames
  | .name _ | .operator => endings s.frames

theorem closerOf_cases (opening : Token) :
    closerOf opening = .parenClose ∨ closerOf opening = .bracketClose := by
  unfold closerOf
  split
  · exact .inr rfl
  · exact .inl rfl

/-- The first of the tokens goes on with nothing that stands before it. -/
theorem endings_stop (frames : List Frame) :
    Stops 0 ((endings frames).map Token.kind) ∧
      startsWithWord "else" ((endings frames).map Token.kind) = false ∧
      startsWith .parenOpen ((endings frames).map Token.kind) = false := by
  induction frames with
  | nil => exact ⟨trivial, rfl, rfl⟩
  | cons frame frames ih =>
    have hcloser : ∀ opening, startsWith .parenOpen
        (.delimiter (closerOf opening) :: (endings frames).map Token.kind) = false := by
      intro opening
      rcases closerOf_cases opening with h | h <;> rw [h] <;> rfl
    cases frame with
    | group opening => exact ⟨trivial, rfl, hcloser opening⟩
    | items opening callee done outer => exact ⟨trivial, rfl, hcloser opening⟩
    | condition outer => exact ⟨trivial, rfl, rfl⟩
    | consequent | alternative => exact ih

/-- A conditional that the tokens do not go on with is an operand of what encloses it. -/
theorem settled_consequent {last : Option Token} {ts : List Token}
    (hstops : Stops 0 (ts.map Token.kind))
    (helse : startsWithWord "else" (ts.map Token.kind) = false) (condition : Nat) (outer : Stacks)
    (frames : List Frame) (w : Work) :
    settled last (.consequent condition outer :: frames) ts w = w.top >>= fun i =>
      run last ts ⟨w.resume outer (.conditional condition i none), frames, .operator⟩ := by
  simp only [run_of_stops hstops]
  cases ts with
  | nil => simp only [settled, finishFrames, bind_assoc]
  | cons t ts =>
    rw [startsWithWord_map] at helse
    simp only [settled, settle, helse, Bool.false_eq_true, if_false, bind_assoc]

theorem settled_alternative {last : Option Token} {ts : List Token}
    (hstops : Stops 0 (ts.map Token.kind)) (condition consequent : Nat) (outer : Stacks)
    (frames : List Frame) (w : Work) :
    settled last (.alternative condition consequent outer :: frames) ts w = w.top >>= fun i =>
      run last ts
        ⟨w.resume outer (.conditional condition consequent (some i)), frames, .operator⟩ := by
  simp only [run_of_stops hstops]
  cases ts with
  | nil => simp only [settled, finishFrames, bind_assoc]
  | cons t ts => simp only [settled, settle, bind_assoc]

/-- Behind an operand inside the frames, the tokens that end the frames complete the parse. -/
def Endable (last : Option Token) (frames : List Frame) : Prop :=
  ∀ {k : Nat} {w : Work}, Nested frames k → w.stack.Balanced 1 k →
    ∃ a, run last (endings frames) ⟨w, frames, .operator⟩ = .ok (a, [])

/-- A closer leads behind an operand of what encloses its frame. -/
theorem Endable.settled_of_shift {last : Option Token} {frame : Frame} {frames : List Frame}
    {k : Nat} {u v : Work} {rest : List Operator} {t : Token} (h : Endable last frames)
    (hframes : Nested (frame :: frames) k) (hfloor : u.stack.operators = .floor :: rest)
    (hbalanced : u.stack.Balanced 1 k)
    (hsettle : settle t (frame :: frames) u = .ok (.shift ⟨v, frames, .operator⟩)) :
    ∃ a, settled last (frame :: frames) (t :: endings frames) u = .ok (a, []) := by
  have hshifts := balanced_settle hframes hfloor hbalanced t
  rw [hsettle] at hshifts
  obtain ⟨j, hmore, hv⟩ := hshifts _ rfl
  rw [settled, hsettle]
  exact h hmore hv

/-- A complete conditional is an operand of what encloses its frame. -/
theorem Endable.resumed {last : Option Token} {frame : Frame} {frames : List Frame} {k j : Nat}
    {outer : Stacks} {v : Work} (h : Endable last frames) (hframes : Nested (frame :: frames) k)
    (houter : frame.outer? = some outer) (hv : v.stack.Balanced 1 j) (node : Nat → Node) :
    ∃ a, (v.top >>= fun i =>
      run last (endings frames) ⟨v.resume outer (node i), frames, .operator⟩) = .ok (a, []) := by
  obtain ⟨i, hi⟩ := Work.top_of_balanced hv
  obtain ⟨j, hbalanced, hmore⟩ := hframes.outer houter
  rw [hi]
  exact h hmore (balanced_resume hbalanced v (node i))

/-- Behind an operand, what encloses it can be ended frame by frame. -/
theorem endable (last : Option Token) (frames : List Frame) : Endable last frames := by
  induction frames with
  | nil =>
    intro k w _ hstack
    obtain ⟨u, rest, hu, -, -⟩ := Work.drain_of_balanced hstack
    rw [run_of_stops (endings_stop []).1, hu]
    exact ⟨u.arena, rfl⟩
  | cons frame frames ih =>
    intro k w hframes hstack
    obtain ⟨u, rest, hu, hfloor, hbalanced⟩ := Work.drain_of_balanced hstack
    obtain ⟨i, hi⟩ := Work.top_of_balanced hbalanced
    obtain ⟨hstops, helse, -⟩ := endings_stop frames
    rw [run_of_stops (endings_stop (frame :: frames)).1, hu]
    show ∃ a, settled last (frame :: frames) (endings (frame :: frames)) u = _
    cases frame with
    | group opening =>
      have hsettle : settle (bare (.delimiter (closerOf opening))) (.group opening :: frames) u =
          .ok (.shift ⟨{ u with stack.operators := u.stack.operators.tail }, frames, .operator⟩) := by
        rw [settle, if_pos (by simp [isDelimiter, bare])]
        rfl
      exact ih.settled_of_shift hframes hfloor hbalanced hsettle
    | items opening callee done outer =>
      have hcomma : isDelimiter (bare (.delimiter (closerOf opening))) .comma = false := by
        rcases closerOf_cases opening with h | h <;> rw [h] <;> rfl
      have hcloser : isDelimiter (bare (.delimiter (closerOf opening))) (closerOf opening) =
          true := by simp [isDelimiter, bare]
      have hsettle : settle (bare (.delimiter (closerOf opening)))
          (.items opening callee done outer :: frames) u =
          .ok (.shift ⟨u.resume outer (itemsNode callee (done ++ [i])), frames, .operator⟩) := by
        simp only [settle, hi, bind, Except.bind, hcomma, hcloser, if_true, Bool.false_eq_true,
          if_false]
        rfl
      exact ih.settled_of_shift hframes hfloor hbalanced hsettle
    | condition outer =>
      have hthen : settle (bare (.identifier "then")) (.condition outer :: frames) u =
          .ok (.shift ⟨u.fresh, .consequent i outer :: frames, .operand⟩) := by
        rw [settle, hi]
        rfl
      rw [endings, settled, hthen]
      show ∃ a, run last (endings frames)
        ⟨u.fresh.pushNode (.literal (.natural 0)), .consequent i outer :: frames, .operator⟩ = _
      rw [run_of_floor hstops _ _ rfl, settled_consequent hstops helse]
      exact ih.resumed hframes rfl (Work.balanced_pushNode Stacks.balanced_fresh _) fun j =>
        .conditional i j none
    | consequent condition outer =>
      rw [endings, settled_consequent hstops helse]
      exact ih.resumed hframes rfl hbalanced fun i => .conditional condition i none
    | alternative condition consequent outer =>
      rw [endings, settled_alternative hstops]
      exact ih.resumed hframes rfl hbalanced fun i => .conditional condition consequent (some i)

/-- Every parse can be completed. -/
theorem exists_run_completion (last : Option Token) {s : State} (hs : s.Balanced) :
    ∃ a, run last s.completion s = .ok (a, []) := by
  obtain ⟨w, frames, mode⟩ := s
  obtain ⟨k, hframes, hstack⟩ := hs
  cases mode with
  | operand => exact endable last _ hframes (Work.balanced_pushNode hstack _)
  | firstItem =>
    have hstep : step ⟨w, frames, .firstItem⟩ (bare (.natural 0)) =
        .ok (.shift ⟨w.pushNode (.literal (.natural 0)), frames, .operator⟩) := by
      unfold step
      dsimp only
      split <;> rfl
    rw [completion, run, hstep]
    exact endable last _ hframes (Work.balanced_pushNode hstack _)
  | name n =>
    have hpush : w.pushTree (.name n) = w.pushNode (.name n) := by
      simp [Work.pushNode, Work.pushTree, Expr.plant]
    rw [completion, run_name (endings_stop frames).2.2, hpush]
    exact endable last _ hframes (Work.balanced_pushNode hstack _)
  | operator => exact endable last _ hframes hstack

end State

end Parse

/-! ## Errors of whole parses -/

theorem ParseError.exists_diagnostic {err : ParseError} (h : err.code?.isSome = true)
    (source : Option String) :
    ∃ d, err.diagnostic? source = some d ∧ err.code? = some d.code ∧
      d.span = err.token?.map Token.span := by
  obtain ⟨code, hcode⟩ := Option.isSome_iff_exists.mp h
  rw [diagnostic?, hcode]
  exact ⟨_, rfl, rfl, rfl⟩

namespace Arena

open Parse

variable {used : List Token} {u : State}

/-- What a parse takes is the beginning of an expression. -/
theorem exists_parse_completion (h : State.after used {} = some u) :
    ∃ a, parse (used ++ u.completion) = .ok a := by
  obtain ⟨a, ha⟩ := State.exists_run_completion (used ++ u.completion).getLast?
    (State.balanced_after h)
  refine ⟨a, parse_eq_ok_iff.mpr ?_⟩
  rw [statement, State.run_append_of_after _ _ h, ha]

/-- No expression begins with what a parse takes and a token that it does not take. -/
theorem not_parse_of_not_taken (h : State.after used {} = some u) {t : Token}
    (ht : ∀ v, u.step t ≠ .ok (.shift v)) (more : List Token) (a : Arena) :
    parse (used ++ t :: more) ≠ .ok a := by
  intro hparse
  rw [parse_eq_ok_iff, statement, State.run_append_of_after _ _ h, State.run] at hparse
  obtain ⟨verdict, hstep, hparse⟩ := bind_eq_ok hparse
  cases verdict with
  | shift v => exact ht v hstep
  | stop b => cases hparse

theorem token?_leftover (t : Token) : (leftover t).token? = some t := by
  unfold leftover
  split
  · split <;> rfl
  · rfl
  · rfl
  · rfl

/-- An error in front of a token that is not taken is about that token. -/
theorem token?_of_parse (h : State.after used {} = some u) {t : Token} {more : List Token}
    (ht : ∀ v, u.step t ≠ .ok (.shift v)) {err : ParseError}
    (herr : parse (used ++ t :: more) = .error err) : err.token? = some t := by
  have hnumbered := State.balanced_step (State.balanced_after h) t
  rw [parse, statement, State.run_append_of_after _ _ h, State.run] at herr
  cases hstep : u.step t with
  | error refusal =>
    rw [hstep] at herr hnumbered
    cases herr
    rcases State.refuses_step u t err hstep with rfl | htoken
    · cases hnumbered
    · exact htoken
  | ok verdict =>
    cases verdict with
    | shift v => exact absurd hstep (ht v)
    | stop a =>
      rw [hstep] at herr
      cases herr
      exact token?_leftover t

/-- An error where every token is taken is one about their end. -/
theorem endError_of_parse (h : State.after used {} = some u) {err : ParseError}
    (herr : parse used = .error err) : State.EndError used.getLast? u.frames err := by
  have hnumbered := State.numbered_finish used.getLast? (State.balanced_after h)
  have hrun := State.run_append_of_after used.getLast? [] h
  rw [List.append_nil] at hrun
  rw [parse, statement, hrun, State.run] at herr
  cases hfinish : u.finish used.getLast? with
  | error refusal =>
    rw [hfinish] at herr hnumbered
    cases herr
    rcases State.refuses_finish _ u err hfinish with rfl | hend
    · cases hnumbered
    · exact hend
  | ok a =>
    rw [hfinish] at herr
    cases herr

/-- An error is reported at the earliest token. What a parse has taken before it is the beginning of
an expression. If tokens are left, then no expression begins with that and the next token, which the
error is about; if none are left, the error is about the last token, or about the innermost
delimiter that is still open. -/
theorem earliest_of_parse_error {tokens : List Token} {err : ParseError}
    (h : parse tokens = .error err) :
    let p := State.taken tokens {}
    p ≤ tokens.length ∧ (∃ more a, parse (tokens.take p ++ more) = .ok a) ∧
    (∀ hp : p < tokens.length,
      (∀ more a, parse (tokens.take (p + 1) ++ more) ≠ .ok a) ∧
      ∀ source, ∃ d, err.diagnostic? source = some d ∧ d.span = some tokens[p].span) ∧
    (p = tokens.length → ∀ source, ∃ d, err.diagnostic? source = some d ∧
      (d.code = "E102" ∧ d.span = tokens.getLast?.map Token.span ∨
      d.code = "E103" ∧ ∃ opening, (openDelimiters tokens).head? = some opening ∧
        d.span = some opening.span)) := by
  have hnumbered := numbered_parse tokens
  rw [h] at hnumbered
  have hdiagnostic := ParseError.exists_diagnostic hnumbered
  obtain ⟨used, rest, u, rfl, hlength, hafter, hnext⟩ := State.exists_after_taken tokens {}
  rw [← hlength]
  dsimp only
  refine ⟨?_, ?_, fun hp => ?_, fun hp => ?_⟩
  · rw [List.length_append]
    exact Nat.le_add_right _ _
  · rw [List.take_left]
    exact ⟨u.completion, exists_parse_completion hafter⟩
  · have hrest : rest ≠ [] := by
      rintro rfl
      rw [List.append_nil] at hp
      exact Nat.lt_irrefl _ hp
    obtain ⟨t, more, rfl⟩ := List.exists_cons_of_ne_nil hrest
    have hrefused := fun v => hnext t more v rfl
    refine ⟨fun behind a => ?_, fun source => ?_⟩
    · rw [List.take_append, List.take_of_length_le (Nat.le_succ _), Nat.add_sub_cancel_left,
        List.append_assoc]
      exact not_parse_of_not_taken hafter hrefused behind a
    · obtain ⟨d, hd, -, hspan⟩ := hdiagnostic source
      refine ⟨d, hd, ?_⟩
      rw [hspan, token?_of_parse hafter hrefused h, List.getElem_append_right (Nat.le_refl _)]
      simp
  · obtain rfl : rest = [] := by
      rw [List.length_append] at hp
      exact List.eq_nil_of_length_eq_zero (by omega)
    rw [List.append_nil] at h ⊢
    intro source
    obtain ⟨d, hd, hcode, hspan⟩ := hdiagnostic source
    refine ⟨d, hd, ?_⟩
    cases endError_of_parse hafter h with
    | unexpected expected => exact .inl ⟨(Option.some.inj hcode).symm, hspan⟩
    | unmatched hopening =>
      rw [State.openings_after hafter] at hopening
      exact .inr ⟨(Option.some.inj hcode).symm, _, hopening, hspan⟩

theorem earliest_of_parse_error_call :
    let tokens := [.delimiter .bracketOpen, .identifier "f", .delimiter .parenOpen, .natural 1,
      .natural 2].map bare
    parse tokens = .error (.unexpectedToken (bare (.natural 2)) (.commaOrCloser .parenClose)) ∧
    (∃ more a, parse (tokens.take 4 ++ more) = .ok a) ∧
    ∀ more a, parse (tokens ++ more) ≠ .ok a := by
  intro tokens
  have h : parse tokens =
    .error (.unexpectedToken (bare (.natural 2)) (.commaOrCloser .parenClose)) := rfl
  have htaken : State.taken tokens {} = 4 := by decide +kernel
  have hearliest := earliest_of_parse_error h
  rw [htaken] at hearliest
  obtain ⟨-, hviable, hnext, -⟩ := hearliest
  exact ⟨h, hviable, (hnext (by decide)).1⟩

end Arena

end DiceTome
