import DiceTome.Proofs.Bindings
import DiceTome.Proofs.Tomes
import DiceTome.Proofs.ValueText

/-!
# The lines of a tome

A context is written as one line for each definition. The lines need no separator but the end of
the line: each starts with a name, and no expression goes on with a name behind it.

* `Line text e`: the text is read as the statement `e` in front of any other line.
* `parseTome_lines`: a text of such lines is parsed line by line.
* `Function.line_render` and `Context.line_variableLine`: the definitions of a function and of a
  variable are such lines.
-/

namespace DiceTome

open Token

namespace Climb

/-- The tokens are none, or start with a name. -/
def Fresh (ts : List Kind) : Prop :=
  ∀ t ∈ ts.head?, ∃ n, t = .identifier n ∧ isKeyword n = false

theorem Fresh.cases {ts : List Kind} (h : Fresh ts) :
    ts = [] ∨ ∃ n more, ts = .identifier n :: more ∧ isKeyword n = false := by
  cases ts with
  | nil => exact .inl rfl
  | cons t ts =>
    obtain ⟨n, rfl, hn⟩ := h t rfl
    exact .inr ⟨n, ts, rfl, hn⟩

/-- No expression goes on with a name. -/
theorem Fresh.ends {ts : List Kind} (h : Fresh ts) (e : Expr) : e.Ends ts := by
  rcases h.cases with rfl | ⟨n, more, rfl, hn⟩
  · exact Expr.ends_nil e
  · refine ⟨rfl, trivial, fun _ => ?_⟩
    have helse : n ≠ "else" := by
      rintro rfl
      cases hn
    simpa [startsWithWord] using helse

theorem Fresh.stops {ts : List Kind} (h : Fresh ts) (m : Nat) : Stops m ts := by
  rcases h.cases with rfl | ⟨n, more, rfl, -⟩ <;> trivial

end Climb

open Climb

/-- The text is cut into tokens that start with a name, whatever follows in another line, and they
are read as the statement in front of the tokens of other lines. -/
def Line (text : String) (e : Expr) : Prop :=
  ∃ ts, (ts ≠ [] ∧ Fresh ts) ∧
    (∀ rest, Edge rest →
      kindsFrom .other (text.toList ++ rest) = (kindsFrom .other rest).map (ts ++ ·)) ∧
    ∀ rest, Fresh rest → level 0 (ts ++ rest) = some (e, rest)

/-- Lines one below the other. -/
def joinLines (lines : List String) : String :=
  String.join (lines.map (· ++ "\n"))

theorem toList_joinLines_nil : (joinLines []).toList = [] := by
  simp [joinLines]

theorem toList_joinLines_append (lines more : List String) :
    (joinLines (lines ++ more)).toList = (joinLines lines).toList ++ (joinLines more).toList := by
  simp [joinLines]

theorem toList_joinLines (text : String) (lines : List String) :
    (joinLines (text :: lines)).toList = text.toList ++ '\n' :: (joinLines lines).toList := by
  simp [joinLines]

/-- Lines are cut into tokens of their own, and these are read as the statements of the lines in
front of the tokens of other lines. -/
theorem statements_lines {lines : List String} {es : List Expr} (h : List.Forall₂ Line lines es) :
    ∃ ts, (∀ rest, kindsFrom .other ((joinLines lines).toList ++ rest) =
        (kindsFrom .other rest).map (ts ++ ·)) ∧
      ∀ kinds, Fresh kinds → Fresh (ts ++ kinds) ∧
        statements (ts ++ kinds) = (statements kinds).map (es ++ ·) := by
  induction h with
  | nil =>
    refine ⟨[], fun rest => ?_, fun kinds hkinds => ⟨hkinds, ?_⟩⟩
    · rw [toList_joinLines_nil]
      simp
    · simp
  | @cons text e lines es hline _ ih =>
    obtain ⟨ts, ⟨hne, hstart⟩, hcut, hread⟩ := hline
    obtain ⟨more, hmore, hstatements⟩ := ih
    refine ⟨ts ++ more, fun rest => ?_, fun kinds hkinds => ⟨?_, ?_⟩⟩
    · have hedge : Edge ('\n' :: ((joinLines lines).toList ++ rest)) :=
        Expr.edge_cons (by decide) (by decide) _
      rw [toList_joinLines, List.append_assoc, List.cons_append, hcut _ hedge,
        kindsFrom_separator (by decide), hmore]
      simp [Function.comp_def]
    · obtain ⟨t, ts, rfl⟩ := List.exists_cons_of_ne_nil hne
      exact hstart
    · obtain ⟨hfresh, hrest⟩ := hstatements kinds hkinds
      rw [List.append_assoc, statements_eq (by simp [hne]), hread _ hfresh, Option.bind_some, hrest]
      simp [Function.comp_def]

/-- A text of lines is parsed line by line. -/
theorem parseTome_lines {lines : List String} {es : List Expr} (h : List.Forall₂ Line lines es) :
    parseTome (joinLines lines) = .ok (es.map (·.plant {})) := by
  obtain ⟨ts, hts, hstatements⟩ := statements_lines h
  have hkinds : kindsFrom .other (joinLines lines).toList = some ts := by
    simpa [kindsFrom_nil] using hts []
  have hall : statements ts = some es := by
    simpa [statements_nil] using (hstatements [] nofun).2
  have hparse := parseTome_eq (joinLines lines)
  rw [hkinds, Option.bind_some, hall] at hparse
  exact hparse

/-! ## Definitions -/

namespace Expr

/-- The name that an assignment to the expression defines. -/
def defined? : Expr → Option String
  | name n | call n _ => some n
  | _ => none

theorem ends_assign {target : Expr} {n : String} (h : target.defined? = some n) (rest : List Kind) :
    target.Ends (.operator (.binary .assign) :: rest) := by
  cases target with
  | name _ | call _ _ => exact ⟨rfl, (by decide : 2 < 11), fun _ => rfl⟩
  | _ => cases h

/-- An assignment is a line. Its right side is read as the expression `read`, which has the same
tokens. -/
theorem line_assign {target body read : Expr} {n : String} {wrap : Bool}
    (hdefined : target.defined? = some n) (htarget : target.All Spelled)
    (hreadable : target.All Readable) (hbody : body.All Spelled) (hread : read.All Readable)
    (htokens : read.tokens = body.tokens)
    (hfits : wrap = false → read.Fits BinaryOp.assign.rightRank) :
    Line (target.render ++ " = " ++ wrapped body.render wrap) (binary .assign target read) := by
  have hstart : ∃ more, target.tokens = .identifier n :: more ∧ isKeyword n = false := by
    cases target with
    | name _ =>
      cases hdefined
      exact ⟨[], rfl, hreadable⟩
    | call _ _ =>
      cases hdefined
      exact ⟨_, rfl, hreadable.1⟩
    | _ => cases hdefined
  obtain ⟨more, hmore, hword⟩ := hstart
  refine ⟨target.tokens ++ .operator (.binary .assign) :: wrappedTokens body.tokens wrap,
    ⟨by simp, ?_⟩, fun rest hrest => ?_, fun rest hrest => ?_⟩
  · rw [hmore]
    rintro t ⟨⟩
    exact ⟨n, rfl, hword⟩
  · have htext : (target.render ++ " = " ++ wrapped body.render wrap).toList ++ rest =
        target.render.toList ++ ((separator .assign).toList ++
          ((wrapped body.render wrap).toList ++ rest)) := by
      simp [separator, BinaryOp.symbol]
    rw [htext, scans htarget _ (Tail.meets_edge _ (edge_between (by decide) _)),
      kindsFrom_between (by decide), (scans hbody).wrapped_edge hrest]
    simp [Function.comp_def]
  · have hbare : wrap = false → read.Fits BinaryOp.assign.rightRank ∧ read.Ends rest :=
      fun hwrap => ⟨hfits hwrap, hrest.ends read⟩
    have hright := (readsBack hread).level_wrapped_eq hbare (hrest.stops _)
    rw [htokens] at hright
    rw [List.append_assoc, List.cons_append,
      readsBack hreadable 0 _ (fits_zero _) (ends_assign hdefined _),
      climb_binary (Nat.zero_le _), hright]
    exact climb_of_stops (hrest.stops 0) _

theorem spelled_of_faithful {e : Expr} (hparsed : e.All Parsed) (h : e.All Faithful) :
    e.All Spelled :=
  (hparsed.and h).imp fun _ he => ((faithful_iff he.1).mp he.2).1

theorem readable_of_faithful {e : Expr} (hparsed : e.All Parsed) (h : e.All Faithful) :
    e.All Readable :=
  (hparsed.and h).imp fun _ he =>
    readable_iff.mpr ⟨worded_of_parsed he.1, ((faithful_iff he.1).mp he.2).2⟩

/-- What is readable has every `else` where it is read. -/
theorem rebound_eq {e : Expr} (h : e.All Readable) : e.rebound = e := by
  have hworded : e.All Worded := h.imp fun _ he => (readable_iff.mp he).1
  have hparse := parse_tokens_rebound hworded
  rw [parse_tokens h] at hparse
  exact (Option.some.inj hparse).symm

theorem renderAll_names (names : List String) : renderAll (names.map .name) = names := by
  induction names with
  | nil => rfl
  | cons n names ih => rw [List.map_cons, renderAll, ih, render]

end Expr

namespace Function

/-- What a function is called with in its definition. -/
def head (f : Function) : Expr :=
  .call f.name (f.parameters.map .name)

/-- The definition of a function as a statement. -/
def definition (f : Function) : Expr :=
  .binary .assign f.head f.body

/-- A sequence is put in parentheses when it is the body of a function. -/
def wrapsBody (f : Function) : Bool :=
  match f.body with
  | .binary .discard _ _ => true
  | _ => false

theorem render_eq (f : Function) :
    f.render = f.head.render ++ " = " ++ Expr.wrapped f.body.render f.wrapsBody := by
  have hhead : f.head.render = f.name ++ "(" ++ ", ".intercalate f.parameters ++ ")" := by
    rw [head, Expr.render, Expr.renderAll_names]
  rw [hhead, render, wrapsBody]
  split <;> simp_all [Expr.wrapped, String.append_assoc]

/-- A body without parentheses is read as far as it goes. -/
theorem fits_rebound {f : Function} (h : f.wrapsBody = false) :
    f.body.rebound.Fits BinaryOp.assign.rightRank := by
  unfold wrapsBody at h
  cases hbody : f.body with
  | binary op lhs rhs =>
    cases op with
    | discard =>
      rw [hbody] at h
      cases h
    | _ => simp [Expr.rebound, Expr.Fits, BinaryOp.rightRank, BinaryOp.leftAssociative, BinaryOp.precedence]
  | unary op operand =>
    simp [Expr.rebound, Expr.Fits, BinaryOp.rightRank, BinaryOp.leftAssociative, BinaryOp.precedence, UnaryOp.precedence]
  | ifElse condition consequent alternative =>
    rw [Expr.rebound]
    split <;> trivial
  | _ => trivial

/-- The definition of a function is a line, in which every `else` belongs where it is read. -/
theorem line_render {f : Function} {n : String} (h : f.Lawful Expr.Parsed n)
    (hspelled : f.body.All Expr.Spelled) :
    Line f.render { f with body := f.body.rebound }.definition := by
  obtain ⟨rfl, hhead, hbody⟩ := h
  have hfaithful : f.head.All Expr.Faithful := by
    refine ⟨trivial, Expr.allItems_iff.mpr fun e he => ?_⟩
    obtain ⟨n, -, rfl⟩ := List.mem_map.mp he
    trivial
  rw [render_eq]
  exact Expr.line_assign rfl (Expr.spelled_of_faithful hhead hfaithful)
    (Expr.readable_of_faithful hhead hfaithful) hspelled
    (Expr.readable_rebound (hbody.imp fun _ => Expr.worded_of_parsed)) (Expr.tokens_rebound _)
    fits_rebound

end Function

/-- The definition of a variable is a line. -/
theorem Context.line_variableLine {n : String} {v : Value} {e : Expr}
    (hn : (Expr.name n).Parsed) (hsound : v.Sound) (h : v.spelling = some e) :
    Line (variableLine n v) (.binary .assign (.name n) e) := by
  have hspells := Value.spells_spelling hsound h
  have hfits : e.Fits BinaryOp.assign.rightRank := hspells.fits.mono (by decide)
  have hname : (Expr.name n).defined? = some n := rfl
  have hline : Line ((Expr.name n).render ++ " = " ++ Expr.wrapped e.render false)
      (.binary .assign (.name n) e) :=
    Expr.line_assign hname hn.1 hn.2 hspells.spelled hspells.readable rfl fun _ => hfits
  rw [Expr.wrapped, if_neg Bool.false_ne_true, hspells.render_eq] at hline
  exact hline

end DiceTome
