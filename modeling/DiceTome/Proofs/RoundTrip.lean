import DiceTome.Proofs.Clashes
import DiceTome.Proofs.DanglingElse
import DiceTome.Proofs.StackParser
import DiceTome.Tome

/-!
# Printing and parsing again

* `parseSource_eq`: parsing a text is climbing over the kinds of its tokens.
* `Expr.parseSource_render`: an expression that is readable and spelled the way the scanner reads it
  is parsed back from its text.
* `Expr.parse_render_of_legible`: trees of a simple shape are such expressions.
* `Expr.parseSource_render_iff`: what is parsed from any text is parsed back from its own text
  exactly if it is faithful.
-/

namespace DiceTome

open Token

/-- Parsing a text is climbing over the kinds of its tokens. -/
theorem parseSource_eq (source : String) :
    match (kindsFrom .other source.toList).bind Climb.parse with
    | some e => parseSource source = .ok (e.plant {})
    | none => ∃ err, parseSource source = .error err := by
  rw [← scan_kinds]
  cases hscan : scan source with
  | error err => exact ⟨_, by simp only [parseSource, hscan]; rfl⟩
  | ok tokens =>
    have heq := Arena.parse_eq tokens
    simp only [Except.toOption, Option.map_some, Option.bind_some]
    cases hread : Climb.parse (tokens.map Token.kind) with
    | none =>
      rw [hread] at heq
      obtain ⟨err, herr⟩ := heq
      exact ⟨_, by simp only [parseSource, hscan]; exact congrArg (Except.mapError _) herr⟩
    | some e =>
      rw [hread] at heq
      simp only [parseSource, hscan]
      exact congrArg (Except.mapError _) heq

/-- A text is parsed as the listing of the tree that climbing reads in it. -/
theorem parseSource_eq_ok_iff {source : String} {a : Arena} :
    parseSource source = .ok a ↔
      ∃ kinds e, kindsFrom .other source.toList = some kinds ∧ Climb.parse kinds = some e ∧
        a = e.plant {} := by
  have heq := parseSource_eq source
  cases hread : (kindsFrom .other source.toList).bind Climb.parse with
  | none =>
    rw [hread] at heq
    obtain ⟨err, herr⟩ := heq
    rw [herr]
    refine ⟨nofun, fun ⟨kinds, e, hkinds, he, _⟩ => ?_⟩
    simp [hkinds, he] at hread
  | some e =>
    rw [hread] at heq
    rw [heq]
    obtain ⟨kinds, hkinds, he⟩ := Option.bind_eq_some_iff.mp hread
    constructor
    · rintro ⟨⟩
      exact ⟨kinds, e, hkinds, he, rfl⟩
    · rintro ⟨kinds', e', hkinds', he', rfl⟩
      rw [hkinds] at hkinds'
      cases hkinds'
      rw [he] at he'
      cases he'
      rfl

namespace Expr

theorem kindsFrom_render {e : Expr} (h : e.All Spelled) :
    kindsFrom .other e.render.toList = some e.tokens := by
  have hnil : Edge [] := nofun
  have hscan := scans h [] (Tail.meets_edge _ hnil)
  rw [List.append_nil, kindsFrom_nil] at hscan
  simpa using hscan

/-- An expression is parsed back from its text. -/
theorem parseSource_render {e : Expr} (hspelled : e.All Spelled) (hread : e.All Readable) :
    parseSource e.render = .ok (e.plant {}) :=
  parseSource_eq_ok_iff.mpr ⟨e.tokens, e, kindsFrom_render hspelled, parse_tokens hread, rfl⟩

/-! ## Legible expressions -/

/-- A roll, or a roll with keeps of natural counts behind it. -/
def isDiceChain : Expr → Bool
  | literal (.roll _ _) => true
  | binary .keep lhs (literal (.natural _)) => lhs.isDiceChain
  | _ => false

def isRollLiteral : Expr → Bool
  | literal (.roll _ _) => true
  | _ => false

/-- A part of an expression whose text is unambiguous. Numbers are in the range of literals and
names are names. Keeps and roll operators stand behind dice. The branch before an `else` does not
end in a conditional that would take the `else` for itself, unless it is printed in parentheses. -/
def Legible : Expr → Prop
  | literal (.bool _) | literal (.string _) => True
  | literal (.natural n) => n ≤ maxNatural
  | literal (.roll quantity die) => quantity ≤ maxNatural ∧ die ≤ maxNatural
  | literal (.decimal _) => False
  | name n | call n _ => isName n = true ∧ Climb.isKeyword n = false
  | binary .keep lhs _ => lhs.isDiceChain = true
  | unary .advantage operand | unary .sort operand => operand.isDiceChain = true
  | unary .disadvantage operand => operand.isRollLiteral = true
  | ifElse _ (ifElse _ _ alternative) _ => alternative.openEnded = false
  | _ => True

theorem isRollLiteral_iff {e : Expr} :
    e.isRollLiteral = true ↔ ∃ quantity die, e = literal (.roll quantity die) := by
  constructor
  · intro h
    unfold isRollLiteral at h
    split at h
    · exact ⟨_, _, rfl⟩
    · cases h
  · rintro ⟨quantity, die, rfl⟩
    rfl

theorem isDiceChain_cases {e : Expr} (h : e.isDiceChain = true) :
    (∃ quantity die, e = literal (.roll quantity die)) ∨
      ∃ lhs n, e = binary .keep lhs (literal (.natural n)) := by
  unfold isDiceChain at h
  split at h
  · exact .inl ⟨_, _, rfl⟩
  · exact .inr ⟨_, _, rfl⟩
  · cases h

/-- A keep or a roll operator may stand directly behind a dice chain. -/
theorem spelled_of_isDiceChain {e : Expr} (h : e.isDiceChain = true) :
    wrapsLeft .keep e = false ∧ e.isPostfix = false ∧ e.tail.takesSuffix = true ∧
      ∀ op : UnaryOp, op.isPostfix = true → wrapsOperand op e = false := by
  rcases isDiceChain_cases h with ⟨quantity, die, rfl⟩ | ⟨lhs, n, rfl⟩
  · refine ⟨?_, rfl, rfl, fun op hop => ?_⟩
    · simp [wrapsLeft, barelyKept, strength_roll, Strength.below]
    · simp [wrapsOperand, strength_roll, Strength.below, hop]
  · refine ⟨rfl, rfl, rfl, fun op hop => ?_⟩
    simp [wrapsOperand, hop]
    rfl

theorem spelled_of_legible {e : Expr} (h : e.Legible) : e.Spelled := by
  cases e with
  | literal l => cases l <;> first | exact h | cases h
  | name _ | call _ _ => exact h.1
  | binary op lhs _ =>
    cases op with
    | keep =>
      obtain ⟨hwraps, -, htail, -⟩ := spelled_of_isDiceChain h
      exact ⟨hwraps, htail⟩
    | _ => trivial
  | unary op operand =>
    intro hop
    cases op with
    | not | neg => cases hop
    | advantage | sort =>
      obtain ⟨-, -, htail, hwraps⟩ := spelled_of_isDiceChain h
      exact ⟨hwraps _ hop, htail, nofun⟩
    | disadvantage =>
      obtain ⟨quantity, die, rfl⟩ := isRollLiteral_iff.mp h
      exact ⟨(spelled_of_isDiceChain rfl).2.2.2 _ hop, rfl, nofun⟩
  | list _ | ifThen _ _ | ifElse _ _ _ => trivial

theorem readable_of_legible {e : Expr} (h : e.Legible) : e.Readable := by
  cases e with
  | name _ | call _ _ => exact h.2
  | binary op lhs _ =>
    cases op with
    | keep => exact (spelled_of_isDiceChain h).2.1
    | _ => trivial
  | ifElse _ consequent _ =>
    intro hopen
    cases consequent with
    | ifThen _ _ => cases hopen
    | ifElse _ _ alternative => exact h
    | _ => rfl
  | _ => trivial

/-- Every legible expression is parsed back from its text. -/
theorem parse_render_of_legible {t : Expr} (h : t.All Legible) :
    ∃ a, parseSource t.render = .ok a ∧ a.expr? = some t :=
  ⟨t.plant {}, parseSource_render (h.imp fun _ => spelled_of_legible)
    (h.imp fun _ => readable_of_legible), Arena.expr?_plant t {}⟩

/-- The text `if x then -y * (1 + 4d6k3s) else if true then f("a\"b", [])`. -/
theorem parse_render_nested :
    let t : Expr := ifElse (name "x")
      (binary .mul (unary .neg (name "y")) (binary .add (literal (.natural 1))
        (unary .sort (binary .keep (literal (.roll 4 6)) (literal (.natural 3))))))
      (ifThen (literal (.bool true)) (call "f" [literal (.string "a\"b"), list []]))
    ∃ a, parseSource t.render = .ok a ∧ a.expr? = some t := by
  refine parse_render_of_legible ?_
  simp only [All, AllItems, Legible, isDiceChain, and_true, true_and]
  decide

/-! ## Expressions from a text -/

/-- A part of an expression that is printed the way it is read. No keep and no roll operator stands
behind a closing delimiter, and an `else` does not follow a branch that would take it. -/
def Faithful : Expr → Prop
  | binary .keep lhs _ => lhs.tail ≠ .closed
  | unary op operand => op.isPostfix = true → operand.tail ≠ .closed
  | ifElse _ consequent _ => consequent.isOpenConditional = false → consequent.openEnded = false
  | _ => True

instance : DecidablePred Faithful
  | literal _ | name _ | list _ | call _ _ | ifThen _ _ => .isTrue trivial
  | binary op lhs _ =>
    if h : op = .keep then
      decidable_of_iff (lhs.tail ≠ .closed) (by rw [h]; rfl)
    else .isTrue (by cases op <;> first | exact trivial | exact absurd rfl h)
  | unary op operand =>
    inferInstanceAs (Decidable (op.isPostfix = true → operand.tail ≠ .closed))
  | ifElse _ consequent _ =>
    inferInstanceAs (Decidable (consequent.isOpenConditional = false →
      consequent.openEnded = false))

theorem takesSuffix_iff {t : Tail} (hword : t ≠ .word) : t.takesSuffix = true ↔ t ≠ .closed := by
  cases t with
  | roll | count => simp [Tail.takesSuffix]
  | closed => simp [Tail.takesSuffix]
  | word => exact absurd rfl hword

theorem worded_of_parsed {e : Expr} (h : e.Parsed) : e.Worded := by
  cases e with
  | name _ | call _ _ => exact h.2
  | binary op lhs rhs =>
    cases op with
    | keep => exact h.2.1
    | _ => trivial
  | _ => trivial

/-- Of the parts of an expression from a text, the faithful ones are those that are spelled the way
they are scanned and that keep their `else`. -/
theorem faithful_iff {e : Expr} (h : e.Parsed) : e.Faithful ↔ e.Spelled ∧ e.Binds := by
  cases e with
  | literal l => exact iff_of_true trivial ⟨spelled_literal h, trivial⟩
  | name _ | call _ _ => exact iff_of_true trivial ⟨h.1, trivial⟩
  | list _ | ifThen _ _ => exact iff_of_true trivial ⟨trivial, trivial⟩
  | binary op lhs rhs =>
    cases op with
    | keep =>
      obtain ⟨hwraps, -, hword⟩ := h
      simp [Faithful, Spelled, Binds, hwraps, takesSuffix_iff hword]
    | _ => exact iff_of_true trivial ⟨trivial, trivial⟩
  | unary op operand =>
    cases hop : op.isPostfix with
    | false => simp [Faithful, Spelled, Binds, hop]
    | true =>
      obtain ⟨hwraps, hword, hcount⟩ := h hop
      simpa [Faithful, Spelled, Binds, hop, hwraps, takesSuffix_iff hword] using fun _ => hcount
  | ifElse _ _ _ => simp [Faithful, Spelled, Binds]

/-- What is parsed from a text is parsed back from its own text exactly if all its parts are
faithful. -/
theorem parseSource_render_iff {source : String} {a : Arena} {t : Expr}
    (hparse : parseSource source = .ok a) (htree : a.expr? = some t) :
    parseSource a.render = .ok a ↔ t.All Faithful := by
  obtain ⟨kinds, e, hkinds, he, rfl⟩ := parseSource_eq_ok_iff.mp hparse
  obtain rfl : e = t := by
    rw [Arena.expr?_plant] at htree
    exact Option.some.inj htree
  have hparsed : e.All Parsed := Climb.parsed_of_parse (sound_kindsFrom hkinds trivial) he
  have hrender : (e.plant {}).render = e.render := by
    simp [Arena.render, Arena.expr?_plant]
  have hworded : e.All Worded := hparsed.imp fun _ => worded_of_parsed
  rw [hrender]
  constructor
  · intro hback
    obtain ⟨kinds', e', hkinds', he', hplant⟩ := parseSource_eq_ok_iff.mp hback
    obtain rfl : e = e' := by
      have htrees := congrArg Arena.expr? hplant
      rw [Arena.expr?_plant, Arena.expr?_plant] at htrees
      exact Option.some.inj htrees
    rcases fate hparsed with hspelled | hjammed
    · rw [kindsFrom_render hspelled, Option.some.injEq] at hkinds'
      have hbinds : e.All Binds := (parse_tokens_iff hworded).mp (hkinds' ▸ he')
      exact (hparsed.and (hspelled.and hbinds)).imp fun _ h => (faithful_iff h.1).mpr h.2
    · have hclash := hjammed [] kinds' (by simpa using hkinds')
      rw [Climb.not_clashes_of_parse he'] at hclash
      cases hclash
  · intro hfaithful
    have hboth : e.All fun e => e.Spelled ∧ e.Binds :=
      (hparsed.and hfaithful).imp fun _ h => (faithful_iff h.1).mp h.2
    exact parseSource_render (hboth.imp fun _ h => h.1)
      ((hworded.and hboth).imp fun _ h => readable_iff.mpr ⟨h.1, h.2.2⟩)

/-- The text `if -4d6k3a > 1.5 then x else if y then 2 ^ 3` is faithful. -/
theorem parseSource_render_conditional :
    let t : Expr := ifElse
      (binary .greater (unary .advantage (unary .neg
        (binary .keep (literal (.roll 4 6)) (literal (.natural 3))))) (literal (.decimal 1.5)))
      (name "x") (ifThen (name "y") (binary .pow (literal (.natural 2)) (literal (.natural 3))))
    ∃ a, parseSource "if -4d6k3a > 1.5 then x else if y then 2 ^ 3" = .ok a ∧ a.expr? = some t ∧
      parseSource a.render = .ok a := by
  intro t
  have hread : Decimal.nearest false 3 2 = 1.5 := by decide +kernel
  have hwritten : Decimal.Written 1.5 := by
    rw [← hread]
    exact Decimal.written_nearest (by decide +kernel)
  have htext : t.render = "if -4d6k3a > 1.5 then x else if y then 2 ^ 3" := by decide +kernel
  have hspelled : t.All Spelled := by
    simp [t, All, Spelled, Literal.Spelled, hwritten]
    decide +kernel
  have hreadable : t.All Readable := by
    simp [t, All, Readable]
    decide
  have hparse : parseSource t.render = .ok (t.plant {}) := parseSource_render hspelled hreadable
  rw [htext] at hparse
  refine ⟨t.plant {}, hparse, Arena.expr?_plant t {}, ?_⟩
  refine (parseSource_render_iff hparse (Arena.expr?_plant t {})).mpr ?_
  simp [t, All, Faithful, tail, openEnded]
  decide

/-- The text `2 ^ -4d6a` is printed as `2 ^ (-4d6)a`, where `a` is a name. -/
theorem not_parseSource_render_of_parse :
    ¬ ∀ source a, parseSource source = .ok a → parseSource a.render = .ok a := by
  intro h
  have hfails : (parseSource "2 ^ -4d6a").toOption.map (fun a => (parseSource a.render).isOk) =
      some false := by
    decide +kernel
  cases hparse : parseSource "2 ^ -4d6a" with
  | error err => simp [hparse, Except.toOption] at hfails
  | ok a => simp [hparse, h _ a hparse, Except.toOption, Except.isOk, Except.toBool] at hfails

end Expr

end DiceTome
