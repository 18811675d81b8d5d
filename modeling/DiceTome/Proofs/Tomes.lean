import DiceTome.Proofs.RoundTrip
import DiceTome.Proofs.Steps

/-!
# Tomes as lists of expressions

A tome is read one expression after another, and its statements are evaluated in that order.

* `Climb.statements` reads expressions until no token is left, and `parseTome_eq` says that parsing
  a tome is the same.
* `World.evalTome_of_parse` is what evaluating a tome does.
* `World.SourceRuns` lists the ways in which the evaluation of a text of one statement goes.
-/

namespace DiceTome

open Token

namespace Climb

/-- Reads expressions one after another until every token is used. -/
def statements (ts : List Kind) : Option (List Expr) :=
  match ts with
  | [] => some []
  | t :: ts => behind (t :: ts) (level 0 (t :: ts)) fun e rest _ => (statements rest).map (e :: ·)
termination_by ts.length
decreasing_by assumption

theorem statements_nil : statements [] = some [] := by
  rw [statements.eq_def]

/-- The statements of some tokens are the one in front and those behind it. -/
theorem statements_eq {ts : List Kind} (h : ts ≠ []) :
    statements ts = (level 0 ts).bind fun p => (statements p.2).map (p.1 :: ·) := by
  obtain ⟨t, ts, rfl⟩ := List.exists_cons_of_ne_nil h
  rw [statements.eq_def]
  exact behind_eq_bind (fun _ _ hread => length_level hread) fun e rest =>
    (statements rest).map (e :: ·)

/-- No expression starts with a keep or a roll operator. -/
theorem level_of_isSuffix {token : Kind} (h : token.isSuffix = true) (m : Nat) (ts : List Kind) :
    level m (token :: ts) = none := by
  have hnone : prefixOp? token = none ∧ primary token ts = none := by
    cases token with
    | operator op =>
      cases op with
      | floor => cases h
      | binary op => cases op <;> first | exact ⟨rfl, by rw [primary.eq_def]⟩ | cases h
      | unary op => cases op <;> first | exact ⟨rfl, by rw [primary.eq_def]⟩ | cases h
    | _ => cases h
  rw [level_primary m hnone.1, hnone.2]
  rfl

/-- Where an expression starts it does not matter what stood before, unless that was a keep. -/
theorem sound_of_level {neat : Bool} {t : Trace} {ts : List Kind} {m : Nat} {p : Expr × List Kind}
    (h : Sound neat t ts) (ht : t ≠ .keep) (hlevel : level m ts = some p) :
    Sound neat .other ts := by
  rcases ts with _ | ⟨token, ts⟩
  · trivial
  obtain ⟨hsound, hallows, -, hmore⟩ := h
  have hsuffix : token.isSuffix = false := by
    cases hsuffix : token.isSuffix with
    | false => rfl
    | true => simp [level_of_isSuffix hsuffix] at hlevel
  have hnext : t.next token = Trace.other.next token := by
    rcases token with _ | _ | _ | _ | _ | (_ | op | op) | _ <;>
      cases t <;> first | rfl | exact absurd rfl ht | (cases op <;> rfl)
  exact ⟨hsound, allows_of_isSuffix hsuffix _, fun _ => by rfl, hnext ▸ hmore⟩

/-- Statements from the tokens of a text. -/
theorem taken_of_statements {neat : Bool} {ts : List Kind} {es : List Expr}
    (hsound : Sound neat .other ts) (h : statements ts = some es) :
    ∀ e ∈ es, e.All (Expr.Taken neat) := by
  induction hlen : ts.length using Nat.strongRecOn generalizing ts es with
  | ind n ih =>
    subst hlen
    by_cases hnil : ts = []
    · subst hnil
      rw [statements_nil] at h
      cases h
      exact nofun
    · rw [statements_eq hnil] at h
      obtain ⟨⟨e, rest⟩, hlevel, h⟩ := Option.bind_eq_some_iff.mp h
      obtain ⟨es', hmore, rfl⟩ := Option.map_eq_some_iff.mp h
      obtain ⟨htaken, t', hrest, hleaves⟩ :=
        reads_level neat _ ts 0 .other e rest (Nat.lt_succ_self _) nofun hsound hlevel
      have hother : Sound neat .other rest := by
        by_cases hrestNil : rest = []
        · subst hrestNil
          trivial
        · rw [statements_eq hrestNil] at hmore
          obtain ⟨next, hnext, -⟩ := Option.bind_eq_some_iff.mp hmore
          exact sound_of_level hrest hleaves.ended hnext
      intro e' he'
      rcases List.mem_cons.mp he' with rfl | he'
      · exact htaken
      · exact ih rest.length (length_level hlevel) hother hmore rfl e' he'

end Climb

namespace Arena

theorem parseTome_of_error {t : Token} {ts : List Token} {err : ParseError}
    (h : Parse.statement (t :: ts) = .error err) : ∃ err, parseTome (t :: ts) = .error err := by
  rw [parseTome.eq_def]
  simp only
  split
  · exact ⟨_, rfl⟩
  · exact ⟨_, rfl⟩
  · split
    · exact ⟨_, rfl⟩
    · rename_i hok
      rw [h] at hok
      cases hok

theorem parseTome_of_ok {t : Token} {ts rest : List Token} {a : Arena}
    (h : Parse.statement (t :: ts) = .ok (a, rest))
    (hparen : t.kind ≠ .delimiter .parenClose) (hbracket : t.kind ≠ .delimiter .bracketClose) :
    parseTome (t :: ts) = (parseTome rest).map (a :: ·) := by
  rw [parseTome.eq_def]
  simp only
  split
  · rename_i herr
    rw [h] at herr
    cases herr
  · rename_i hok
    rw [h] at hok
    cases hok
    cases parseTome rest <;> rfl

/-- Parsing a tome gives the listings of the trees that climbing reads, and fails where climbing
reads none. -/
theorem parseTome_eq (tokens : List Token) :
    match Climb.statements (tokens.map Token.kind) with
    | some es => parseTome tokens = .ok (es.map (·.plant {}))
    | none => ∃ err, parseTome tokens = .error err := by
  generalize hn : tokens.length = n
  induction n using Nat.strongRecOn generalizing tokens with
  | ind n ih =>
    cases tokens with
    | nil =>
      rw [parseTome.eq_def, List.map_nil, Climb.statements_nil]
      rfl
    | cons t ts =>
      rw [Climb.statements_eq (by simp)]
      have hmeets := Parse.meets_statement (t :: ts)
      cases hread : Climb.level 0 ((t :: ts).map Token.kind) with
      | none =>
        rw [hread] at hmeets
        obtain ⟨err, herr⟩ := hmeets
        exact parseTome_of_error herr
      | some p =>
        obtain ⟨e, kinds⟩ := p
        rw [hread] at hmeets
        obtain ⟨rest, rfl, hok⟩ := hmeets
        have hcloser : ∀ d : Delimiter, d ≠ .parenOpen → d ≠ .bracketOpen →
            t.kind ≠ .delimiter d := by
          intro d hparen hbracket heq
          have := Expr.startsWith_of_level hparen hbracket hread
          simp [heq, Climb.startsWith] at this
        rw [parseTome_of_ok hok (hcloser _ (by decide) (by decide))
          (hcloser _ (by decide) (by decide)), Option.bind_some]
        have hrest := ih rest.length (by rw [← hn]; exact Parse.length_lt_of_statement hok) rest rfl
        cases hmore : Climb.statements (rest.map Token.kind) with
        | none =>
          rw [hmore] at hrest
          obtain ⟨err, herr⟩ := hrest
          exact ⟨err, by rw [herr]; rfl⟩
        | some es =>
          rw [hmore] at hrest
          simp only [Option.map_some]
          rw [hrest]
          rfl

end Arena

/-- What is parsed from a text. -/
theorem Expr.parsed_of_scan {source : String} {tokens : List Token} {a : Arena}
    (hscan : scan source = .ok tokens) (hparse : Arena.parse tokens = .ok a) :
    ∀ e, a.expr? = some e → e.All Parsed := by
  intro e he
  have hkinds := scan_kinds source
  rw [hscan] at hkinds
  obtain ⟨e', hread, rfl⟩ := Arena.parse_ok_iff.mp hparse
  rw [Arena.expr?_plant] at he
  cases he
  exact Climb.parsed_of_parse (sound_kindsFrom hkinds.symm trivial) hread

/-- Parsing a tome from its text. -/
theorem parseTome_eq (source : String) :
    match (kindsFrom .other source.toList).bind Climb.statements with
    | some es => parseTome source = .ok (es.map (·.plant {}))
    | none => ∃ err, parseTome source = .error err := by
  rw [← scan_kinds]
  cases hscan : scan source with
  | error err => exact ⟨_, by simp only [parseTome, hscan]; rfl⟩
  | ok tokens =>
    have heq := Arena.parseTome_eq tokens
    simp only [Except.toOption, Option.map_some, Option.bind_some]
    cases hread : Climb.statements (tokens.map Token.kind) with
    | none =>
      rw [hread] at heq
      obtain ⟨err, herr⟩ := heq
      exact ⟨_, by simp only [parseTome, hscan]; exact congrArg (Except.mapError _) herr⟩
    | some es =>
      rw [hread] at heq
      simp only [parseTome, hscan]
      exact congrArg (Except.mapError _) heq

/-! ## Evaluating statements -/

namespace World

variable {σ : Type} [DiceSource σ]

/-- Evaluates expressions one after another in the root scope. -/
def evalExprs : List Expr → Run σ (List Outcome)
  | [] => return []
  | e :: es => do
    let o ← eval e
    let os ← evalExprs es
    return o :: os

theorem evalStatements_plant (es : List Expr) :
    evalStatements (σ := σ) (es.map (·.plant {})) = evalExprs es := by
  induction es with
  | nil => rfl
  | cons e es ih =>
    simp only [List.map_cons, evalStatements, evalExprs, evalArena, Arena.expr?_plant, ih]

/-- A tome is evaluated statement by statement, and the number of them goes to the journal. -/
theorem evalTome_of_parse {source : String} {es : List Expr}
    (h : parseTome source = .ok (es.map (·.plant {}))) (w : World σ) :
    (evalTome source).run w =
      match (evalExprs es).run w with
      | (.ok os, w) => (.ok os, { w with journal := w.journal.push (.evaluated os.length) })
      | (.error err, w) => (.error (.eval err), w) := by
  rw [← evalStatements_plant]
  simp only [evalTome, h]
  have hparsed : (ExceptT.mk (pure (.ok (es.map (·.plant {})))) : Act σ (List Arena)) w =
      (.ok (es.map (·.plant {})), w) := rfl
  simp only [ExceptT.run, Step.run_bind, Run.act, hparsed]
  cases (evalStatements (es.map (·.plant {})) : Run σ _) w with
  | mk result w' => cases result <;> rfl

/-- A text of one statement is scanned, parsed and evaluated, and then a roll at the top is thrown. -/
theorem evalSource_eq (source : String) (scope : Index) (w : World σ) :
    (evalSource source scope).run w =
      match scan source with
      | .error err => (.error (.scan source err), w)
      | .ok tokens =>
        if tokens.isEmpty then (.ok {}, w)
        else
          match Arena.parse tokens with
          | .error err => (.error (.parse source err), w)
          | .ok a =>
            match (evalArena a scope).run w with
            | (.error err, w) => (.error (.eval err), w)
            | (.ok o, w) =>
              (((onDice o.resolved).run w).1.mapError .eval, ((onDice o.resolved).run w).2) := by
  cases hscan : scan source with
  | error err =>
    simp only [evalSource, hscan]
    rfl
  | ok tokens =>
    have hscanned : (ExceptT.mk (pure (Except.mapError (Error.scan source) (.ok tokens))) :
        Act σ (List Token)) w = (.ok tokens, w) := rfl
    simp only [evalSource, hscan, ExceptT.run, Step.run_bind, hscanned]
    cases tokens.isEmpty with
    | true => rfl
    | false =>
      cases hparse : Arena.parse tokens with
      | error err => rfl
      | ok a =>
        have hparsed : (ExceptT.mk (pure (Except.mapError (Error.parse source) (.ok a))) :
            Act σ Arena) w = (.ok a, w) := rfl
        simp only [Bool.false_eq_true, if_false, Step.run_bind, Run.act, ExceptT.run, hparsed]
        cases (evalArena a scope : Run σ Outcome) w with
        | mk result w' => cases result <;> rfl

/-- How the evaluation of a text of one statement goes, what it gives and where it ends. -/
inductive SourceRuns (source : String) (scope : Index) (w : World σ) :
    Except Error Outcome → World σ → Prop
  | uncut {cause : ScanError} (hscan : scan source = .error cause) :
    SourceRuns source scope w (.error (.scan source cause)) w
  | empty {tokens : List Token} (hscan : scan source = .ok tokens)
    (hempty : tokens.isEmpty = true) : SourceRuns source scope w (.ok {}) w
  | refused {tokens : List Token} {cause : ParseError} (hscan : scan source = .ok tokens)
    (hparse : Arena.parse tokens = .error cause) :
    SourceRuns source scope w (.error (.parse source cause)) w
  | failed {tokens : List Token} {a : Arena} {cause : EvalError} {w' : World σ}
    (hscan : scan source = .ok tokens) (hparse : Arena.parse tokens = .ok a)
    (heval : (evalArena a scope).run w = (.error cause, w')) :
    SourceRuns source scope w (.error (.eval cause)) w'
  | thrown {tokens : List Token} {a : Arena} {part : Outcome} {between w' : World σ}
    {last : Except EvalError Outcome} {result : Except Error Outcome}
    (hscan : scan source = .ok tokens) (hempty : tokens.isEmpty = false)
    (hparse : Arena.parse tokens = .ok a)
    (heval : (evalArena a scope).run w = (.ok part, between))
    (hlast : (onDice part.resolved).run between = (last, w'))
    (hresult : last.mapError .eval = result) : SourceRuns source scope w result w'

theorem sourceRuns_evalSource (source : String) (scope : Index) (w : World σ) :
    SourceRuns source scope w ((evalSource source scope).run w).1
      ((evalSource source scope).run w).2 := by
  rw [evalSource_eq]
  cases hscan : scan source with
  | error err => exact .uncut hscan
  | ok tokens =>
    dsimp only
    cases hempty : tokens.isEmpty with
    | true => exact .empty hscan hempty
    | false =>
      cases hparse : Arena.parse tokens with
      | error err => exact .refused hscan hparse
      | ok a =>
        simp only [Bool.false_eq_true, if_false]
        cases heval : (evalArena a scope).run w with
        | mk result between =>
          cases result with
          | error err => exact .failed hscan hparse heval
          | ok part => exact .thrown hscan hempty hparse heval rfl rfl

/-- How the evaluation of a text of one statement succeeds. -/
theorem evalSource_eq_ok_iff {source : String} {scope : Index} {w w' : World σ} {o : Outcome} :
    (evalSource source scope).run w = (.ok o, w') ↔
      ∃ tokens, scan source = .ok tokens ∧
        ((tokens.isEmpty = true ∧ o = {} ∧ w' = w) ∨
          tokens.isEmpty = false ∧ ∃ a part between, Arena.parse tokens = .ok a ∧
            (evalArena a scope).run w = (.ok part, between) ∧
            (onDice part.resolved).run between = (.ok o, w')) := by
  constructor
  · intro h
    have hruns := sourceRuns_evalSource source scope w
    rw [h] at hruns
    cases hruns with
    | empty hscan hempty => exact ⟨_, hscan, .inl ⟨hempty, rfl, rfl⟩⟩
    | @thrown tokens a part between _ last _ hscan hempty hparse heval hlast hresult =>
      cases last with
      | error err => cases hresult
      | ok rolled =>
        cases hresult
        exact ⟨tokens, hscan, .inr ⟨hempty, a, part, between, hparse, heval, hlast⟩⟩
  · rw [evalSource_eq]
    rintro ⟨tokens, hscan, ⟨htokens, rfl, rfl⟩ | ⟨htokens, a, part, between, hparse, heval, hroll⟩⟩
    · simp only [hscan, htokens]
      rfl
    · simp only [hscan, htokens, hparse, heval, hroll]
      rfl

/-- The scopes after a text has been evaluated are those after its expression has been. -/
theorem context_evalSource (source : String) (scope : Index) (w : World σ) :
    ((evalSource source scope).run w).2.context = w.context ∨
      ∃ tokens a, scan source = .ok tokens ∧ Arena.parse tokens = .ok a ∧
        ((evalSource source scope).run w).2.context = ((evalArena a scope).run w).2.context := by
  generalize hrun : (evalSource source scope).run w = run
  have hruns := sourceRuns_evalSource source scope w
  rw [hrun] at hruns
  obtain ⟨result, w'⟩ := run
  cases hruns with
  | uncut | empty | refused => exact .inl rfl
  | failed hscan hparse heval => exact .inr ⟨_, _, hscan, hparse, by rw [heval]⟩
  | thrown hscan _ hparse heval hlast =>
    refine .inr ⟨_, _, hscan, hparse, ?_⟩
    rw [heval, ← congrArg Prod.snd hlast]
    rfl

/-- A tome that is not parsed is not evaluated. -/
theorem evalTome_of_error {source : String} {err : Error} (h : parseTome source = .error err)
    (w : World σ) : (evalTome source).run w = (.error err, w) := by
  simp only [evalTome, h]
  rfl

/-- The scopes after a tome has been evaluated are those after its statements have been. -/
theorem context_evalTome (source : String) (w : World σ) :
    ((evalTome source).run w).2.context = w.context ∨
      ∃ kinds es, kindsFrom .other source.toList = some kinds ∧
        Climb.statements kinds = some es ∧
        ((evalTome source).run w).2.context = ((evalExprs es).run w).2.context := by
  have hparse := parseTome_eq source
  cases hread : (kindsFrom .other source.toList).bind Climb.statements with
  | none =>
    rw [hread] at hparse
    obtain ⟨err, herr⟩ := hparse
    rw [evalTome_of_error herr]
    exact .inl rfl
  | some es =>
    rw [hread] at hparse
    obtain ⟨kinds, hkinds, hes⟩ := Option.bind_eq_some_iff.mp hread
    refine .inr ⟨kinds, es, hkinds, hes, ?_⟩
    rw [evalTome_of_parse hparse]
    cases (evalExprs es).run w with
    | mk result w' => cases result <;> rfl

end World

end DiceTome
