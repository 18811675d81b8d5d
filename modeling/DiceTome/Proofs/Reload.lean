import DiceTome.Dice.Scripted
import DiceTome.Proofs.Restore

/-!
# Reloading a context

A context is saved as a tome and loaded again by evaluating the tome in a fresh context. This
restores it exactly if every function is printed the way it is read and every variable has a value
that its own text evaluates to.

* `Context.Played`: what texts make of an empty context.
* `Context.Restores`: a context that agrees with another one on functions, variables and text.
* `Context.Played.reload_iff`: when the tome restores the context it was written from.
-/

namespace DiceTome

open Token Step Climb

/-! ## Contexts made by texts -/

theorem Expr.sound_literal {l : Literal} (h : (literal l).Parsed) : l.value.Sound := by
  cases l with
  | roll quantity die => exact ⟨quantity, die, h.1, h.2, rfl, rfl⟩
  | _ => trivial

/-- The statements of a tome are made of what is parsed from texts. -/
theorem Expr.parsed_of_statements {source : String} {kinds : List Kind} {es : List Expr}
    (hkinds : kindsFrom .other source.toList = some kinds)
    (hes : Climb.statements kinds = some es) : ∀ e ∈ es, e.All Parsed := fun e he =>
  (taken_of_statements (sound_kindsFrom hkinds trivial) hes e he).imp fun _ h => h.1

theorem World.keeps_evalExprs {p : Expr → Prop} {σ : Type} [DiceSource σ]
    (hp : ∀ l, p (.literal l) → l.value.Sound) {es : List Expr} (hes : ∀ e ∈ es, e.All p) :
    Keeps (Lawful p) (evalExprs es : Run σ (List Outcome)) fun os =>
      ∀ o ∈ os, o.value.Sound := by
  induction es with
  | nil => exact keeps_pure (List.forall_mem_nil _)
  | cons e es ih =>
    refine Keeps.bind (keeps_eval hp Context.root (hes e List.mem_cons_self)) fun o ho => ?_
    refine Keeps.bind (ih fun e he => hes e (List.mem_cons_of_mem _ he)) fun os hos => ?_
    exact keeps_pure (List.forall_mem_cons.mpr ⟨ho, hos⟩)

namespace Context

/-- What the evaluation of statements and of tomes makes of an empty context, whether they fail or
not. -/
inductive Played : Context → Prop
  | start : Played {}
  | source {σ : Type} [DiceSource σ] {w : World σ} (h : Played w.context) (text : String) :
    Played ((World.evalSource text).run w).2.context
  | tome {σ : Type} [DiceSource σ] {w : World σ} (h : Played w.context) (text : String) :
    Played ((World.evalTome text).run w).2.context

/-- Functions and values are made of what is parsed from texts. -/
theorem Played.lawful {c : Context} (h : c.Played) : c.Lawful Expr.Parsed := by
  induction h with
  | start => exact lawful_empty
  | @source σ _ w _ text ih =>
    rcases World.context_evalSource text root w with heq | ⟨tokens, a, hscan, hparse, heq⟩
    · rw [heq]
      exact ih
    · rw [heq, World.evalArena]
      cases ha : a.expr? with
      | none => exact ih
      | some e =>
        exact (World.keeps_eval (fun _ => Expr.sound_literal) root
          (Expr.parsed_of_scan hscan hparse e ha) w ih).1
  | @tome σ _ w _ text ih =>
    rcases World.context_evalTome text w with heq | ⟨kinds, es, hkinds, hes, heq⟩
    · rw [heq]
      exact ih
    · rw [heq]
      exact (World.keeps_evalExprs (fun _ => Expr.sound_literal)
        (Expr.parsed_of_statements hkinds hes) w ih).1

end Context

/-! ## Restored contexts -/

/-- A function apart from where and when it was declared. -/
def Function.signature (f : Function) : String × List String × Expr :=
  (f.name, f.parameters, f.body)

theorem signature_redeclared (k : Nat) (fs : List Function) :
    (redeclared k fs).map Function.signature = fs.map Function.signature := by
  induction fs generalizing k with
  | nil => rfl
  | cons f fs ih => exact congrArg (f.signature :: ·) (ih (k + 1))

theorem render_redeclared (k : Nat) (fs : List Function) :
    (redeclared k fs).map Function.render = fs.map Function.render := by
  induction fs generalizing k with
  | nil => rfl
  | cons f fs ih => exact congrArg (f.render :: ·) (ih (k + 1))

namespace Context

/-- The context `c'` has the same functions as `c` in the same order, equal values for its
variables, and the same text. -/
structure Restores (c c' : Context) : Prop where
  functions : c'.rootScope.functions.map Function.signature =
    c.rootScope.functions.map Function.signature
  values : ∀ n v, (n, v) ∈ c.rootScope.values → v.isEmpty = false →
    ∃ v', (n, v') ∈ c'.rootScope.values ∧ v'.equals v = .ok true
  dump : c'.dump = c.dump

theorem mem_saved {c : Context} {n : String} {v : Value} :
    (n, v) ∈ c.saved ↔ (n, v) ∈ c.rootScope.values ∧ v.isEmpty = false := by
  simp [saved]

theorem saved_holding {ps : List (String × Value)} (h : ∀ p ∈ ps, p.2.isEmpty = false)
    (fs : List Function) : (holding fs ps).saved = ps := by
  rw [saved, values_holding, List.filter_eq_self]
  intro p hp
  simp [h p hp]

/-- The functions of a context and its stable values make up the context again. -/
theorem restores_holding {c : Context} (h : ∀ p ∈ c.saved, p.2.isStable = true) (k : Nat) :
    c.Restores (holding (redeclared k c.rootScope.functions) c.saved) := by
  have hnonempty : ∀ p ∈ c.saved, p.2.isEmpty = false := fun p hp => (mem_saved.mp hp).2
  refine ⟨?_, fun n v hmem hv => ?_, ?_⟩
  · rw [functions_holding, signature_redeclared]
  · have hsaved : (n, v) ∈ c.saved := mem_saved.mpr ⟨hmem, hv⟩
    refine ⟨v, ?_, Value.equals_self (h _ hsaved)⟩
    rwa [values_holding]
  · rw [dump_eq, dump_eq, functions_holding, render_redeclared, saved_holding hnonempty]

theorem readAs_of_stable {ps : List (String × Value)}
    (h : ∀ p ∈ ps, p.2.Sound ∧ p.2.isStable = true) : List.Forall₂ ReadAs ps ps := by
  rw [List.forall₂_same]
  intro p hp
  obtain ⟨hsound, hstable⟩ := h p hp
  obtain ⟨e, he⟩ := Value.exists_spelling hstable
  obtain ⟨v', hback⟩ := Value.exists_comesBack hsound he
  rw [hback.eq_of_isStable hstable] at hback
  exact ⟨rfl, e, he, hback⟩

theorem rebound_functions {fs : List Function} (h : ∀ f ∈ fs, f.body.All Expr.Readable) :
    fs.map Function.rebound = fs := by
  have hsame : ∀ f ∈ fs, f.rebound = f := fun f hf => by
    rw [Function.rebound, Expr.rebound_eq (h f hf)]
  rw [List.map_congr_left hsame, List.map_id']

/-- A context is restored from its tome if its functions are faithful and its values stable. -/
theorem Lawful.restores {c : Context} (h : c.Lawful Expr.Parsed)
    (hfaithful : ∀ f ∈ c.rootScope.functions, f.body.All Expr.Faithful)
    (hstable : ∀ p ∈ c.saved, p.2.isStable = true) {σ : Type} [DiceSource σ] {w : World σ}
    (hw : w.context = {}) :
    ∃ os w', (World.evalTome c.dump).run w = (.ok os, w') ∧ c.Restores w'.context := by
  have hspelled : ∀ f ∈ c.rootScope.functions, f.body.All Expr.Spelled := fun f hf =>
    Expr.spelled_of_faithful (h.function hf).body (hfaithful f hf)
  have hreadable : ∀ f ∈ c.rootScope.functions, f.body.All Expr.Readable := fun f hf =>
    Expr.readable_of_faithful (h.function hf).body (hfaithful f hf)
  have hread := readAs_of_stable fun p hp => ⟨(h.saved hp).2, hstable p hp⟩
  obtain ⟨os, w', hrun, hcontext⟩ := h.run_dump hspelled hread hw
  rw [rebound_functions hreadable] at hcontext
  exact ⟨os, w', hrun, hcontext ▸ restores_holding hstable _⟩

end Context

/-! ## Neat lines -/

/-- The tokens of the text are neat if those of the lines below it are. -/
def NeatLine (text : String) : Prop :=
  ∀ rest, Edge rest → NeatText .other rest (fun _ => True) →
    NeatText .other (text.toList ++ rest) fun _ => True

theorem neat_joinLines {lines : List String} (h : ∀ line ∈ lines, NeatLine line) :
    NeatText .other (joinLines lines).toList fun _ => True := by
  induction lines with
  | nil =>
    intro kinds hkinds
    rw [toList_joinLines_nil, kindsFrom_nil] at hkinds
    cases hkinds
    exact ⟨.nil, nofun⟩
  | cons line lines ih =>
    rw [toList_joinLines]
    refine h line List.mem_cons_self _ (Expr.edge_cons (by decide) (by decide) _) ?_
    exact (ih fun l hl => h l (List.mem_cons_of_mem _ hl)).of_eq (kindsFrom_separator (by decide) _ _)

theorem Expr.neat_assign {target : Expr} (h : target.All Parsed) {rest : List Char}
    (hrest : NeatText .other rest fun _ => True) :
    NeatText .other (target.render.toList ++ ((separator .assign).toList ++ rest))
      fun _ => True := by
  have hbetween : NeatText .other ((separator .assign).toList ++ rest) fun _ => True :=
    hrest.of_plain (kindsFrom_between (by decide) _ _) trivial fun _ => rfl
  have hedge : Edge ((separator .assign).toList ++ rest) := edge_between (by decide) _
  exact (neat h _ (Tail.meets_edge _ hedge) (calm_of_edge hedge hbetween)).mono fun _ _ => trivial

theorem Function.neatLine_render {f : Function} {n : String} (h : f.Lawful Expr.Parsed n) :
    NeatLine f.render := by
  obtain ⟨rfl, hhead, hbody⟩ := h
  intro rest hedge hrest
  have htext : f.render.toList ++ rest = f.head.render.toList ++
      ((Expr.separator .assign).toList ++
        ((Expr.wrapped f.body.render f.wrapsBody).toList ++ rest)) := by
    rw [render_eq]
    simp [Expr.separator, BinaryOp.symbol]
  rw [htext]
  exact Expr.neat_assign hhead ((Expr.neat hbody).wrapped_edge f.wrapsBody hedge hrest)

theorem Context.neatLine_variableLine {n : String} {v : Value} (hn : (Expr.name n).Parsed)
    (hv : v.Sound) : NeatLine (variableLine n v) := by
  intro rest hedge hrest
  have htext : (variableLine n v).toList ++ rest = (Expr.name n).render.toList ++
      ((Expr.separator .assign).toList ++ (v.render.toList ++ rest)) := by
    simp [variableLine, Expr.separator, BinaryOp.symbol, Expr.render]
  have htarget : (Expr.name n).All Expr.Parsed := hn
  rw [htext]
  exact Expr.neat_assign htarget (Value.neat_render hv hedge hrest)

namespace Context

theorem Lawful.neat_dump {c : Context} (h : c.Lawful Expr.Parsed) :
    NeatText .other c.dump.toList fun _ => True := by
  rw [dump_eq]
  refine neat_joinLines fun line hline => ?_
  rcases List.mem_append.mp hline with hline | hline
  · obtain ⟨f, hf, rfl⟩ := List.mem_map.mp hline
    exact Function.neatLine_render (h.function hf)
  · obtain ⟨p, hp, rfl⟩ := List.mem_map.mp hline
    exact neatLine_variableLine (h.saved hp).1 (h.saved hp).2

/-- What is read from a written context has no keep and no roll operator behind a closing
delimiter. -/
theorem Lawful.taken_of_dump {c : Context} (h : c.Lawful Expr.Parsed) {σ : Type} [DiceSource σ]
    {w : World σ} (hw : w.context = {}) :
    ((World.evalTome c.dump).run w).2.context.Lawful (Expr.Taken true) := by
  have hempty : w.context.Lawful (Expr.Taken true) := hw ▸ lawful_empty
  rcases World.context_evalTome c.dump w with heq | ⟨kinds, es, hkinds, hes, heq⟩
  · rw [heq]
    exact hempty
  · have hsound : Sound true .other kinds :=
      sound_of_orderly (sound_kindsFrom hkinds trivial) (h.neat_dump kinds hkinds).1
        fun _ _ => rfl
    rw [heq]
    exact (World.keeps_evalExprs (fun _ hl => Expr.sound_literal hl.1)
      (taken_of_statements hsound hes) w hempty).1

end Context

theorem Expr.spelled_of_taken {e : Expr} (h : e.Taken true) : e.Spelled := by
  obtain ⟨hparsed, hbare⟩ := h
  cases e with
  | ifElse _ _ _ => trivial
  | binary op _ _ => cases op <;> exact ((faithful_iff hparsed).mp (hbare rfl)).1
  | _ => exact ((faithful_iff hparsed).mp (hbare rfl)).1

/-! ## What has been read -/

namespace Context

theorem kindsFrom_variableLine {n : String} {v : Value} (hn : isName n = true) (hv : v.Sound)
    {rest : List Char} (hrest : Edge rest) :
    kindsFrom .other ((variableLine n v).toList ++ rest) =
      (v.tokens?.bind fun ts => (kindsFrom .other rest).map (ts ++ ·)).map
        (.identifier n :: .operator (.binary .assign) :: ·) := by
  have htext : (variableLine n v).toList ++ rest =
      n.toList ++ ((Expr.separator .assign).toList ++ (v.render.toList ++ rest)) := by
    simp [variableLine, Expr.separator, BinaryOp.symbol]
  rw [htext, kindsFrom_name hn (by decide) (Expr.edge_between (by decide) _),
    Expr.kindsFrom_between (by decide), Value.cuts_render hv rest hrest]
  simp [Function.comp_def]

theorem level_assign_eq_none {n : String} (hn : isKeyword n = false) {ts : List Kind}
    (h : level BinaryOp.assign.rightRank ts = none) :
    level 0 (.identifier n :: .operator (.binary .assign) :: ts) = none := by
  have hstart : startsWith .parenOpen (.operator (.binary .assign) :: ts) = false := rfl
  rw [level_primary 0 rfl, primary_identifier hn, hstart]
  simp only [Bool.false_eq_true, if_false, Option.bind_some]
  rw [climb_binary (Nat.zero_le _), h]
  rfl

/-- If the lines of variables are read as statements, every variable is written as an expression. -/
theorem exists_spelling_of_statements {ps : List (String × Value)}
    (hps : ∀ p ∈ ps, (Expr.name p.1).Parsed ∧ p.2.Sound ∧ p.2.isFinite = true)
    {kinds : List Kind} (hkinds : kindsFrom .other
      (joinLines (ps.map fun p => variableLine p.1 p.2)).toList = some kinds) :
    Fresh kinds ∧ ((statements kinds).isSome = true → ∀ p ∈ ps, ∃ e, p.2.spelling = some e) := by
  induction ps generalizing kinds with
  | nil =>
    rw [List.map_nil, toList_joinLines_nil, kindsFrom_nil] at hkinds
    cases hkinds
    exact ⟨nofun, fun _ => nofun⟩
  | cons p ps ih =>
    obtain ⟨hname, hsound, hfinite⟩ := hps p List.mem_cons_self
    have hedge : Edge ('\n' :: (joinLines (ps.map fun p => variableLine p.1 p.2)).toList) :=
      Expr.edge_cons (by decide) (by decide) _
    rw [List.map_cons, toList_joinLines] at hkinds
    have hcut := hkinds
    rw [kindsFrom_variableLine hname.1 hsound hedge, kindsFrom_separator (by decide)] at hcut
    obtain ⟨ks, hks, rfl⟩ := Option.map_eq_some_iff.mp hcut
    obtain ⟨ts, hts, hks⟩ := Option.bind_eq_some_iff.mp hks
    obtain ⟨more, hmore, rfl⟩ := Option.map_eq_some_iff.mp hks
    obtain ⟨hfresh, hrest⟩ := ih (fun p hp => hps p (List.mem_cons_of_mem _ hp)) hmore
    refine ⟨?_, fun hsome => ?_⟩
    · rintro t ⟨⟩
      exact ⟨p.1, rfl, hname.2⟩
    rw [statements_eq (by simp)] at hsome
    cases hspell : p.2.spelling with
    | none =>
      have hnone := (Value.unread_of_spelling hsound hfinite hspell hts more).1
        BinaryOp.assign.rightRank
      rw [level_assign_eq_none hname.2 hnone] at hsome
      cases hsome
    | some e =>
      obtain ⟨line, -, hline, hread⟩ := line_variableLine hname hsound hspell
      rw [hline _ hedge, kindsFrom_separator (by decide), hmore, Option.map_some,
        Option.some.injEq] at hkinds
      rw [← hkinds, hread more hfresh, Option.bind_some, Option.isSome_map] at hsome
      intro q hq
      rcases List.mem_cons.mp hq with rfl | hq
      · exact ⟨e, hspell⟩
      · exact hrest hsome q hq

/-- If a written context is read as statements, every variable is written as an expression. -/
theorem Lawful.exists_spelling {c : Context} (h : c.Lawful Expr.Parsed)
    (hspelled : ∀ f ∈ c.rootScope.functions, f.body.All Expr.Spelled)
    (hfinite : ∀ p ∈ c.saved, p.2.isFinite = true) {as : List Arena}
    (hparse : parseTome c.dump = .ok as) : ∀ p ∈ c.saved, ∃ e, p.2.spelling = some e := by
  have hread : ((kindsFrom .other c.dump.toList).bind statements).isSome = true := by
    have heq := parseTome_eq c.dump
    cases hread : (kindsFrom .other c.dump.toList).bind statements with
    | some es => rfl
    | none =>
      rw [hread] at heq
      obtain ⟨err, herr⟩ := heq
      rw [hparse] at herr
      cases herr
  have hfunctions := Function.lines_render fun f hf => ⟨h.function hf, hspelled f hf⟩
  obtain ⟨ts, hcut, hstatements⟩ := statements_lines hfunctions
  rw [dump_eq, toList_joinLines_append, hcut] at hread
  cases hkinds : kindsFrom .other
      (joinLines (c.saved.map fun p => variableLine p.1 p.2)).toList with
  | none =>
    rw [hkinds] at hread
    cases hread
  | some kinds =>
    obtain ⟨hfresh, hall⟩ := exists_spelling_of_statements
      (fun p hp => ⟨(h.saved hp).1, (h.saved hp).2, hfinite p hp⟩) hkinds
    rw [hkinds, Option.map_some, Option.bind_some, (hstatements kinds hfresh).2,
      Option.isSome_map] at hread
    exact hall hread

/-- Where every variable is written as an expression, all of them come back in some way. -/
theorem exists_readAs {ps : List (String × Value)}
    (h : ∀ p ∈ ps, p.2.Sound ∧ ∃ e, p.2.spelling = some e) :
    ∃ ps', List.Forall₂ ReadAs ps ps' := by
  induction ps with
  | nil => exact ⟨[], .nil⟩
  | cons p ps ih =>
    obtain ⟨ps', hps'⟩ := ih fun p hp => h p (List.mem_cons_of_mem _ hp)
    obtain ⟨hsound, e, he⟩ := h p List.mem_cons_self
    obtain ⟨v', hback⟩ := Value.exists_comesBack hsound he
    exact ⟨(p.1, v') :: ps', .cons ⟨rfl, e, he, hback⟩ hps'⟩

/-- A function of a restored context has the body it had. -/
theorem mem_of_signature {fs fs' : List Function}
    (h : fs'.map Function.signature = fs.map Function.signature) {f : Function} (hf : f ∈ fs) :
    ∃ f' ∈ fs', f'.body = f.body := by
  have hmem : f.signature ∈ fs'.map Function.signature := h ▸ List.mem_map_of_mem hf
  obtain ⟨f', hf', hsame⟩ := List.mem_map.mp hmem
  exact ⟨f', hf', congrArg (fun s => s.2.2) hsame⟩

/-- The functions of a context that is restored from its tome are cut into their tokens. -/
theorem Lawful.spelled_of_restores {c : Context} (h : c.Lawful Expr.Parsed) {σ : Type}
    [DiceSource σ] {w : World σ} (hw : w.context = {})
    (hrestores : c.Restores ((World.evalTome c.dump).run w).2.context) :
    ∀ f ∈ c.rootScope.functions, f.body.All Expr.Spelled := by
  intro f hf
  obtain ⟨f', hf', hbody⟩ := mem_of_signature hrestores.functions hf
  have htaken := ((h.taken_of_dump hw).function hf').body
  rw [hbody] at htaken
  exact htaken.imp fun _ => Expr.spelled_of_taken

/-- The functions of a context that is restored from its tome are faithful. -/
theorem Lawful.faithful_of_restores {c : Context} (h : c.Lawful Expr.Parsed)
    (hspelled : ∀ f ∈ c.rootScope.functions, f.body.All Expr.Spelled) {k : Nat}
    {ps : List (String × Value)} (hrestores : c.Restores
      (holding (redeclared k (c.rootScope.functions.map Function.rebound)) ps)) :
    ∀ f ∈ c.rootScope.functions, f.body.All Expr.Faithful := by
  intro f hf
  have hparsed := (h.function hf).body
  have hsame := hrestores.functions
  rw [functions_holding, signature_redeclared, List.map_map] at hsame
  have hbody : f.body.rebound = f.body :=
    congrArg (fun s => s.2.2) (List.map_inj_left.mp hsame f hf)
  have hreadable := Expr.readable_rebound (hparsed.imp fun _ => Expr.worded_of_parsed)
  rw [hbody] at hreadable
  exact (hparsed.and ((hspelled f hf).and hreadable)).imp fun _ he =>
    (Expr.faithful_iff he.1).mpr ⟨he.2.1, (Expr.readable_iff.mp he.2.2).2⟩

end Context

theorem written_of_readAs {ps ps' : List (String × Value)} (h : List.Forall₂ ReadAs ps ps') :
    ∃ es, List.Forall₂ WrittenAs ps' es := by
  induction h with
  | nil => exact ⟨[], .nil⟩
  | cons hp _ ih =>
    obtain ⟨es, hes⟩ := ih
    obtain ⟨-, rhs, -, hback⟩ := hp
    obtain ⟨e, he⟩ := hback.spelled
    exact ⟨_, .cons ⟨e, he, rfl⟩ hes⟩

theorem isEmpty_of_written {ps : List (String × Value)} {es : List Expr}
    (h : List.Forall₂ WrittenAs ps es) : ∀ p ∈ ps, p.2.isEmpty = false := by
  induction h with
  | nil => exact nofun
  | @cons p e ps es hp _ ih =>
    obtain ⟨rhs, hspell, -⟩ := hp
    intro q hq
    rcases List.mem_cons.mp hq with rfl | hq
    · cases hv : q.2 with
      | empty =>
        rw [hv] at hspell
        cases hspell
      | _ => rfl
    · exact ih q hq

/-- Variables that are written as the same statements have the same expressions. -/
theorem spelling_of_written {ps ps' : List (String × Value)} {es : List Expr}
    (h : List.Forall₂ ReadAs ps ps') (hes : List.Forall₂ WrittenAs ps es)
    (hes' : List.Forall₂ WrittenAs ps' es) :
    ∀ p ∈ ps, ∃ p' ∈ ps', ReadAs p p' ∧ p'.2.spelling = p.2.spelling := by
  induction h generalizing es with
  | nil => exact nofun
  | @cons p p' ps ps' hp _ ih =>
    obtain _ | ⟨hwritten, hes⟩ := hes
    obtain _ | ⟨hwritten', hes'⟩ := hes'
    obtain ⟨rhs, hspell, rfl⟩ := hwritten
    obtain ⟨rhs', hspell', heq⟩ := hwritten'
    obtain rfl : rhs = rhs' := (Expr.binary.inj heq).2.2
    intro q hq
    rcases List.mem_cons.mp hq with rfl | hq
    · exact ⟨p', List.mem_cons_self, hp, hspell'.trans hspell.symm⟩
    · obtain ⟨q', hq', hread⟩ := ih hes hes' q hq
      exact ⟨q', List.mem_cons_of_mem _ hq', hread⟩

theorem definitions_redeclared (k : Nat) (fs : List Function) :
    ((redeclared k fs).map Function.rebound).map Function.definition =
      (fs.map Function.rebound).map Function.definition := by
  induction fs generalizing k with
  | nil => rfl
  | cons f fs ih => exact congrArg (f.rebound.definition :: ·) (ih (k + 1))

theorem Expr.plant_injective : Function.Injective fun e : Expr => e.plant {} := by
  intro e e' h
  have htrees := congrArg Arena.expr? h
  simpa [Arena.expr?_plant] using htrees

namespace Context

/-- The values of a context that is restored from its tome are stable. -/
theorem Lawful.stable_of_restores {c c' : Context} (h : c.Lawful Expr.Parsed)
    (h' : c'.Lawful Expr.Parsed)
    (hspelled : ∀ f ∈ c.rootScope.functions, f.body.All Expr.Spelled) {k : Nat}
    {ps : List (String × Value)} (hps : List.Forall₂ ReadAs c.saved ps)
    (hc' : c' = holding (redeclared k c.rootScope.functions) ps) (hrestores : c.Restores c') :
    ∀ p ∈ c.saved, p.2.isStable = true := by
  obtain ⟨es, hes, -⟩ := statements_of_readAs hps
  obtain ⟨es', hes'⟩ := written_of_readAs hps
  have hvalues : c'.rootScope.values = ps := hc' ▸ values_holding _ ps
  have hfunctions : c'.rootScope.functions = redeclared k c.rootScope.functions :=
    hc' ▸ functions_holding k _ ps
  have hsaved : c'.saved = ps := hc' ▸ saved_holding (isEmpty_of_written hes') _
  have hspelled' : ∀ f ∈ c'.rootScope.functions, f.body.All Expr.Spelled := by
    intro f hf
    obtain ⟨g, hg, hbody⟩ := mem_of_signature hrestores.functions.symm hf
    exact hbody ▸ hspelled g hg
  have hparse := h.parse_dump hspelled hes
  have hparse' := h'.parse_dump hspelled' (hsaved ▸ hes')
  rw [hrestores.dump, hparse, hfunctions, definitions_redeclared, Except.ok.injEq] at hparse'
  have hsame : es' = es :=
    (List.append_cancel_left (List.map_injective_iff.mpr Expr.plant_injective hparse')).symm
  subst hsame
  have hnodup : (ps.map Prod.fst).Nodup := by
    rw [names_of_readAs hps]
    exact (List.nodup_append.mp h.nodup_names).2.1
  intro p hp
  obtain ⟨p', hp', ⟨hname, rhs, hspell, hback⟩, hspelling⟩ := spelling_of_written hps hes hes' p hp
  obtain ⟨hmem, hnonempty⟩ := mem_saved.mp hp
  obtain ⟨v, hv, hequals⟩ := hrestores.values p.1 p.2 hmem hnonempty
  rw [hvalues] at hv
  have hpair : (p.1, v) = p' := List.inj_on_of_nodup_map hnodup hv hp' hname.symm
  have hvalue : v = p'.2 := congrArg Prod.snd hpair
  exact hback.isStable_of_equals (hvalue ▸ hequals) (hspelling.trans hspell)

/-- The tome of a context made by texts restores it exactly if its functions are faithful and its
variables have stable values; apart from variables that are not finite numbers, whose text is a name
that a function may give any meaning. -/
theorem Played.reload_iff {c : Context} (h : c.Played) {σ : Type} [DiceSource σ] {w : World σ}
    (hw : w.context = {}) :
    ((∃ os w', (World.evalTome c.dump).run w = (.ok os, w') ∧ c.Restores w'.context) ∧
      ∀ p ∈ c.rootScope.values, p.2.isFinite = true) ↔
    (∀ f ∈ c.rootScope.functions, f.body.All Expr.Faithful) ∧
      ∀ p ∈ c.rootScope.values, p.2.isEmpty = false → p.2.isStable = true := by
  have hlawful := h.lawful
  constructor
  · rintro ⟨⟨os, w', hrun, hrestores⟩, hfinite⟩
    have hend : ((World.evalTome c.dump).run w).2.context = w'.context := by
      rw [hrun]
    have hspelled := hlawful.spelled_of_restores hw (hend ▸ hrestores)
    have hparse : ∃ as, parseTome c.dump = .ok as := by
      cases hparse : parseTome c.dump with
      | ok as => exact ⟨as, rfl⟩
      | error err =>
        rw [World.evalTome_of_error hparse] at hrun
        cases hrun
    obtain ⟨as, hparse⟩ := hparse
    have hspelling := hlawful.exists_spelling hspelled
      (fun p hp => hfinite p (mem_saved.mp hp).1) hparse
    obtain ⟨ps, hps⟩ := exists_readAs fun p hp => ⟨(hlawful.saved hp).2, hspelling p hp⟩
    obtain ⟨os', w'', hrun', hcontext⟩ := hlawful.run_dump hspelled hps hw
    rw [hrun] at hrun'
    cases hrun'
    have hfaithful := hlawful.faithful_of_restores hspelled (hcontext ▸ hrestores)
    have hreadable : ∀ f ∈ c.rootScope.functions, f.body.All Expr.Readable := fun f hf =>
      Expr.readable_of_faithful (hlawful.function hf).body (hfaithful f hf)
    rw [rebound_functions hreadable] at hcontext
    have hlawful' : w'.context.Lawful Expr.Parsed := by
      have hstart : w.context.Played := hw ▸ .start
      exact hend ▸ (hstart.tome c.dump).lawful
    have hstable := hlawful.stable_of_restores hlawful' hspelled hps hcontext hrestores
    exact ⟨hfaithful, fun p hmem hv => hstable p (mem_saved.mpr ⟨hmem, hv⟩)⟩
  · rintro ⟨hfaithful, hstable⟩
    have hsaved : ∀ p ∈ c.saved, p.2.isStable = true := fun p hp =>
      hstable p (mem_saved.mp hp).1 (mem_saved.mp hp).2
    refine ⟨hlawful.restores hfaithful hsaved hw, fun p hmem => ?_⟩
    cases hv : p.2.isEmpty with
    | false => exact Value.isFinite_of_isStable (hstable p hmem hv)
    | true =>
      have hempty : p.2 = .empty := by
        cases hp : p.2 with
        | empty => rfl
        | _ =>
          rw [hp] at hv
          cases hv
      rw [hempty]
      rfl

/-- A function whose body is a sequence with a conditional, and a variable with dice in a list. -/
theorem reload_sequence :
    let w : World ScriptedDice := { dice := {} }
    let c := ((World.evalTome
      "f(x) = (x; if x then 4d6k3 else [])\ny = [1, 2d6a, \"d\"]").run w).2.context
    ∃ os w', (World.evalTome c.dump).run w = (.ok os, w') ∧ c.Restores w'.context := by
  intro w c
  have hplayed : c.Played := .tome .start _
  have hfaithful : ∀ f ∈ c.rootScope.functions, f.body.All Expr.Faithful := by
    decide +kernel
  have hstable : ∀ p ∈ c.rootScope.values, p.2.isEmpty = false → p.2.isStable = true := by
    decide +kernel
  exact ((hplayed.reload_iff rfl).mpr ⟨hfaithful, hstable⟩).1

/-- The statement `x = [if false then 1]` makes a list of nothing, for which there is no text. -/
theorem not_reload_of_played :
    ¬ ∀ c : Context, c.Played → ∀ w : World ScriptedDice, w.context = {} →
      ∃ os w', (World.evalTome c.dump).run w = (.ok os, w') ∧ c.Restores w'.context := by
  intro h
  let w : World ScriptedDice := { dice := {} }
  let c : Context := ((World.evalSource "x = [if false then 1]").run w).2.context
  have hplayed : c.Played := .source .start _
  have hfails : ((World.evalTome c.dump).run w).1.isOk = false := by
    decide +kernel
  obtain ⟨os, w', hrun, -⟩ := h c hplayed w rfl
  rw [hrun] at hfails
  cases hfails

end Context

end DiceTome
