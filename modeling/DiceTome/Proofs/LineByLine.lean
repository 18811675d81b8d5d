import DiceTome.Proofs.Newlines
import DiceTome.Proofs.Restore
import DiceTome.Proofs.Segments

/-!
# Tomes parsed line by line

Newlines mean nothing in a tome. Still a tome of lines that are each parsed by themselves is parsed
line by line, if every line starts with a name: cutting into tokens starts anew behind a newline,
and what has been parsed up to the end of a line does not go on with a name.

* `Climb.level_append`: what is parsed from all of its tokens is parsed in front of a name as well.
* `parseTome_joinLines`: lines that start with names are parsed one by one.
* `Context.Lawful.named_dumpLines`: definitions start with names, whether they are parsed or not.
-/

namespace DiceTome

open Token

/-! ## In front of a name -/

/-- No expression that may end goes on with a name. -/
theorem Arena.statement_append {ts rest : List Token} {a : Arena} (h : parse ts = .ok a)
    (hrest : Climb.Fresh (rest.map Token.kind)) : Parse.statement (ts ++ rest) = .ok (a, rest) := by
  obtain ⟨s, hfinish, hrun, -⟩ := Parse.State.split_run (parse_eq_ok_iff.mp h)
  rw [Parse.statement, hrun]
  cases rest with
  | nil =>
    rw [Parse.State.run, Parse.State.finish_ok _ hfinish]
    rfl
  | cons t rest =>
    obtain ⟨n, hkind, hn⟩ := hrest t.kind rfl
    have ht : ¬ s.GoesOn t := by
      rintro (h | ⟨_, h⟩ | ⟨_, _, h⟩ | ⟨_, _, h⟩)
      all_goals rw [hkind] at h; cases h
      cases hn
    rw [Parse.State.run, Parse.State.stop_of_finish hfinish ht]
    rfl

namespace Climb

theorem exists_tokens (kinds : List Kind) : ∃ tokens : List Token, tokens.map Token.kind = kinds :=
  ⟨kinds.map fun kind => ⟨kind, "", ⟨{}, {}, none⟩⟩, by simp [Function.comp_def]⟩

/-- What is read from some tokens and uses all of them is read in front of a name as well. -/
theorem level_append {ts rest : List Kind} {e : Expr} (h : parse ts = some e) (hrest : Fresh rest) :
    level 0 (ts ++ rest) = some (e, rest) := by
  obtain ⟨tokens, rfl⟩ := exists_tokens ts
  obtain ⟨behind, rfl⟩ := exists_tokens rest
  have hstatement := Arena.statement_append (Arena.parse_ok_iff.mpr ⟨e, h, rfl⟩) hrest
  have hmeets := Parse.meets_statement (tokens ++ behind)
  rw [List.map_append] at hmeets
  cases hread : level 0 (tokens.map Token.kind ++ behind.map Token.kind) with
  | none =>
    rw [hread] at hmeets
    obtain ⟨err, herr⟩ := hmeets
    rw [hstatement] at herr
    cases herr
  | some p =>
    rw [hread] at hmeets
    obtain ⟨left, hleft, hok⟩ := hmeets
    rw [hstatement, Except.ok.injEq, Prod.mk.injEq] at hok
    obtain ⟨hplant, rfl⟩ := hok
    have hsame := congrArg Arena.expr? hplant
    rw [Arena.expr?_plant, Arena.expr?_plant] at hsame
    exact congrArg some (Prod.ext (Option.some.inj hsame).symm hleft.symm)

end Climb

/-! ## Lines -/

/-- A tome is parsed as the listings of the expressions that are read one after another in it. -/
theorem parseTome_eq_ok_iff {text : String} {as : List Arena} :
    parseTome text = .ok as ↔ ∃ kinds es, kindsFrom .other text.toList = some kinds ∧
      Climb.statements kinds = some es ∧ as = es.map (·.plant {}) := by
  have heq := parseTome_eq text
  constructor
  · intro h
    cases hread : (kindsFrom .other text.toList).bind Climb.statements with
    | none =>
      rw [hread, h] at heq
      obtain ⟨err, herr⟩ := heq
      cases herr
    | some es =>
      rw [hread, h] at heq
      obtain ⟨kinds, hkinds, hes⟩ := Option.bind_eq_some_iff.mp hread
      exact ⟨kinds, es, hkinds, hes, Except.ok.inj heq⟩
  · rintro ⟨kinds, es, hkinds, hes, rfl⟩
    rwa [hkinds, Option.bind_some, hes] at heq

/-- Behind a newline the tokens are those of the text behind it. -/
theorem Token.kindsFrom_newline {text : String} {kinds : List Kind}
    (h : kindsFrom .other text.toList = some kinds) (rest : List Char) :
    kindsFrom .other (text.toList ++ '\n' :: rest) =
      (kindsFrom .other rest).map (kinds ++ ·) := by
  cases hscan : scanFrom .start .other text.toList with
  | error err =>
    rw [← scanFrom_kinds .start, hscan] at h
    cases h
  | ok tokens =>
    rw [← scanFrom_kinds .start, hscan] at h
    cases h
    have hcut := (cuts_of_scanFrom hscan).newline rest
    rw [← scanFrom_kinds .start, hcut]
    generalize Cursor.start.advance (text.toList ++ ['\n']) = cur
    rw [← scanFrom_kinds cur]
    cases scanFrom cur .other rest with
    | error err => rfl
    | ok later => simp [Except.map, Except.toOption]

/-- If the text is cut into tokens, the first one is a name that is no word of the language. -/
def StartsNamed (text : String) : Prop :=
  ∀ kinds, kindsFrom .other text.toList = some kinds → kinds ≠ [] ∧ Climb.Fresh kinds

theorem exists_parses {lines : List String} (h : ∀ line ∈ lines, ∃ a, parseSource line = .ok a) :
    ∃ as, List.Forall₂ (fun line a => parseSource line = .ok a) lines as := by
  induction lines with
  | nil => exact ⟨[], .nil⟩
  | cons line lines ih =>
    obtain ⟨as, has⟩ := ih fun line hmem => h line (List.mem_cons_of_mem _ hmem)
    obtain ⟨a, ha⟩ := h line List.mem_cons_self
    exact ⟨a :: as, .cons ha has⟩

/-- Lines that start with names and are parsed by themselves are parsed as the statements of one
tome. -/
theorem parseTome_joinLines {lines : List String} {as : List Arena}
    (h : List.Forall₂ (fun line a => parseSource line = .ok a) lines as)
    (hnamed : ∀ line ∈ lines, StartsNamed line) : parseTome (joinLines lines) = .ok as := by
  have hread : ∃ kinds es, kindsFrom .other (joinLines lines).toList = some kinds ∧
      Climb.Fresh kinds ∧ Climb.statements kinds = some es ∧ as = es.map (·.plant {}) := by
    induction h with
    | nil =>
      refine ⟨[], [], ?_, nofun, Climb.statements_nil, rfl⟩
      rw [toList_joinLines_nil, kindsFrom_nil]
    | @cons line a lines as hline _ ih =>
      obtain ⟨more, es, hmore, hfresh, hes, rfl⟩ :=
        ih fun line hmem => hnamed line (List.mem_cons_of_mem _ hmem)
      obtain ⟨kinds, e, hkinds, he, rfl⟩ := parseSource_eq_ok_iff.mp hline
      obtain ⟨hne, hstart⟩ := hnamed line List.mem_cons_self kinds hkinds
      refine ⟨kinds ++ more, e :: es, ?_, ?_, ?_, rfl⟩
      · rw [toList_joinLines, kindsFrom_newline hkinds, hmore, Option.map_some]
      · obtain ⟨t, kinds, rfl⟩ := List.exists_cons_of_ne_nil hne
        exact hstart
      · rw [Climb.statements_eq (by simp [hne]), Climb.level_append he hfresh, Option.bind_some,
          hes]
        rfl
  obtain ⟨kinds, es, hkinds, -, hes, has⟩ := hread
  exact parseTome_eq_ok_iff.mpr ⟨kinds, es, hkinds, hes, has⟩

/-! ## Definitions -/

/-- A name with something else than a further letter behind it. -/
theorem startsNamed_append {n rest : String} {c : Char} {cs : List Char}
    (hn : (Expr.name n).Parsed) (hrest : rest.toList = c :: cs) (hword : Text.isWordChar c = false)
    (hpoint : c ≠ '.') : StartsNamed (n ++ rest) := by
  intro kinds hkinds
  have hedge : Edge rest.toList := by
    rw [hrest]
    exact Expr.edge_cons hword hpoint cs
  rw [String.toList_append, kindsFrom_name hn.1 (by decide) hedge] at hkinds
  obtain ⟨more, -, rfl⟩ := Option.map_eq_some_iff.mp hkinds
  refine ⟨nofun, ?_⟩
  rintro t ⟨⟩
  exact ⟨n, rfl, hn.2⟩

theorem Function.startsNamed_render {f : Function} {n : String} (h : f.Lawful Expr.Parsed n) :
    StartsNamed f.render := by
  obtain ⟨rfl, hhead, -⟩ := h
  have hname : (Expr.name f.name).Parsed := hhead.1
  obtain ⟨rest, htext⟩ : ∃ rest, f.render = f.name ++ ("(" ++ rest) := by
    rw [render]
    exact ⟨_, by rw [String.append_assoc, String.append_assoc, String.append_assoc]⟩
  rw [htext]
  exact startsNamed_append hname (String.toList_append ..) (by decide) (by decide)

theorem Context.startsNamed_variableLine {n : String} (hn : (Expr.name n).Parsed) (v : Value) :
    StartsNamed (variableLine n v) := by
  rw [variableLine, String.append_assoc]
  exact startsNamed_append hn (String.toList_append ..) (by decide) (by decide)

/-- The lines of a written context start with the names that they define. -/
theorem Context.Lawful.named_dumpLines {c : Context} (h : c.Lawful Expr.Parsed) :
    ∀ line ∈ c.dumpLines, StartsNamed line := by
  intro line hline
  rcases List.mem_append.mp hline with hline | hline
  · obtain ⟨f, hf, rfl⟩ := List.mem_map.mp hline
    exact Function.startsNamed_render (h.function hf)
  · obtain ⟨p, hp, rfl⟩ := List.mem_map.mp hline
    exact Context.startsNamed_variableLine (h.saved hp).1 p.2

end DiceTome
