import DiceTome.Proofs.Declarations
import DiceTome.Proofs.Deeds
import DiceTome.Proofs.FileTrees
import DiceTome.Proofs.Returns

/-!
# Saving and loading a context

A context is saved as the text that it is written as, and loaded by evaluating what its file gives.
That is the text itself unless there is a carriage return in it.

* `Session.content_of_saveContext` and `Session.content_after_saveContext`: what a context that has
  been saved leaves in the files; `Session.saves_of_saveCommand` is this for the save command.
* `Context.Lawful.parseTome_of_return`: a written context with a carriage return is not read from a
  file.
* `Context.Played.load_saved_iff`: when loading gives what evaluating the written context gives.
-/

namespace DiceTome

open Step Token

/-! ## Texts that survive a file -/

/-- The text as a file gives it. -/
def throughFile (text : String) : String :=
  String.ofList (Text.unifyNewlines text.toList)

theorem throughFile_eq {text : String} (h : '\r' ∉ text.toList) : throughFile text = text := by
  rw [throughFile, Text.unifyNewlines_eq h, String.ofList_toList]

theorem parseTome_of_kinds {text : String} (h : kindsFrom .other text.toList = none) :
    ∃ cause, parseTome text = .error (.scan text cause) := by
  rw [← scan_kinds] at h
  cases hscan : scan text with
  | ok tokens =>
    rw [hscan] at h
    cases h
  | error cause =>
    refine ⟨cause, ?_⟩
    simp only [parseTome, hscan]
    rfl

/-- A written context with a carriage return cannot be read from a file. -/
theorem Context.Lawful.parseTome_of_return {c : Context} (h : c.Lawful Expr.Parsed)
    (hreturn : '\r' ∈ c.dump.toList) :
    ∃ cause, parseTome (throughFile c.dump) = .error (.scan (throughFile c.dump) cause) := by
  apply parseTome_of_kinds
  rw [throughFile, String.toList_ofList]
  exact kindsFrom_unifyNewlines h.sheltered_dump hreturn .other

namespace Session

variable {σ : Type} {s s' : Session σ} {c : Context} {target : SaveTarget} {path : Path}

/-! ## What saving leaves behind -/

theorem saveContext_ok (h : saveContext c target s = (.ok path, s')) :
    target.resolve s.environment s.settings s.files = .ok path ∧
      ∃ files written, s.files.makeDirectories path.parent = (files, .ok ()) ∧
        files.writeText path c.dump = .ok written ∧
        s' = recorded { s with files := written } (c.dumpEvents ++ [.saved path.text]) := by
  rw [run_saveContext] at h
  cases hresolve : target.resolve s.environment s.settings s.files with
  | error e =>
    rw [hresolve] at h
    cases h
  | ok p =>
    rw [hresolve] at h
    dsimp only at h
    cases hmake : s.files.makeDirectories p.parent with
    | mk files made =>
      rw [hmake] at h
      cases made with
      | error e => cases h
      | ok =>
        dsimp only at h
        cases hwrite : files.writeText p c.dump with
        | error e =>
          rw [hwrite] at h
          cases h
        | ok written =>
          rw [hwrite] at h
          cases h
          exact ⟨rfl, files, written, hmake, hwrite, rfl⟩

/-- A context can be saved to a file that is there. -/
theorem exists_saveContext (hresolve : target.resolve s.environment s.settings s.files = .ok path)
    {d : Content} (hd : s.files.content path = .ok d) (c : Context) :
    ∃ s', saveContext c target s = (.ok path, s') := by
  obtain ⟨hmake, hwrite⟩ := FileTree.rewrite_file hd c.dump
  rw [run_saveContext, hresolve]
  simp only [hmake, hwrite]
  exact ⟨_, rfl⟩

theorem saveContext_of_isOk (h : (saveContext c (.path path) s).1.isOk = true) :
    saveContext c (.path path) s = (.ok path, (saveContext c (.path path) s).2) := by
  cases hrun : saveContext c (.path path) s with
  | mk result s' =>
    rw [hrun] at h
    cases result with
    | error e => cases h
    | ok p =>
      have hpath : Except.ok path = .ok p := (saveContext_ok hrun).1
      cases hpath
      rfl

/-- The file of a saved context has its text. -/
theorem content_of_saveContext (h : saveContext c target s = (.ok path, s')) :
    s'.files.content path = .ok (.text c.dump) := by
  obtain ⟨-, files, written, -, hwrite, rfl⟩ := saveContext_ok h
  exact FileTree.content_writeText hwrite

/-- Other files keep their content, unless they are at the same place. -/
theorem content_after_saveContext (h : saveContext c target s = (.ok path, s')) {other : Path}
    {d : Content} (hd : s.files.content other = .ok d) :
    s'.files.content other =
      .ok (if other.place = path.place then .text c.dump else d) := by
  obtain ⟨-, files, written, hmake, hwrite, rfl⟩ := saveContext_ok h
  have hkept := FileTree.keeps_makeDirectories s.files path.parent
  rw [hmake] at hkept
  exact FileTree.content_of_writeText hwrite (hkept.content hd)

/-- Saving changes nothing but the files and the journal. -/
theorem unchanged_of_saveContext {result : Except SessionError Path}
    (h : saveContext c target s = (result, s')) :
    s'.cache = s.cache ∧ s'.settings = s.settings ∧ s'.environment = s.environment ∧
      s'.world.context = s.world.context ∧ s'.world.output = s.world.output := by
  obtain ⟨files, journal, hsnd⟩ := saveContext_snd c target s
  rw [h] at hsnd
  dsimp only at hsnd
  subst hsnd
  exact ⟨rfl, rfl, rfl, rfl, rfl⟩

/-- The save command without a title has made `s'` of `s`: the context is saved at `path`, the cache
remembers that, and all files are still there. -/
structure Saves (s s' : Session σ) (path : Path) : Prop where
  tome : s.exitTarget.resolve s.environment s.settings s.files = .ok path
  settings : s'.settings = s.settings
  environment : s'.environment = s.environment
  context : s'.world.context = s.world.context
  cache : s'.cache = (s.remembering path).cache
  output : s'.world.output = s.world.output ++ s!"Saved to {path.text}" ++ "\n"
  content : s'.files.content path = .ok (.text s'.world.context.dump)
  kept : ∀ other c, s.files.content other = .ok c → ∃ d, s'.files.content other = .ok d

theorem saves_of_saveCommand (h : (saveCommand [] : Deed σ Unit) s = (.ok (), s')) :
    ∃ path, Saves s s' path := by
  rw [run_saveCommand] at h
  cases hsave : saveContext s.world.context s.exitTarget s with
  | mk result u =>
    rw [hsave] at h
    cases result with
    | error e => cases h
    | ok path =>
      cases h
      obtain ⟨hcache, hsettings, henvironment, hcontext, houtput⟩ := unchanged_of_saveContext hsave
      refine ⟨path, (saveContext_ok hsave).1, hsettings, henvironment, hcontext, ?_, ?_, ?_,
        fun other c hc => ⟨_, content_after_saveContext hsave hc⟩⟩
      · change u.cache.bind Context.root savePathName _ = s.cache.bind Context.root savePathName _
        rw [hcache]
      · change u.world.output ++ _ ++ _ = _
        rw [houtput]
      · change u.files.content path = .ok (.text u.world.context.dump)
        rw [hcontext]
        exact content_of_saveContext hsave

/-! ## Loading what has been saved -/

variable [DiceSource σ]

/-- A file is loaded by evaluating what it gives in an empty context. -/
theorem loadTome_of_content {text : String} (h : s.files.content path = .ok (.text text)) :
    (loadTome (.path path) : Deed σ Path) s =
      match (World.evalTome (throughFile text)).run s.emptied with
      | (.ok _, w) => (.ok path, recorded { s with world := w } [.loaded path.text])
      | (.error e, w) =>
        (.error (.source e), { s with world := { w with context := s.world.context } }) := by
  have hread : s.files.readText path = .ok (throughFile text) := FileTree.readText_of_content h
  cases hrun : (World.evalTome (throughFile text)).run s.emptied with
  | mk result w =>
    cases result with
    | error e => simp only [run_loadTome, SaveTarget.resolve, hread, hrun]
    | ok os => simp only [run_loadTome, SaveTarget.resolve, hread, hrun]

end Session

open Session in
/-- A context made by texts that is saved at a path, and whose text evaluates, is loaded from that
path exactly if there is no carriage return in its text. What is loaded then has the functions and
the variables that evaluating the text with the same dice gives. -/
theorem Context.Played.load_saved_iff {c : Context} (h : c.Played) {σ : Type} [DiceSource σ]
    {s s' : Session σ} {path : Path} (hsave : saveContext c (.path path) s = (.ok path, s'))
    {w w' : World σ} {os : List Outcome} (hw : w.context = {}) (hdice : w.dice = s.world.dice)
    (hrun : (World.evalTome c.dump).run w = (.ok os, w')) :
    (∃ s'', (loadTome (.path path) : Deed σ Path) s' = (.ok path, s'') ∧
      s''.world.context.Agrees w'.context) ↔ '\r' ∉ c.dump.toList := by
  rw [loadTome_of_content (content_of_saveContext hsave)]
  constructor
  · rintro ⟨s'', hload, -⟩ hreturn
    obtain ⟨cause, hparse⟩ := h.lawful.parseTome_of_return hreturn
    rw [World.evalTome_of_error hparse] at hload
    cases hload
  · intro hreturn
    have hsame : s'.emptied.dice = w.dice := by
      obtain ⟨-, files, written, -, -, rfl⟩ := saveContext_ok hsave
      exact hdice.symm
    have hempty : s'.emptied.context = {} := rfl
    obtain ⟨hresult, -, hcontext⟩ := World.evalTome_agree c.dump hempty hw hsame
    rw [hrun] at hresult hcontext
    rw [throughFile_eq hreturn]
    cases hload : (World.evalTome c.dump).run s'.emptied with
    | mk result v =>
      rw [hload] at hresult hcontext
      dsimp only at hresult hcontext
      subst hresult
      exact ⟨_, rfl, hcontext⟩

/-- A session at its start, without files. -/
def Session.bare : Session ScriptedDice where
  world := { dice := {} }
  cacheDice := {}

/-- The context that one text makes of an empty one. -/
def Context.after (text : String) : Context :=
  ((World.evalSource text).run { dice := ({} : ScriptedDice) }).2.context

open Session in
/-- A variable whose text has a newline in it, which is written as an escape sequence. -/
theorem Context.load_saved_newline :
    let c := Context.after "x = \"a\\nb\""
    let path := Path.ofString "t.tome"
    let s := (saveContext c (.path path) bare).2
    ∃ s'', (loadTome (.path path) : Deed ScriptedDice Path) s = (.ok path, s'') ∧
      s''.world.context.Agrees ((World.evalTome c.dump).run bare.emptied).2.context := by
  intro c path s
  have hplayed : c.Played := .source .start _
  have hsave : saveContext c (.path path) bare = (.ok path, s) :=
    saveContext_of_isOk (by decide +kernel)
  have hruns : ((World.evalTome c.dump).run bare.emptied).1.isOk = true := by
    decide +kernel
  have hreturn : '\r' ∉ c.dump.toList := by
    decide +kernel
  cases hrun : (World.evalTome c.dump).run bare.emptied with
  | mk result w =>
    rw [hrun] at hruns
    cases result with
    | error e => cases hruns
    | ok os =>
      have hempty : bare.emptied.context = {} := rfl
      exact (hplayed.load_saved_iff hsave hempty rfl hrun).mpr hreturn

open Session in
/-- The text `x = "a\rb"` holds a carriage return in a string, where it is read and written as it
stands; the file of the context gives a newline in its place. -/
theorem Context.not_load_saved :
    ¬ ∀ (c : Context) (path : Path) (s s' : Session ScriptedDice) (os : List Outcome)
      (w w' : World ScriptedDice), c.Played → saveContext c (.path path) s = (.ok path, s') →
      w.context = {} → w.dice = s.world.dice → (World.evalTome c.dump).run w = (.ok os, w') →
      ∃ s'', (loadTome (.path path) : Deed ScriptedDice Path) s' = (.ok path, s'') ∧
        s''.world.context.Agrees w'.context := by
  intro h
  let c := Context.after "x = \"a\rb\""
  let path := Path.ofString "t.tome"
  have hsave : saveContext c (.path path) bare = (.ok path, (saveContext c (.path path) bare).2) :=
    saveContext_of_isOk (by decide +kernel)
  have hruns : ((World.evalTome c.dump).run bare.emptied).1.isOk = true := by
    decide +kernel
  have hfails : ((loadTome (.path path) : Deed ScriptedDice Path)
      (saveContext c (.path path) bare).2).1.isOk = false := by
    decide +kernel
  cases hrun : (World.evalTome c.dump).run bare.emptied with
  | mk result w =>
    rw [hrun] at hruns
    cases result with
    | error e => cases hruns
    | ok os =>
      obtain ⟨s'', hload, -⟩ := h c path bare _ os _ w (.source .start _) hsave rfl rfl hrun
      rw [hload] at hfails
      cases hfails

end DiceTome
