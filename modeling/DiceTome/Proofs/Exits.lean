import DiceTome.Proofs.Deeds

/-!
# Inputs that leave a session, and inputs that leave it alone

A session that takes its inputs one by one keeps whatever every one of them keeps. Most inputs change
nothing but the world of the session; those that save or load a tome change the files and the path
that the cache remembers, and those that leave the session write the cache, and before that the tome
unless they are told not to.

* `Session.keeps_run`: a run keeps an invariant that every input keeps.
* `Session.keeps_handleInput` and `Session.keeps_quietInput` are the invariants that all inputs keep,
  and those that an input keeps which neither saves nor loads nor leaves.
* `Session.run_exitInput` is what an input does that leaves the session.
-/

namespace DiceTome.Session

open Step

variable {σ : Type}

/-! ## What steps keep -/

/-- The invariant holds behind the step, whether it succeeds or not. -/
def Keeps (inv : Session σ → Prop) (x : Deed σ α) : Prop :=
  ∀ s, inv s → inv (x s).2

variable {inv : Session σ → Prop}

theorem keeps_pure (a : α) : Keeps inv (pure a) :=
  fun _ hs => hs

theorem keeps_throw (e : SessionError) : Keeps inv (throw e : Deed σ α) :=
  fun _ hs => hs

theorem Keeps.bind {x : Deed σ α} {f : α → Deed σ β} (hx : Keeps inv x) (hf : ∀ a, Keeps inv (f a)) :
    Keeps inv (x >>= f) := by
  intro s hs
  have hx := hx s hs
  rw [run_bind]
  cases hrun : x s with
  | mk result s' =>
    rw [hrun] at hx
    cases result with
    | error e => exact hx
    | ok a => exact hf a s' hx

theorem keeps_get_bind {f : Session σ → Deed σ α} (h : ∀ s, Keeps inv (f s)) :
    Keeps inv (get >>= f) :=
  fun s hs => h s s hs

theorem keeps_modify {change : Session σ → Session σ} (h : ∀ s, inv s → inv (change s)) :
    Keeps inv (modify change : Deed σ Unit) :=
  h

theorem keeps_tryCatch {x : Deed σ α} {handle : SessionError → Deed σ α} (hx : Keeps inv x)
    (hhandle : ∀ e, Keeps inv (handle e)) : Keeps inv (tryCatch x handle) := by
  intro s hs
  have hx := hx s hs
  rw [run_tryCatch]
  cases hrun : x s with
  | mk result s' =>
    rw [hrun] at hx
    cases result with
    | ok a => exact hx
    | error e => exact hhandle e s' hx

theorem keeps_target (args : List String) : Keeps inv (target args : Deed σ SaveTarget) := by
  intro s hs
  rwa [target_snd]

/-- The invariant says nothing about the world, nor about interrupts. -/
def Unworldly (inv : Session σ → Prop) : Prop :=
  ∀ s world interrupted, inv s → inv { s with world, interrupted }

section Unworldly

variable (h : Unworldly inv)
include h

theorem keeps_inWorld (act : Act σ α) : Keeps inv (inWorld act) :=
  fun s hs => h s _ s.interrupted hs

theorem keeps_printLine (line : String) : Keeps inv (printLine line : Deed σ Unit) :=
  keeps_inWorld h _

theorem keeps_record (e : Event) : Keeps inv (record e : Deed σ Unit) :=
  keeps_inWorld h _

theorem keeps_evalLine [DiceSource σ] (line : String) : Keeps inv (evalLine line : Deed σ Unit) := by
  refine (keeps_inWorld h _).bind fun o => ?_
  split
  · exact keeps_printLine h _
  · exact keeps_pure _

theorem keeps_printed {s : Session σ} (hs : inv s) (text : String) : inv (s.printed text) :=
  h s _ s.interrupted hs

theorem keeps_loadTome [DiceSource σ] (target : SaveTarget) :
    Keeps inv (loadTome target : Deed σ Path) := by
  intro s hs
  rw [run_loadTome]
  cases target.resolve s.environment s.settings s.files with
  | error e => exact hs
  | ok path =>
    dsimp only
    cases s.files.readText path with
    | error e => exact hs
    | ok text =>
      dsimp only
      cases (World.evalTome text).run s.emptied with
      | mk result w => cases result <;> exact h s _ s.interrupted hs

/-! ## Saving and loading -/

/-- The invariant says nothing about the files. -/
def Fileless (inv : Session σ → Prop) : Prop :=
  ∀ s files, inv s → inv { s with files }

theorem keeps_saveContext (hfiles : Fileless inv) (context : Context) (target : SaveTarget) :
    Keeps inv (saveContext context target : Deed σ Path) := by
  intro s hs
  obtain ⟨files, journal, hsnd⟩ := saveContext_snd context target s
  rw [hsnd]
  exact h _ _ _ (hfiles s files hs)

theorem keeps_writeCache (hfiles : Fileless inv) : Keeps inv (writeCache : Deed σ Unit) := by
  refine keeps_tryCatch (keeps_get_bind fun s => ?_) fun e => ?_
  · exact (keeps_saveContext h hfiles _ _).bind fun _ => keeps_pure _
  · split
    · exact keeps_record h _
    · exact keeps_throw e

variable (hremember : ∀ s path, inv s → inv (remembering s path))

include hremember in
theorem keeps_loadCommand [DiceSource σ] (args : List String) :
    Keeps inv (loadCommand args : Deed σ Unit) := by
  intro s hs
  rw [run_loadCommand]
  cases ((target args : Deed σ SaveTarget) s).1 with
  | error e => exact hs
  | ok t =>
    dsimp only
    split
    · exact hs
    · have hload := keeps_loadTome h t s hs
      cases hrun : (loadTome t : Deed σ Path) s with
      | mk result s' =>
        rw [hrun] at hload
        cases result with
        | error e => exact hload
        | ok path =>
          exact keeps_printed h (keeps_printed h (hremember _ path hload) _) _

variable (hfiles : Fileless inv)
include hfiles hremember

theorem keeps_saveCommand (args : List String) : Keeps inv (saveCommand args : Deed σ Unit) := by
  refine (keeps_target args).bind fun t => keeps_get_bind fun s => ?_
  refine (keeps_saveContext h hfiles _ _).bind fun path => ?_
  exact (keeps_modify fun s hs => hremember s path hs).bind fun _ => keeps_printLine h _

theorem keeps_exitCommand (args : List String) : Keeps inv (exitCommand args : Deed σ Unit) := by
  unfold exitCommand
  split
  · exact keeps_throw _
  · rename_i nosave _
    cases nosave with
    | true => exact keeps_writeCache h hfiles
    | false => exact (keeps_saveCommand h hremember hfiles []).bind fun _ => keeps_writeCache h hfiles

end Unworldly

/-! ## Commands -/

variable [DiceSource σ]

/-- The words of the command that an input is, if it is one. -/
def Input.command? : Input → Option (List String)
  | .line text =>
    match Text.trim text.toList with
    | '.' :: cs => (Text.splitWords cs).toOption
    | _ => none
  | .endOfInput => some ["exit"]
  | .interrupt => none

/-- Whether an input is an exit command, and if so, whether it asks for no saving. -/
def Input.exit? (input : Input) : Option Bool :=
  match input.command? with
  | some ("exit" :: args) => exitWithoutSaving? args
  | _ => none

/-- Whether an input is a command to save or to load a tome. -/
def Input.usesTomes (input : Input) : Bool :=
  match input.command? with
  | some ("save" :: _) | some ("load" :: _) => true
  | _ => false

theorem command?_line_eq_some_iff {line : String} {words : List String} :
    (Input.line line).command? = some words ↔
      ∃ cs, Text.trim line.toList = '.' :: cs ∧ Text.splitWords cs = .ok words := by
  simp only [Input.command?]
  split
  · rename_i cs hline
    cases hwords : Text.splitWords cs with
    | error e => simp [Except.toOption, hline, hwords]
    | ok words' => simp [Except.toOption, hline, hwords]
  · rename_i hline
    constructor
    · nofun
    · rintro ⟨cs, hcs, -⟩
      exact absurd hcs (hline cs)

/-- A line is an expression, or a command, or nothing. -/
theorem keeps_handleLine (h : Unworldly inv) {line : String}
    (hcommand : ∀ words, (Input.line line).command? = some words →
      Keeps inv (runWords words : Deed σ Bool)) : Keeps inv (handleLine line : Deed σ Bool) := by
  have hdispatch : Keeps inv (dispatch line : Deed σ Bool) := by
    unfold dispatch
    split
    · rename_i cs hline
      intro s hs
      rw [run_runCommand]
      cases hwords : Text.splitWords cs with
      | error e => exact hs
      | ok words =>
        exact hcommand words (command?_line_eq_some_iff.mpr ⟨cs, hline, hwords⟩) s hs
    · exact (keeps_evalLine h line).bind fun _ => keeps_pure _
  intro s hs
  have hs : inv s.uninterrupted := h s s.world false hs
  have hrest := hdispatch _ hs
  rw [run_handleLine]
  split
  · exact hs
  · cases hrun : (dispatch line : Deed σ Bool) s.uninterrupted with
    | mk result s' =>
      rw [hrun] at hrest
      cases result with
      | ok more => exact hrest
      | error e =>
        dsimp only
        split
        · exact keeps_printed h (keeps_printed h hrest _) _
        · exact hrest

theorem command?_endOfInput : Input.endOfInput.command? = (Input.line ".exit").command? := by
  decide

theorem keeps_handleInput_of_runWords (h : Unworldly inv) {input : Input}
    (hcommand : ∀ words, input.command? = some words → Keeps inv (runWords words : Deed σ Bool)) :
    Keeps inv (handleInput input : Deed σ Bool) := by
  cases input with
  | line text => exact keeps_handleLine h hcommand
  | endOfInput =>
    rw [command?_endOfInput] at hcommand
    exact (keeps_printLine h _).bind fun _ => keeps_handleLine h hcommand
  | interrupt =>
    refine keeps_get_bind fun s => ?_
    split
    · exact keeps_pure _
    · refine Keeps.bind ?_ fun _ => ?_
      · exact keeps_modify fun s hs => h s s.world true hs
      · exact (keeps_printLine h _).bind fun _ => keeps_pure _

/-- Every input keeps what says nothing about the world, the files and the tome that is remembered. -/
theorem keeps_handleInput (h : Unworldly inv) (hremember : ∀ s path, inv s → inv (remembering s path))
    (hfiles : Fileless inv) (input : Input) : Keeps inv (handleInput input : Deed σ Bool) := by
  refine keeps_handleInput_of_runWords h fun words _ => ?_
  unfold runWords
  split
  · exact keeps_throw _
  · exact (keeps_saveCommand h hremember hfiles _).bind fun _ => keeps_pure _
  · exact (keeps_loadCommand h hremember _).bind fun _ => keeps_pure _
  · exact (keeps_exitCommand h hremember hfiles _).bind fun _ => keeps_pure _
  · exact keeps_throw _

/-- An input that neither saves nor loads nor leaves keeps what says nothing about the world. -/
theorem keeps_quietInput (h : Unworldly inv) {input : Input} (htomes : input.usesTomes = false)
    (hexit : input.exit? = none) : Keeps inv (handleInput input : Deed σ Bool) := by
  refine keeps_handleInput_of_runWords h fun words hwords => ?_
  simp only [Input.usesTomes, Input.exit?, hwords] at htomes hexit
  unfold runWords
  split
  · exact keeps_throw _
  · cases htomes
  · cases htomes
  · refine Keeps.bind ?_ fun _ => keeps_pure _
    unfold exitCommand
    rw [show exitWithoutSaving? _ = none from hexit]
    exact keeps_throw _
  · exact keeps_throw _

/-- A run keeps what all of its inputs keep. -/
theorem keeps_run (h : Unworldly inv) (prompt : String) {inputs : List Input}
    (hinputs : ∀ input ∈ inputs, Keeps inv (handleInput input : Deed σ Bool)) {s : Session σ}
    (hs : inv s) : inv (run prompt inputs s).2 := by
  induction inputs generalizing s with
  | nil => exact hs
  | cons input inputs ih =>
    have hfirst := hinputs input List.mem_cons_self _ (keeps_printed h hs prompt)
    rw [run_cons]
    cases hrun : (handleInput input : Deed σ Bool) (s.printed prompt) with
    | mk result s' =>
      rw [hrun] at hfirst
      match result with
      | .error e => exact hfirst
      | .ok false => exact hfirst
      | .ok true => exact ih (fun input hinput => hinputs input (List.mem_cons_of_mem _ hinput)) hfirst

/-! ## Exits -/

/-- What the exit command does once its arguments have been understood. -/
def leave (nosave : Bool) : Deed σ Unit := do
  if !nosave then saveCommand []
  writeCache

omit [DiceSource σ] in
theorem leave_false : (leave false : Deed σ Unit) = saveCommand [] >>= fun _ => writeCache := rfl

omit [DiceSource σ] in
theorem exitCommand_eq {args : List String} {nosave : Bool}
    (h : exitWithoutSaving? args = some nosave) : (exitCommand args : Deed σ Unit) = leave nosave := by
  unfold exitCommand
  rw [h]
  rfl

/-- The session in which an input is taken: the end of the input ends the line of the prompt. -/
def facing (s : Session σ) (input : Input) : Session σ :=
  match input with
  | .endOfInput => ((s.printed "").printed "\n").uninterrupted
  | _ => s.uninterrupted

omit [DiceSource σ] in
theorem facing_eq (s : Session σ) (input : Input) :
    ∃ world, s.facing input = { s with world, interrupted := false } := by
  cases input <;> exact ⟨_, rfl⟩

theorem run_exitLine {line : String} {nosave : Bool} (h : (Input.line line).exit? = some nosave)
    (s : Session σ) :
    (handleLine line : Deed σ Bool) s =
      match (leave nosave : Deed σ Unit) s.uninterrupted with
      | (.ok _, s) => (.ok false, s)
      | (.error e, s) =>
        if e.isReported then (.ok true, (s.printed e.message).printed "\n")
        else (.error e, s) := by
  obtain ⟨cs, args, hline, hwords, hargs⟩ : ∃ cs args, Text.trim line.toList = '.' :: cs ∧
      Text.splitWords cs = .ok ("exit" :: args) ∧ exitWithoutSaving? args = some nosave := by
    unfold Input.exit? at h
    split at h
    · rename_i args hcommand
      obtain ⟨cs, hline, hwords⟩ := command?_line_eq_some_iff.mp hcommand
      exact ⟨cs, args, hline, hwords, h⟩
    · cases h
  have hdispatch : (dispatch line : Deed σ Bool) s.uninterrupted =
      match (leave nosave : Deed σ Unit) s.uninterrupted with
      | (.ok _, s) => (.ok false, s)
      | (.error e, s) => (.error e, s) := by
    rw [dispatch_command hline, run_runCommand, hwords]
    change (exitCommand args >>= fun _ => pure false : Deed σ Bool) s.uninterrupted = _
    rw [exitCommand_eq hargs, run_bind]
    cases (leave nosave : Deed σ Unit) s.uninterrupted with
    | mk result s' => cases result <;> rfl
  rw [run_handleLine, hline, hdispatch]
  cases (leave nosave : Deed σ Unit) s.uninterrupted with
  | mk result s' => cases result <;> rfl

/-- An exit command leaves the session, unless something fails. -/
theorem run_exitInput {input : Input} {nosave : Bool} (h : input.exit? = some nosave)
    (s : Session σ) :
    (handleInput input : Deed σ Bool) s =
      match (leave nosave : Deed σ Unit) (s.facing input) with
      | (.ok _, s) => (.ok false, s)
      | (.error e, s) =>
        if e.isReported then (.ok true, (s.printed e.message).printed "\n")
        else (.error e, s) := by
  cases input with
  | line line => exact run_exitLine h s
  | endOfInput =>
    have hline : (Input.line ".exit").exit? = some nosave := by
      rwa [Input.exit?, ← command?_endOfInput, ← Input.exit?]
    rw [handleInput, run_bind, run_printLine]
    exact run_exitLine hline _
  | interrupt => cases h

end DiceTome.Session
