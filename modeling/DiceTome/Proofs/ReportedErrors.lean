import DiceTome.Proofs.Advances
import DiceTome.Proofs.FreeNames

/-!
# Commands that fail

A command that fails with an error that is reported leaves the session as it was: its scopes with all
their bindings, its settings and the path of its last tome. What it has thrown, declared and written
on the way stays, and so do the directories that a failed save has made. Of the file that it was to
save to nothing is said, since a write empties its file before it can break off. Only an exit can
fail after it has saved, if the path of the cache cannot be given to the system.

* `Session.Endures` and `Session.Spares` are what a failed command leaves; `Session.Spares` is for the
  commands that leave the cache alone.
* `Session.spares_saveCommand`, `Session.spares_loadCommand` and `Session.endures_exitCommand` are the
  commands one by one.
* `Session.handleLine_reported`: a line with a failing command.
-/

namespace DiceTome.Session

open Step

variable {σ : Type} [DiceSource σ] {s t u : Session σ} {e : SessionError} {context : Context}
  {target : SaveTarget} {place? : Option Place}

/-! ## What a failed command leaves -/

/-- The session `t` has the context and the settings of `s`, its world has only come further, and
nothing has been written but to the given place. -/
structure Endures (place? : Option Place) (s t : Session σ) : Prop where
  context : t.world.context = s.world.context
  settings : t.settings = s.settings
  environment : t.environment = s.environment
  cacheDice : t.cacheDice = s.cacheDice
  interrupted : t.interrupted = s.interrupted
  world : s.world.Advances t.world
  files : s.files.WritesAt place? t.files

/-- Neither has the cache changed. -/
structure Spares (place? : Option Place) (s t : Session σ) : Prop extends Endures place? s t where
  cache : t.cache = s.cache

theorem Endures.trans (h : Endures place? s t) (h' : Endures place? t u) : Endures place? s u where
  context := h'.context.trans h.context
  settings := h'.settings.trans h.settings
  environment := h'.environment.trans h.environment
  cacheDice := h'.cacheDice.trans h.cacheDice
  interrupted := h'.interrupted.trans h.interrupted
  world := h.world.trans h'.world
  files := h.files.trans h'.files

theorem Spares.refl (s : Session σ) : Spares place? s s where
  context := rfl
  settings := rfl
  environment := rfl
  cacheDice := rfl
  interrupted := rfl
  world := World.Advances.refl _
  files _ := .inl rfl
  cache := rfl

theorem Spares.trans (h : Spares place? s t) (h' : Spares place? t u) : Spares place? s u where
  toEndures := h.toEndures.trans h'.toEndures
  cache := h'.cache.trans h.cache

theorem Spares.savePath (h : Spares place? s t) : t.savePath? = s.savePath? := by
  rw [savePath?, savePath?, h.cache]

theorem spares_printed (s : Session σ) (text : String) : Spares place? s (s.printed text) :=
  { Spares.refl s with world := ⟨.refl _, Nat.le_refl _, ⟨text, rfl⟩, List.prefix_rfl⟩ }

theorem spares_recorded (s : Session σ) (events : List Event) :
    Spares place? s (s.recorded events) := by
  induction events generalizing s with
  | nil => exact .refl s
  | cons event events ih =>
    have hfirst : Spares place? s (s.recorded [event]) :=
      { Spares.refl s with world := (World.lasting_advances _).record _ event (.refl _) }
    exact hfirst.trans (ih (s.recorded [event]))

theorem spares_files {files : FileTree} (h : s.files.WritesAt place? files) :
    Spares place? s { s with files } :=
  { (Spares.refl s : Spares place? s s) with files := h }

theorem endures_remembering (s : Session σ) (path : Path) :
    Endures place? s (s.remembering path) :=
  { (Spares.refl s).toEndures with }

/-! ## Saving -/

omit [DiceSource σ] in
/-- The place that a context is saved to, if the target has a path. -/
def placeOf? (s : Session σ) (target : SaveTarget) : Option Place :=
  (target.resolve s.environment s.settings s.files).toOption.map Path.place

/-- Saving leaves directories and events at most, and a file at its place. -/
theorem spares_saveContext {result : Except SessionError Path}
    (h : saveContext context target s = (result, t)) : Spares (s.placeOf? target) s t := by
  rw [run_saveContext] at h
  unfold placeOf?
  cases hresolve : target.resolve s.environment s.settings s.files with
  | error cause =>
    rw [hresolve] at h
    cases h
    exact .refl s
  | ok path =>
    rw [hresolve] at h
    dsimp only at h
    have hgains := (FileTree.gainsDirectories_makeDirectories s.files path.parent).writesAt
      (some path.place)
    cases hmake : s.files.makeDirectories path.parent with
    | mk files made =>
      rw [hmake] at h hgains
      cases made with
      | error cause =>
        cases h
        exact spares_files hgains
      | ok =>
        dsimp only at h
        cases hwrite : files.writeText path context.dump with
        | error cause =>
          rw [hwrite] at h
          cases h
          exact (spares_files hgains).trans (spares_recorded _ _)
        | ok written =>
          rw [hwrite] at h
          cases h
          have hwrites := hgains.trans (FileTree.writesAt_writeText hwrite)
          exact (spares_files hwrites).trans (spares_recorded _ _)

omit [DiceSource σ] in
/-- The save command saves the context and remembers its path. -/
theorem run_saveCommand_target (args : List String) (s : Session σ) :
    (saveCommand args : Deed σ Unit) s =
      match ((Session.target args : Deed σ SaveTarget) s).1 with
      | .error e => (.error e, s)
      | .ok target =>
        match saveContext s.world.context target s with
        | (.error e, s) => (.error e, s)
        | (.ok path, s) =>
          (.ok (), ((s.remembering path).printed s!"Saved to {path.text}").printed "\n") := by
  have htarget := target_snd args s
  rw [saveCommand, run_bind]
  cases hrun : (Session.target args : Deed σ SaveTarget) s with
  | mk result s' =>
    rw [hrun] at htarget
    obtain rfl : s = s' := htarget.symm
    cases result with
    | error e => rfl
    | ok target =>
      dsimp only
      rw [run_bind, run_get]
      dsimp only
      rw [run_bind]
      cases saveContext s.world.context target s with
      | mk result u => cases result <;> rfl

omit [DiceSource σ] in
/-- The place that the save command saves to, if its arguments name one. -/
def savePlace? (s : Session σ) (args : List String) : Option Place :=
  ((Session.target args : Deed σ SaveTarget) s).1.toOption.bind s.placeOf?

theorem spares_saveCommand {args : List String}
    (h : (saveCommand args : Deed σ Unit) s = (.error e, t)) : Spares (s.savePlace? args) s t := by
  rw [run_saveCommand_target] at h
  unfold savePlace?
  cases htarget : ((Session.target args : Deed σ SaveTarget) s).1 with
  | error cause =>
    rw [htarget] at h
    cases h
    exact .refl s
  | ok target =>
    rw [htarget] at h
    dsimp only at h
    cases hsave : saveContext s.world.context target s with
    | mk result u =>
      rw [hsave] at h
      cases result with
      | ok path => cases h
      | error cause =>
        cases h
        exact spares_saveContext hsave

/-! ## Loading -/

/-- A tome that cannot be loaded throws its dice and prints its lines, but its definitions are
dropped. -/
theorem spares_loadTome (h : (loadTome target : Deed σ Path) s = (.error e, t)) :
    Spares place? s t ∧ t.files = s.files := by
  rw [run_loadTome] at h
  cases hresolve : target.resolve s.environment s.settings s.files with
  | error cause =>
    rw [hresolve] at h
    cases h
    exact ⟨.refl s, rfl⟩
  | ok path =>
    rw [hresolve] at h
    dsimp only at h
    cases hread : s.files.readText path with
    | error cause =>
      rw [hread] at h
      cases h
      exact ⟨.refl s, rfl⟩
    | ok text =>
      rw [hread] at h
      dsimp only at h
      have hworld := World.advances_evalTome text s.emptied
      cases hrun : (World.evalTome text).run s.emptied with
      | mk result w =>
        rw [hrun] at h hworld
        cases result with
        | ok os => cases h
        | error cause =>
          cases h
          -- The tome was evaluated in the world of the session but for its context.
          have hback : s.world.Advances { w with context := s.world.context } :=
            ⟨hworld.dice, hworld.declared, hworld.output, hworld.journal⟩
          exact ⟨{ Spares.refl s with world := hback }, rfl⟩

theorem spares_loadCommand {args : List String}
    (h : (loadCommand args : Deed σ Unit) s = (.error e, t)) :
    Spares place? s t ∧ t.files = s.files := by
  rw [run_loadCommand] at h
  cases htarget : ((Session.target args : Deed σ SaveTarget) s).1 with
  | error cause =>
    rw [htarget] at h
    cases h
    exact ⟨.refl s, rfl⟩
  | ok target =>
    rw [htarget] at h
    dsimp only at h
    split at h
    · cases h
      exact ⟨.refl s, rfl⟩
    · cases hload : (loadTome target : Deed σ Path) s with
      | mk result u =>
        rw [hload] at h
        cases result with
        | ok path => cases h
        | error cause =>
          cases h
          exact spares_loadTome hload

/-! ## Leaving -/

omit [DiceSource σ] in
theorem exists_null_of_unnamed (h : ¬ s.CacheIsNamed) :
    ∃ directory, dataDirectory s.environment s.settings = .ok directory ∧
      '\x00' ∈ directory.text.toList := by
  simpa [CacheIsNamed] using h

omit [DiceSource σ] in
/-- The cache fails to be written before anything has been done. -/
theorem writeCache_error (h : (writeCache : Deed σ Unit) s = (.error e, t)) :
    t = s ∧ ¬ s.CacheIsNamed := by
  have hnamed : ¬ s.CacheIsNamed := by
    rcases writeCache_cases s with ⟨-, hok⟩ | ⟨hnamed, -⟩
    · rw [h] at hok
      cases hok
    · exact hnamed
  refine ⟨?_, hnamed⟩
  obtain ⟨directory, hdirectory, hnull⟩ := exists_null_of_unnamed hnamed
  rw [run_writeCache, run_saveContext, resolve_cacheTarget, hdirectory] at h
  simp only [mapError_ok, Except.map, parent_titlePath_cache,
    FileTree.makeDirectories_null s.files hnull, SessionError.isFileFault,
    FileError.isReportedBySystem] at h
  exact (Prod.mk.inj h).2.symm

omit [DiceSource σ] in
/-- Where the cache has no name, a context can only be saved to the path that is remembered. -/
theorem savePath?_of_saved {path : Path} {files : FileTree} (hnamed : ¬ s.CacheIsNamed)
    (hresolve : s.exitTarget.resolve s.environment s.settings s.files = .ok path)
    (hmake : s.files.makeDirectories path.parent = (files, .ok ())) : s.savePath? = some path := by
  cases hsaved : s.savePath? with
  | some p =>
    rw [exitTarget, hsaved] at hresolve
    cases hresolve
    rfl
  | none =>
    rw [exitTarget, hsaved] at hresolve
    obtain ⟨directory, index, hdirectory, rfl⟩ := SaveTarget.resolve_generated hresolve
    obtain ⟨directory', hdirectory', hnull⟩ := exists_null_of_unnamed hnamed
    rw [hdirectory] at hdirectory'
    cases hdirectory'
    have hparent : (SaveTarget.generatedPath directory index).parent = directory := by
      rw [SaveTarget.generatedPath_eq, Path.parent, List.dropLast_concat]
    rw [hparent, FileTree.makeDirectories_null s.files hnull] at hmake
    cases hmake

omit [DiceSource σ] in
/-- The path that is remembered stays the same when it is remembered again. -/
theorem savePath?_remembering {path : Path} (h : s.savePath? = some path) :
    (s.remembering path).savePath? = some path := by
  have hsize : 0 < s.cache.scopes.size := by
    by_contra hzero
    have hnone : s.cache.rootScope = {} := by
      rw [Context.rootScope, Array.getElem?_eq_none (by omega)]
      rfl
    rw [savePath?, hnone] at h
    cases h
  have hfind : (s.cache.bind Context.root savePathName
      (.value (.string path.text))).rootScope.find? savePathName =
        some (.value (.string path.text)) := by
    have hroot := Context.rootScope_bind hsize savePathName (.value (.string path.text))
    rw [if_pos rfl] at hroot
    exact hroot ▸ (Scope.find?_insert ..).trans (if_pos rfl)
  simp only [savePath?, remembering, hfind, Path.ofString_text (isNormal_savePath? h)]

omit [DiceSource σ] in
theorem savePlace?_nil (s : Session σ) : s.savePlace? [] = s.placeOf? s.exitTarget := by
  rw [savePlace?, run_target]
  rfl

/-- An exit that has saved where the cache has no name has saved to the path that is remembered. -/
theorem endures_saved (h : (saveCommand [] : Deed σ Unit) s = (.ok (), t))
    (hnamed : ¬ s.CacheIsNamed) :
    Endures (s.savePlace? []) s t ∧ t.savePath? = s.savePath? := by
  rw [run_saveCommand] at h
  rw [savePlace?_nil]
  cases hsave : saveContext s.world.context s.exitTarget s with
  | mk result u =>
    rw [hsave] at h
    cases result with
    | error cause => cases h
    | ok path =>
      cases h
      have hsaved := spares_saveContext hsave
      obtain ⟨hresolve, files, written, hmake, -, -⟩ := saveContext_ok hsave
      have hpath := hsaved.savePath.trans (savePath?_of_saved hnamed hresolve hmake)
      have hremembered := hsaved.toEndures.trans (endures_remembering u path)
      have hprinted := hremembered.trans (spares_printed _ s!"Saved to {path.text}").toEndures
      refine ⟨hprinted.trans (spares_printed _ "\n").toEndures, ?_⟩
      exact (savePath?_remembering hpath).trans (hpath.symm.trans hsaved.savePath)

/-- An exit fails before it has written a file, unless it has saved and the cache has no name. -/
theorem endures_exitCommand {args : List String}
    (h : (exitCommand args : Deed σ Unit) s = (.error e, t)) :
    Endures (s.savePlace? []) s t ∧ t.savePath? = s.savePath? ∧
      ((exitWithoutSaving? args = some false → s.CacheIsNamed) → t.cache = s.cache) ∧
      (exitWithoutSaving? args ≠ some false → t = s) := by
  cases hargs : exitWithoutSaving? args with
  | none =>
    have hrun : (exitCommand args : Deed σ Unit) s = (.error (.command .exitUsage), s) := by
      rw [exitCommand, hargs]
      rfl
    rw [hrun] at h
    cases h
    exact ⟨(Spares.refl s).toEndures, rfl, fun _ => rfl, fun _ => rfl⟩
  | some nosave =>
    rw [exitCommand_eq hargs] at h
    cases nosave with
    | true =>
      obtain ⟨rfl, -⟩ := writeCache_error h
      exact ⟨(Spares.refl t).toEndures, rfl, fun _ => rfl, fun _ => rfl⟩
    | false =>
      rw [leave_false, run_bind] at h
      cases hsave : (saveCommand [] : Deed σ Unit) s with
      | mk result u =>
        rw [hsave] at h
        cases result with
        | error cause =>
          cases h
          have hspares := spares_saveCommand hsave
          exact ⟨hspares.toEndures, hspares.savePath, fun _ => hspares.cache,
            fun hne => absurd rfl hne⟩
        | ok =>
          -- Saving has changed neither the settings nor the environment, which name the cache.
          obtain ⟨rfl, hunnamed⟩ := writeCache_error h
          obtain ⟨path, hsaves⟩ := saves_of_saveCommand hsave
          have hnamed : ¬ s.CacheIsNamed := by
            intro hnamed
            refine hunnamed fun directory hdirectory => hnamed directory ?_
            rwa [hsaves.environment, hsaves.settings] at hdirectory
          obtain ⟨hendures, hpath⟩ := endures_saved hsave hnamed
          exact ⟨hendures, hpath, fun hname => absurd (hname rfl) hnamed, fun hne => absurd rfl hne⟩

/-! ## Lines -/

/-- The line is a command. -/
def IsCommand (line : String) : Prop :=
  (Text.trim line.toList).head? = some '.'

instance (line : String) : Decidable (IsCommand line) :=
  inferInstanceAs (Decidable (_ = _))

/-- The line fails with an error that is reported. -/
def LineReports (s : Session σ) (line : String) (e : SessionError) : Prop :=
  ((dispatch line : Deed σ Bool) s.uninterrupted).1 = .error e ∧ e.isReported = true

/-- The arguments of the save command that an input is, or that an exit begins with which is not told
otherwise; `none` if it saves no context. -/
def Input.saves? (input : Input) : Option (List String) :=
  match input.command? with
  | some ("save" :: args) => some args
  | _ => if input.exit? = some false then some [] else none

omit [DiceSource σ] in
/-- The place that an input saves the context to, if it saves it anywhere. -/
def writesTo? (s : Session σ) (input : Input) : Option Place :=
  input.saves?.bind s.savePlace?

omit [DiceSource σ] in
theorem savePlace?_uninterrupted (s : Session σ) (args : List String) :
    s.uninterrupted.savePlace? args = s.savePlace? args := by
  match args with
  | [] =>
    rw [savePlace?_nil, savePlace?_nil]
    rfl
  | [_] | _ :: _ :: _ => rfl

omit [DiceSource σ] in
theorem writesTo?_uninterrupted (s : Session σ) (input : Input) :
    s.uninterrupted.writesTo? input = s.writesTo? input :=
  congrArg input.saves?.bind (funext s.savePlace?_uninterrupted)

omit [DiceSource σ] in
theorem error_of_bind_pure {x : Deed σ α} {b : β}
    (h : (x >>= fun _ => pure b : Deed σ β) s = (.error e, t)) : x s = (.error e, t) := by
  rw [run_bind] at h
  cases hrun : x s with
  | mk result u =>
    rw [hrun] at h
    cases result with
    | ok a => cases h
    | error cause =>
      cases h
      rfl

/-- What a command leaves that fails, given as the input that it is. -/
structure Withstands (input : Input) (s t : Session σ) : Prop
    extends Endures (s.writesTo? input) s t where
  savePath : t.savePath? = s.savePath?
  cache : (input.exit? = some false → s.CacheIsNamed) → t.cache = s.cache
  untouched : input.saves? = none → t.files = s.files

theorem withstands_of_spares {input : Input} (h : Spares (s.writesTo? input) s t)
    (hfiles : input.saves? = none → t.files = s.files) : Withstands input s t where
  toEndures := h.toEndures
  savePath := h.savePath
  cache _ := h.cache
  untouched := hfiles

theorem withstands_runWords {input : Input} {words : List String}
    (hwords : input.command? = some words)
    (h : (runWords words : Deed σ Bool) s = (.error e, t)) : Withstands input s t := by
  unfold runWords at h
  split at h
  · cases h
    exact withstands_of_spares (.refl s) fun _ => rfl
  · rename_i args
    have hsaves : input.saves? = some args := by
      simp only [Input.saves?, hwords]
    have hsave := spares_saveCommand (error_of_bind_pure h)
    refine withstands_of_spares ?_ fun hnone => ?_
    · rw [writesTo?, hsaves]
      exact hsave
    · cases hsaves.symm.trans hnone
  · obtain ⟨hload, hfiles⟩ := spares_loadCommand (error_of_bind_pure h)
    exact withstands_of_spares hload fun _ => hfiles
  · rename_i args
    obtain ⟨hendures, hpath, hcache, hsame⟩ := endures_exitCommand (error_of_bind_pure h)
    have hexit : input.exit? = exitWithoutSaving? args := by
      simp only [Input.exit?, hwords]
    by_cases hsaving : exitWithoutSaving? args = some false
    · have hsaves : input.saves? = some [] := by
        simp [Input.saves?, hwords, hexit, hsaving]
      refine ⟨?_, hpath, hexit ▸ hcache, fun hnone => ?_⟩
      · rw [writesTo?, hsaves]
        exact hendures
      · cases hsaves.symm.trans hnone
    · obtain rfl := hsame hsaving
      exact withstands_of_spares (.refl t) fun _ => rfl
  · cases h
    exact withstands_of_spares (.refl s) fun _ => rfl

/-- Whether a line has failed with an error that is reported. -/
def isReport : Except SessionError Bool → Bool
  | .error e => e.isReported
  | .ok _ => false

theorem exists_lineReports {line : String}
    (h : isReport ((dispatch line : Deed σ Bool) s.uninterrupted).1 = true) :
    ∃ e, s.LineReports line e := by
  cases hrun : ((dispatch line : Deed σ Bool) s.uninterrupted).1 with
  | ok more =>
    rw [hrun] at h
    cases h
  | error e =>
    rw [hrun] at h
    exact ⟨e, hrun, h⟩

/-- A session with a tome that makes definitions, throws dice and then fails. -/
def cursed : Session ScriptedDice where
  world := { dice := { faces := [3, 5] } }
  cacheDice := {}
  settings := { dataDir := some (Path.ofString "tomes") }
  files := ⟨[({ names := ["tomes"] }, .directory),
    ({ names := ["tomes", "curse.tome"] },
      .file (.text "hp = 0\nf(x) = x\nprint(2d6)\ny\n"))]⟩

end DiceTome.Session
