import DiceTome.Dice.Scripted
import DiceTome.Proofs.Steps
import DiceTome.Session

/-!
# Leaving a session at the end of its input

The end of the input stands for the exit command, which saves first. If saving fails, the error is
reported and the session goes on, although there is nothing left to read: the next end of the input
is met with the same command.

* `Session.CanLeave` is what the exit command needs: a path for the definitions that can be written,
  and no null character in the path of the cache.
* `Session.run_endOfInput` says that the session ends at the end of its input exactly if it has
  ended before or can be left.
* `Session.run_stuck` says that a session which fails to save without touching a file never ends.
-/

namespace DiceTome

/-! ## Null characters in paths -/

namespace Path

theorem mem_intercalate_slash {c : Char} (hc : c ≠ '/') (parts : List String) :
    c ∈ ("/".intercalate parts).toList ↔ ∃ part ∈ parts, c ∈ part.toList := by
  rw [String.toList_intercalate]
  induction parts with
  | nil => simp
  | cons part parts ih =>
    cases parts with
    | nil => simp
    | cons next parts =>
      rw [List.map_cons, List.map_cons, List.intercalate_cons_cons, List.mem_append,
        List.mem_append, ← List.map_cons, ih]
      simp [hc]

/-- The null characters of a path are in its root or in its names. -/
theorem null_mem_text (p : Path) :
    '\x00' ∈ p.text.toList ↔ '\x00' ∈ p.root.toList ∨ ∃ part ∈ p.parts, '\x00' ∈ part.toList := by
  unfold text
  split
  · rename_i h
    simp [h]
  · rw [String.toList_append, List.mem_append, mem_intercalate_slash (by decide)]

theorem null_mem_of_parent {p : Path} (h : '\x00' ∈ p.parent.text.toList) :
    '\x00' ∈ p.text.toList := by
  rw [null_mem_text] at h ⊢
  refine h.imp_right ?_
  rintro ⟨part, hpart, hnull⟩
  exact ⟨part, (List.dropLast_sublist _).subset hpart, hnull⟩

end Path

namespace FileTree

variable {t : FileTree} {path : Path}

/-- A failure is one that the system reports. -/
def FromSystem (x : Except FileError α) : Prop :=
  ∀ e, x = .error e → e.isReportedBySystem = true

theorem fromSystem_ok (a : α) : FromSystem (.ok a) :=
  nofun

theorem fromSystem_error {e : FileError} (h : e.isReportedBySystem = true) :
    FromSystem (.error e : Except FileError α) := by
  rintro _ ⟨⟩
  exact h

theorem FromSystem.bind {x : Except FileError α} {f : α → Except FileError β} (hx : FromSystem x)
    (hf : ∀ a, FromSystem (f a)) : FromSystem (x >>= f) := by
  cases x with
  | error e =>
    rintro _ ⟨⟩
    exact hx e rfl
  | ok a => exact hf a

theorem fromSystem_requireDirectory (t : FileTree) (path : Path) (p : Place) :
    FromSystem (t.requireDirectory path p) := by
  unfold requireDirectory
  split
  · exact fromSystem_ok ()
  · exact fromSystem_error rfl
  · exact fromSystem_error rfl

theorem fromSystem_locateFrom (t : FileTree) (path : Path) (here : Place) (names : List String) :
    FromSystem (t.locateFrom path here names) := by
  induction names generalizing here with
  | nil => exact fromSystem_ok here
  | cons name rest ih =>
    rw [locateFrom]
    refine (fromSystem_requireDirectory t path here).bind fun _ => ?_
    split
    · exact fromSystem_error rfl
    · exact ih _

/-- A path without a null character is followed unless it is too long. -/
theorem locate_of_not_null (t : FileTree) (h : '\x00' ∉ path.text.toList) :
    t.locate path =
      if maxPathBytes < path.text.utf8ByteSize then .error (.nameTooLong path)
      else t.locateFrom path (Place.origin path) path.parts := by
  have hcontains : ¬ path.text.toList.contains '\x00' = true := fun hc =>
    h (List.contains_iff_mem.mp hc)
  rw [locate, if_neg hcontains]
  rfl

/-- Only a null character makes a path useless for the system. -/
theorem fromSystem_locate (t : FileTree) (h : '\x00' ∉ path.text.toList) :
    FromSystem (t.locate path) := by
  rw [locate_of_not_null t h]
  split
  · exact fromSystem_error rfl
  · exact fromSystem_locateFrom _ _ _ _

theorem locate_null (t : FileTree) (h : '\x00' ∈ path.text.toList) :
    t.locate path = .error .embeddedNull := by
  have hcontains : path.text.toList.contains '\x00' = true := List.contains_iff_mem.mpr h
  rw [locate, if_pos hcontains]
  rfl

theorem fromSystem_writeText (t : FileTree) (h : '\x00' ∉ path.text.toList) (s : String) :
    FromSystem (t.writeText path s) := by
  unfold writeText
  refine (fromSystem_locate t h).bind fun p => ?_
  split
  · exact fromSystem_error rfl
  · exact fromSystem_ok _

theorem fromSystem_makeDirectory (t : FileTree) (h : '\x00' ∉ path.text.toList) :
    FromSystem (t.makeDirectory path) := by
  unfold makeDirectory
  refine (fromSystem_locate t h).bind fun p => ?_
  split
  · exact fromSystem_error rfl
  · exact fromSystem_ok _

theorem fromSystem_ensureDirectory (t : FileTree) (h : '\x00' ∉ path.text.toList) :
    FromSystem (t.ensureDirectory path) := by
  unfold ensureDirectory
  split
  · exact fromSystem_error rfl
  · rename_i e _ he
    split
    · exact fromSystem_ok t
    · exact fromSystem_error (fromSystem_makeDirectory t h e he)
  · exact fromSystem_ok _

theorem fromSystem_settle (t : FileTree) {x : Except FileError FileTree} (h : FromSystem x) :
    FromSystem (t.settle x).2 := by
  cases x with
  | ok t => exact fromSystem_ok ()
  | error e => exact fromSystem_error (h e rfl)

theorem fromSystem_makeDirectories (t : FileTree) (h : '\x00' ∉ path.text.toList) :
    FromSystem (t.makeDirectories path).2 := by
  unfold makeDirectories
  generalize path.parts.length = depth
  induction depth generalizing path with
  | zero => exact fromSystem_settle t (fromSystem_ensureDirectory t h)
  | succ depth ih =>
    have hparent := ih fun hnull => h (Path.null_mem_of_parent hnull)
    rw [makeDirectoriesTo]
    split
    · split
      · exact fromSystem_error rfl
      · split
        · exact fromSystem_settle _ (fromSystem_ensureDirectory _ h)
        · exact hparent
    · exact fromSystem_settle t (fromSystem_ensureDirectory t h)

theorem ensureDirectory_null (t : FileTree) (h : '\x00' ∈ path.text.toList) :
    t.ensureDirectory path = .error .embeddedNull := by
  have hmake : t.makeDirectory path = .error .embeddedNull := by
    rw [makeDirectory, locate_null t h]
    rfl
  have hdirectory : t.isDirectory path = false := by
    rw [isDirectory, find?, locate_null t h]
    rfl
  rw [ensureDirectory, hmake]
  simp [hdirectory]

theorem makeDirectories_null (t : FileTree) (h : '\x00' ∈ path.text.toList) :
    t.makeDirectories path = (t, .error .embeddedNull) := by
  unfold makeDirectories
  cases path.parts.length with
  | zero => rw [makeDirectoriesTo, ensureDirectory_null t h]; rfl
  | succ depth => rw [makeDirectoriesTo, ensureDirectory_null t h]; rfl

end FileTree

namespace Session

open Step

variable {σ : Type}

/-! ## Deeds -/

theorem run_tryCatch (x : Deed σ α) (handle : SessionError → Deed σ α) (s : Session σ) :
    (tryCatch x handle) s =
      match x s with
      | (.ok a, s) => (.ok a, s)
      | (.error e, s) => handle e s := by
  simp only [tryCatch, tryCatchThe, MonadExceptOf.tryCatch, ExceptT.tryCatch, ExceptT.mk, bind,
    StateT.bind]
  cases x s with
  | mk result s => cases result <;> rfl

theorem run_get (s : Session σ) : (get : Deed σ (Session σ)) s = (.ok s, s) := rfl

theorem run_modify (change : Session σ → Session σ) (s : Session σ) :
    (modify change : Deed σ Unit) s = (.ok (), change s) := rfl

theorem run_pure (a : α) (s : Session σ) : (pure a : Deed σ α) s = (.ok a, s) := rfl

theorem mapError_ok (wrap : ε → ε') (a : α) : (Except.ok a).mapError wrap = .ok a := rfl

theorem run_check (wrap : ε → SessionError) (answer : Except ε α) (s : Session σ) :
    (check wrap answer : Deed σ α) s = (answer.mapError wrap, s) := rfl

/-- The session with more in its output. -/
def printed (s : Session σ) (text : String) : Session σ :=
  { s with world.output := s.world.output ++ text }

theorem run_printLine (line : String) (s : Session σ) :
    (printLine line : Deed σ Unit) s = (.ok (), (s.printed line).printed "\n") := rfl

/-- The session with more in its journal. -/
def recorded (s : Session σ) (events : List Event) : Session σ :=
  { s with world.journal := events.foldl Array.push s.world.journal }

theorem run_record (e : Event) (s : Session σ) :
    (record e : Deed σ Unit) s = (.ok (), s.recorded [e]) := rfl

theorem run_forM_record (events : List Event) (s : Session σ) :
    (events.forM record : Deed σ Unit) s = (.ok (), s.recorded events) := by
  induction events generalizing s with
  | nil => rfl
  | cons e events ih =>
    change (record e >>= fun _ => events.forM record : Deed σ Unit) s = _
    rw [run_bind, run_record]
    exact ih _

/-! ## Saving -/

/-- Saving makes the directories and then writes the file. -/
theorem run_saveContext (context : Context) (target : SaveTarget) (s : Session σ) :
    saveContext context target s =
      match target.resolve s.environment s.settings s.files with
      | .error e => (.error (.ofTarget e), s)
      | .ok path =>
        match s.files.makeDirectories path.parent with
        | (files, .error e) => (.error (.file e), { s with files })
        | (files, .ok ()) =>
          match files.writeText path context.dump with
          | .error e => (.error (.file e), recorded { s with files } context.dumpEvents)
          | .ok written =>
            (.ok path,
              recorded { s with files := written } (context.dumpEvents ++ [.saved path.text])) := by
  simp only [saveContext, resolve, run_bind, run_get, run_check]
  cases target.resolve s.environment s.settings s.files with
  | error e => rfl
  | ok path =>
    simp only [mapError_ok]
    cases s.files.makeDirectories path.parent with
    | mk files made =>
      cases made with
      | error e => rfl
      | ok =>
        simp only [mapError_ok, run_modify, run_forM_record]
        have hfiles : (recorded { s with files } context.dumpEvents).files = files := rfl
        rw [hfiles]
        cases files.writeText path context.dump with
        | error e => rfl
        | ok written => simp only [mapError_ok, run_record, run_pure, recorded, List.foldl_append]

/-- The target of the exit command. -/
def exitTarget (s : Session σ) : SaveTarget :=
  match s.savePath? with
  | some path => .path path
  | none => .generated

theorem run_target (s : Session σ) : (target [] : Deed σ SaveTarget) s = (.ok s.exitTarget, s) := by
  simp only [target, run_bind, run_get, exitTarget]
  cases s.savePath? <;> rfl

/-- The session with the path of its last tome in the cache. -/
def remembering (s : Session σ) (path : Path) : Session σ :=
  { s with cache := s.cache.bind Context.root savePathName (.value (.string path.text)) }

theorem run_saveCommand (s : Session σ) :
    (saveCommand [] : Deed σ Unit) s =
      match saveContext s.world.context s.exitTarget s with
      | (.ok path, s) =>
        (.ok (), ((s.remembering path).printed s!"Saved to {path.text}").printed "\n")
      | (.error e, s) => (.error e, s) := by
  simp only [saveCommand, run_bind, run_target, run_get]
  cases saveContext s.world.context s.exitTarget s with
  | mk result s => cases result <;> rfl

theorem run_writeCache (s : Session σ) :
    (writeCache : Deed σ Unit) s =
      match saveContext s.cache cacheTarget s with
      | (.ok _, s) => (.ok (), s)
      | (.error e, s) =>
        if e.isFileFault then (.ok (), s.recorded [.unwritableCache e.message])
        else (.error e, s) := by
  simp only [writeCache, run_tryCatch, run_bind, run_get]
  cases saveContext s.cache cacheTarget s with
  | mk result s =>
    cases result with
    | ok path => rfl
    | error e =>
      dsimp only
      split <;> rfl

theorem run_exitCommand (s : Session σ) :
    (exitCommand [] : Deed σ Unit) s =
      match (saveCommand [] : Deed σ Unit) s with
      | (.ok _, s) => (writeCache : Deed σ Unit) s
      | (.error e, s) => (.error e, s) := by
  change (saveCommand [] >>= fun _ => writeCache : Deed σ Unit) s = _
  rw [run_bind]
  cases (saveCommand [] : Deed σ Unit) s with
  | mk result s => cases result <;> rfl

/-- The session that has forgotten about an interrupt. -/
def uninterrupted (s : Session σ) : Session σ :=
  { s with interrupted := false }

/-- The exit command as a line of the input. -/
theorem run_handleLine_exit [DiceSource σ] (s : Session σ) :
    (handleLine ".exit" : Deed σ Bool) s =
      match (exitCommand [] : Deed σ Unit) s.uninterrupted with
      | (.ok _, s) => (.ok false, s)
      | (.error e, s) =>
        if e.isReported then (.ok true, (s.printed e.message).printed "\n")
        else (.error e, s) := by
  have htrim : Text.trim ".exit".toList = ['.', 'e', 'x', 'i', 't'] := by decide
  have hwords : Text.splitWords ['e', 'x', 'i', 't'] = .ok ["exit"] := rfl
  have hempty : (['.', 'e', 'x', 'i', 't'] : List Char).isEmpty = false := rfl
  have hforget : (modify fun s => { s with interrupted := false } : Deed σ Unit) s =
      (.ok (), s.uninterrupted) := rfl
  simp only [handleLine, htrim, run_bind, hforget, hempty, Bool.false_eq_true, if_false,
    run_tryCatch, dispatch, runCommand, hwords, run_check, mapError_ok, run_pure]
  cases (exitCommand [] : Deed σ Unit) s.uninterrupted with
  | mk result s =>
    cases result with
    | ok => rfl
    | error e => cases hreported : e.isReported <;> simp only [hreported] <;> rfl

/-! ## When a session can be left -/

/-- The context can be written: the target has a path, its directory can be made, and then its
file. -/
def CanSave (s : Session σ) (context : Context) (target : SaveTarget) : Prop :=
  ∃ path written, target.resolve s.environment s.settings s.files = .ok path ∧
    (s.files.makeDirectories path.parent).2 = .ok () ∧
    (s.files.makeDirectories path.parent).1.writeText path context.dump = .ok written

/-- The path of the cache can be given to the system. A cache that cannot be written for another
reason is only recorded. -/
def CacheIsNamed (s : Session σ) : Prop :=
  ∀ directory, dataDirectory s.environment s.settings = .ok directory →
    '\x00' ∉ directory.text.toList

/-- What the exit command needs. -/
structure CanLeave (s : Session σ) : Prop where
  saves : s.CanSave s.world.context s.exitTarget
  cache : s.CacheIsNamed

variable {s : Session σ} {context : Context} {target : SaveTarget}

theorem canSave_iff {path : Path} {files : FileTree} {made : Except FileError Unit}
    (hresolve : target.resolve s.environment s.settings s.files = .ok path)
    (hmake : s.files.makeDirectories path.parent = (files, made)) :
    s.CanSave context target ↔
      made = .ok () ∧ ∃ written, files.writeText path context.dump = .ok written := by
  unfold CanSave
  constructor
  · rintro ⟨path', written, hpath, hmade, hwritten⟩
    rw [hresolve] at hpath
    cases hpath
    rw [hmake] at hmade hwritten
    exact ⟨hmade, written, hwritten⟩
  · rintro ⟨hmade, written, hwritten⟩
    refine ⟨path, written, hresolve, ?_, ?_⟩
    · rw [hmake]
      exact hmade
    · rw [hmake]
      exact hwritten

/-- Saving succeeds if the context can be written, and else fails with an error that is reported. -/
theorem saveContext_cases (context : Context) (target : SaveTarget) (s : Session σ) :
    (s.CanSave context target ∧ ∃ path, (saveContext context target s).1 = .ok path) ∨
    (¬ s.CanSave context target ∧ ∃ e : SessionError, e.isReported = true ∧
      (saveContext context target s).1 = .error e) := by
  rw [run_saveContext]
  cases hresolve : target.resolve s.environment s.settings s.files with
  | error e =>
    refine .inr ⟨?_, .ofTarget e, ?_, rfl⟩
    · rintro ⟨path, written, hpath, -⟩
      rw [hresolve] at hpath
      cases hpath
    · cases e <;> rfl
  | ok path =>
    dsimp only
    cases hmake : s.files.makeDirectories path.parent with
    | mk files made =>
      cases made with
      | error e =>
        refine .inr ⟨?_, .file e, rfl, rfl⟩
        rw [canSave_iff hresolve hmake]
        rintro ⟨⟨⟩, -⟩
      | ok =>
        dsimp only
        cases hwrite : files.writeText path context.dump with
        | error e =>
          refine .inr ⟨?_, .file e, rfl, rfl⟩
          rw [canSave_iff hresolve hmake, hwrite]
          rintro ⟨-, _, ⟨⟩⟩
        | ok written =>
          exact .inl ⟨(canSave_iff hresolve hmake).mpr ⟨rfl, written, hwrite⟩, path, rfl⟩

/-- Saving changes nothing but the files and the journal. -/
theorem saveContext_snd (context : Context) (target : SaveTarget) (s : Session σ) :
    ∃ files journal,
      (saveContext context target s).2 = { s with files, world.journal := journal } := by
  rw [run_saveContext]
  split
  · exact ⟨_, _, rfl⟩
  · split
    · exact ⟨_, _, rfl⟩
    · split <;> exact ⟨_, _, rfl⟩

theorem resolve_cacheTarget (s : Session σ) :
    cacheTarget.resolve s.environment s.settings s.files =
      ((dataDirectory s.environment s.settings).mapError TargetError.place).map
        fun directory => SaveTarget.titlePath directory "_cache" := by
  change (do
    let directory ← (dataDirectory s.environment s.settings).mapError TargetError.place
    return SaveTarget.titlePath directory "_cache") = _
  cases dataDirectory s.environment s.settings <;> rfl

theorem titlePath_cache (directory : Path) :
    SaveTarget.titlePath directory "_cache" =
      ⟨directory.root, directory.parts ++ ["_cache.tome"]⟩ := by
  have hname : Path.ofString ("_cache" ++ ".tome") = ⟨"", ["_cache.tome"]⟩ := by decide
  rw [SaveTarget.titlePath, Path.child, hname]
  rfl

theorem parent_titlePath_cache (directory : Path) :
    (SaveTarget.titlePath directory "_cache").parent = directory := by
  rw [titlePath_cache, Path.parent, List.dropLast_concat]

/-- Writing the cache fails only if its path cannot be given to the system. -/
theorem writeCache_cases (s : Session σ) :
    (s.CacheIsNamed ∧ ((writeCache : Deed σ Unit) s).1 = .ok ()) ∨
    (¬ s.CacheIsNamed ∧ ((writeCache : Deed σ Unit) s).1 = .error (.file .embeddedNull)) := by
  rw [run_writeCache, run_saveContext, resolve_cacheTarget]
  cases hdirectory : dataDirectory s.environment s.settings with
  | error e =>
    refine .inl ⟨?_, rfl⟩
    intro directory h
    rw [hdirectory] at h
    cases h
  | ok directory =>
    simp only [mapError_ok, Except.map, parent_titlePath_cache]
    by_cases hnull : '\x00' ∈ directory.text.toList
    · refine .inr ⟨fun h => h directory hdirectory hnull, ?_⟩
      rw [FileTree.makeDirectories_null s.files hnull]
      rfl
    · have hnamed : s.CacheIsNamed := by
        intro directory' h
        rw [hdirectory] at h
        cases h
        exact hnull
      have hpath : '\x00' ∉ (SaveTarget.titlePath directory "_cache").text.toList := by
        rw [Path.null_mem_text, not_or] at hnull ⊢
        rw [titlePath_cache]
        refine ⟨hnull.1, ?_⟩
        rintro ⟨part, hpart, hmem⟩
        rcases List.mem_append.mp hpart with hpart | hpart
        · exact hnull.2 ⟨part, hpart, hmem⟩
        · obtain rfl := List.mem_singleton.mp hpart
          exact absurd hmem (by decide)
      refine .inl ⟨hnamed, ?_⟩
      have hmake := FileTree.fromSystem_makeDirectories s.files hnull
      cases hfiles : s.files.makeDirectories directory with
      | mk files made =>
        rw [hfiles] at hmake
        cases made with
        | error e => simp only [SessionError.isFileFault, hmake e rfl, if_true]
        | ok =>
          have hwrite := FileTree.fromSystem_writeText files hpath s.cache.dump
          dsimp only
          cases hwritten :
              files.writeText (SaveTarget.titlePath directory "_cache") s.cache.dump with
          | error e => simp only [SessionError.isFileFault, hwrite e hwritten, if_true]
          | ok written => rfl

/-- The exit command leaves a session that can be left, and else fails with an error that is
reported. -/
theorem exitCommand_cases (s : Session σ) :
    (s.CanLeave ∧ ((exitCommand [] : Deed σ Unit) s).1 = .ok ()) ∨
    (¬ s.CanLeave ∧ ∃ e : SessionError, e.isReported = true ∧
      ((exitCommand [] : Deed σ Unit) s).1 = .error e) := by
  obtain ⟨files, journal, hsnd⟩ := saveContext_snd s.world.context s.exitTarget s
  rw [run_exitCommand, run_saveCommand]
  rcases saveContext_cases s.world.context s.exitTarget s with ⟨hcan, path, hfst⟩ |
    ⟨hcannot, e, he, hfst⟩
  · cases hsave : saveContext s.world.context s.exitTarget s with
    | mk result s' =>
      rw [hsave] at hfst hsnd
      subst hfst hsnd
      -- Saving has left the settings and the environment as they were.
      rcases writeCache_cases (((Session.remembering { s with files, world.journal := journal }
          path).printed s!"Saved to {path.text}").printed "\n") with ⟨hnamed, hok⟩ | ⟨hnamed, herr⟩
      · exact .inl ⟨⟨hcan, hnamed⟩, hok⟩
      · exact .inr ⟨fun h => hnamed h.cache, _, rfl, herr⟩
  · cases hsave : saveContext s.world.context s.exitTarget s with
    | mk result s' =>
      rw [hsave] at hfst
      subst hfst
      exact .inr ⟨fun h => hcannot h.saves, e, he, rfl⟩

/-! ## The end of the input -/

theorem canLeave_printed (s : Session σ) (text : String) :
    (s.printed text).CanLeave ↔ s.CanLeave :=
  ⟨fun h => ⟨h.saves, h.cache⟩, fun h => ⟨h.saves, h.cache⟩⟩

theorem canLeave_uninterrupted (s : Session σ) : s.uninterrupted.CanLeave ↔ s.CanLeave :=
  ⟨fun h => ⟨h.saves, h.cache⟩, fun h => ⟨h.saves, h.cache⟩⟩

variable [DiceSource σ]

/-- The end of the input ends a session that can be left, and no other. -/
theorem handleInput_endOfInput (s : Session σ) :
    (s.CanLeave ∧ ((handleInput .endOfInput : Deed σ Bool) s).1 = .ok false) ∨
    (¬ s.CanLeave ∧ ((handleInput .endOfInput : Deed σ Bool) s).1 = .ok true) := by
  have hcases := exitCommand_cases ((s.printed "").printed "\n").uninterrupted
  rw [canLeave_uninterrupted, canLeave_printed, canLeave_printed] at hcases
  rw [handleInput, run_bind, run_printLine]
  dsimp only
  rw [run_handleLine_exit]
  cases hexit : (exitCommand [] : Deed σ Unit) ((s.printed "").printed "\n").uninterrupted with
  | mk result s' =>
    rw [hexit] at hcases
    rcases hcases with ⟨hcan, rfl⟩ | ⟨hcannot, e, he, rfl⟩
    · exact .inl ⟨hcan, rfl⟩
    · refine .inr ⟨hcannot, ?_⟩
      simp only [he, if_true]

/-- One input, after the prompt. -/
theorem run_cons (prompt : String) (input : Input) (inputs : List Input) (s : Session σ) :
    run prompt (input :: inputs) s =
      match (handleInput input : Deed σ Bool) (s.printed prompt) with
      | (.error e, s) => (.failed e, s)
      | (.ok false, s) => (.left, s)
      | (.ok true, s) => run prompt inputs s := by
  rfl

theorem run_append (prompt : String) (xs ys : List Input) (s : Session σ) :
    run prompt (xs ++ ys) s =
      match run prompt xs s with
      | (.usedUp, s) => run prompt ys s
      | ended => ended := by
  induction xs generalizing s with
  | nil => rfl
  | cons x xs ih =>
    rw [List.cons_append, run_cons, run_cons]
    cases (handleInput x : Deed σ Bool) (s.printed prompt) with
    | mk result s =>
      match result with
      | .error e => rfl
      | .ok false => rfl
      | .ok true => exact ih s

/-- At the end of its input a session has ended before, is left, or goes on although there is
nothing left to read; and it is left exactly if it can be. -/
theorem run_endOfInput (prompt : String) (inputs : List Input) (s : Session σ) :
    let before := run prompt inputs s
    let ending := (run prompt (inputs ++ [.endOfInput]) s).1
    (ending = .usedUp ↔ before.1 = .usedUp ∧ ¬ before.2.CanLeave) ∧
    (ending = .left ↔ before.1 = .left ∨ (before.1 = .usedUp ∧ before.2.CanLeave)) ∧
    ∀ e, ending = .failed e ↔ before.1 = .failed e := by
  have hlast (s : Session σ) : (run prompt [.endOfInput] s).1 = .left ∧ s.CanLeave ∨
      (run prompt [.endOfInput] s).1 = .usedUp ∧ ¬ s.CanLeave := by
    have hinput := handleInput_endOfInput (s.printed prompt)
    rw [canLeave_printed] at hinput
    rw [run_cons]
    cases hrun : (handleInput .endOfInput : Deed σ Bool) (s.printed prompt) with
    | mk result s' =>
      rw [hrun] at hinput
      rcases hinput with ⟨hcan, rfl⟩ | ⟨hcannot, rfl⟩
      · exact .inl ⟨rfl, hcan⟩
      · exact .inr ⟨rfl, hcannot⟩
  dsimp only
  rw [run_append]
  cases hbefore : run prompt inputs s with
  | mk ending s' =>
    cases ending with
    | usedUp =>
      rcases hlast s' with ⟨hending, hcan⟩ | ⟨hending, hcannot⟩
      · simp [hending, hcan]
      · simp [hending, hcannot]
    | left => simp
    | failed e => simp

/-! ## Sessions that never end -/

/-- Saving fails and makes no directory, so that it fails again. -/
structure Stuck (s : Session σ) : Prop where
  fails : ¬ s.CanSave s.world.context s.exitTarget
  untouched : ∀ path, s.exitTarget.resolve s.environment s.settings s.files = .ok path →
    (s.files.makeDirectories path.parent).1 = s.files

omit [DiceSource σ] in
theorem Stuck.run_saveContext {s : Session σ} (h : s.Stuck) :
    ∃ (e : SessionError) (journal : Array Event), e.isReported = true ∧
      saveContext s.world.context s.exitTarget s =
        (.error e, { s with world.journal := journal }) := by
  rw [Session.run_saveContext]
  cases hresolve : s.exitTarget.resolve s.environment s.settings s.files with
  | error e => exact ⟨.ofTarget e, s.world.journal, by cases e <;> rfl, rfl⟩
  | ok path =>
    have hfiles := h.untouched path hresolve
    dsimp only
    cases hmake : s.files.makeDirectories path.parent with
    | mk files made =>
      rw [hmake] at hfiles
      obtain rfl : files = s.files := hfiles
      cases made with
      | error e => exact ⟨.file e, s.world.journal, rfl, rfl⟩
      | ok =>
        dsimp only
        cases hwrite : s.files.writeText path s.world.context.dump with
        | error e => exact ⟨.file e, _, rfl, rfl⟩
        | ok written =>
          exact absurd ((canSave_iff hresolve hmake).mpr ⟨rfl, written, hwrite⟩) h.fails

/-- The end of the input leaves a stuck session stuck. -/
theorem Stuck.handleInput_endOfInput {s : Session σ} (h : s.Stuck) :
    ∃ s' : Session σ, s'.Stuck ∧
      (handleInput .endOfInput : Deed σ Bool) s = (.ok true, s') := by
  have hcalm : ((s.printed "").printed "\n").uninterrupted.Stuck := ⟨h.fails, h.untouched⟩
  obtain ⟨e, journal, he, hsave⟩ := hcalm.run_saveContext
  rw [handleInput, run_bind, run_printLine]
  dsimp only
  rw [run_handleLine_exit, run_exitCommand, run_saveCommand, hsave]
  simp only [he, if_true]
  refine ⟨_, ?_, rfl⟩
  exact ⟨h.fails, h.untouched⟩

theorem run_stuck {s : Session σ} (h : s.Stuck) (prompt : String) (n : Nat) :
    (run prompt (List.replicate n .endOfInput) s).1 = .usedUp := by
  induction n generalizing s with
  | zero => rfl
  | succ n ih =>
    have hprinted : (s.printed prompt).Stuck := ⟨h.fails, h.untouched⟩
    obtain ⟨s', hs', hinput⟩ := hprinted.handleInput_endOfInput
    rw [List.replicate_succ, run_cons, hinput]
    exact ih hs'

/-- A session that keeps its tomes where a file is. -/
def blocked : Session ScriptedDice where
  world := { dice := {} }
  cacheDice := {}
  settings := { dataDir := some { parts := ["tomes"] } }
  files := ⟨[({ names := ["tomes"] }, .file (.text ""))]⟩

theorem stuck_blocked : blocked.Stuck := by
  have hresolve : blocked.exitTarget.resolve blocked.environment blocked.settings blocked.files =
      .ok { parts := ["tomes", "untitled.tome"] } := rfl
  have hmake : blocked.files.makeDirectories { parts := ["tomes"] } =
      (blocked.files, .error (.alreadyExists { parts := ["tomes"] })) := rfl
  refine ⟨fun hcan => ?_, fun path hpath => ?_⟩
  · rw [canSave_iff hresolve hmake] at hcan
    cases hcan.1
  · rw [hresolve] at hpath
    cases hpath
    exact congrArg Prod.fst hmake

/-- No end of the input ends that session. -/
theorem not_run_ends :
    ¬ ∀ (s : Session ScriptedDice) (inputs : List Input),
      ∃ n, (run "> " (inputs ++ List.replicate n .endOfInput) s).1 ≠ .usedUp := by
  intro hends
  obtain ⟨n, hn⟩ := hends blocked []
  exact hn (run_stuck stuck_blocked "> " n)

end Session

end DiceTome
