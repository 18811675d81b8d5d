import DiceTome.Proofs.Exits
import DiceTome.Proofs.SaveAndLoad

/-!
# The remembered tome at the end of a session

A session remembers the path of the tome it last saved or loaded, and the next session saves to that
path when it is left, also if it could not load the tome at its start. Until it is left, a session
that neither saves nor loads touches no file.

* `Session.Remembers`: the tome that is remembered and the cache are files.
* `Session.run_leave`: leaving such a session writes the cache, and before that the tome unless told
  not to.
* `Session.untouched_of_usedUp` and `Session.untouched_of_not_exits`: a session that has not been left
  has touched no file.
* `Session.remembered_kept_iff`: when a tome that could not be loaded is still there at the end.
-/

namespace DiceTome.Session

open Step

variable {σ : Type} {s t : Session σ} {path cachePath : Path}

/-! ## Exits that save -/

/-- The session remembers the tome at `path` and has its cache at `cachePath`; both are files. -/
structure Remembers (s : Session σ) (path cachePath : Path) : Prop where
  savePath : s.savePath? = some path
  resolve : cacheTarget.resolve s.environment s.settings s.files = .ok cachePath
  tome : ∃ c, s.files.content path = .ok c
  cacheFile : ∃ c, s.files.content cachePath = .ok c

/-- The sessions have the same files, the same cache and the same surroundings. -/
structure Untouched (s t : Session σ) : Prop where
  files : t.files = s.files
  cache : t.cache = s.cache
  settings : t.settings = s.settings
  environment : t.environment = s.environment

theorem Untouched.refl (s : Session σ) : Untouched s s :=
  ⟨rfl, rfl, rfl, rfl⟩

theorem Untouched.trans {u : Session σ} (h : Untouched s t) (h' : Untouched t u) :
    Untouched s u :=
  ⟨h'.files.trans h.files, h'.cache.trans h.cache, h'.settings.trans h.settings,
    h'.environment.trans h.environment⟩

theorem unworldly_untouched (s : Session σ) : Unworldly (Untouched s) :=
  fun _ _ _ h => ⟨h.files, h.cache, h.settings, h.environment⟩

theorem Remembers.of_untouched (h : s.Remembers path cachePath) (ht : Untouched s t) :
    t.Remembers path cachePath where
  savePath := by rw [savePath?, ht.cache, ← savePath?, h.savePath]
  resolve := by rw [ht.files, ht.settings, ht.environment, h.resolve]
  tome := by rw [ht.files]; exact h.tome
  cacheFile := by rw [ht.files]; exact h.cacheFile

/-- What an exit leaves in the file of the tome. -/
def contentBehind (s : Session σ) (path cachePath : Path) (nosave : Bool) (content : Content) :
    Content :=
  if path.place = cachePath.place then
    .text (if nosave then s.cache else (s.remembering path).cache).dump
  else if nosave then content
  else .text s.world.context.dump

/-- A cache whose file is there can be written. -/
theorem exists_writeCache
    (hresolve : cacheTarget.resolve s.environment s.settings s.files = .ok cachePath) {c : Content}
    (hc : s.files.content cachePath = .ok c) :
    ∃ t, (writeCache : Deed σ Unit) s = (.ok (), t) ∧
      saveContext s.cache cacheTarget s = (.ok cachePath, t) := by
  obtain ⟨t, hsave⟩ := exists_saveContext hresolve hc s.cache
  exact ⟨t, by rw [run_writeCache, hsave], hsave⟩

/-- A tome that is remembered and there can be saved. -/
theorem Remembers.exists_saveCommand (h : s.Remembers path cachePath) :
    ∃ t, (saveCommand [] : Deed σ Unit) s = (.ok (), t) ∧ Saves s t path := by
  obtain ⟨c, hc⟩ := h.tome
  have htarget : s.exitTarget = .path path := by
    rw [exitTarget, h.savePath]
  have hresolve : (SaveTarget.path path).resolve s.environment s.settings s.files = .ok path := rfl
  obtain ⟨u, hsave⟩ := exists_saveContext hresolve hc s.world.context
  have hrun : (saveCommand [] : Deed σ Unit) s =
      (.ok (), ((u.remembering path).printed s!"Saved to {path.text}").printed "\n") := by
    rw [run_saveCommand, htarget, hsave]
  obtain ⟨path', hsaves⟩ := saves_of_saveCommand hrun
  have hpath : path' = path := by
    have htome := hsaves.tome
    rw [htarget] at htome
    exact (Except.ok.inj htome).symm
  exact ⟨_, hrun, hpath ▸ hsaves⟩

/-- An exit from a session that remembers a tome succeeds. -/
theorem run_leave (h : s.Remembers path cachePath) {content : Content}
    (hcontent : s.files.content path = .ok content) (nosave : Bool) :
    ∃ t, (leave nosave : Deed σ Unit) s = (.ok (), t) ∧
      t.files.content path = .ok (s.contentBehind path cachePath nosave content) := by
  obtain ⟨d, hd⟩ := h.cacheFile
  cases nosave with
  | true =>
    obtain ⟨t, hwrite, hcache⟩ := exists_writeCache h.resolve hd
    exact ⟨t, hwrite, content_after_saveContext hcache hcontent⟩
  | false =>
    obtain ⟨u, hsave, hsaves⟩ := h.exists_saveCommand
    obtain ⟨d', hd'⟩ := hsaves.kept _ d hd
    have hresolve : cacheTarget.resolve u.environment u.settings u.files = .ok cachePath := by
      rw [resolve_cacheTarget, hsaves.environment, hsaves.settings, ← resolve_cacheTarget]
      exact h.resolve
    obtain ⟨t, hwrite, hcache⟩ := exists_writeCache hresolve hd'
    have hbehind := content_after_saveContext hcache hsaves.content
    rw [hsaves.cache, hsaves.context] at hbehind
    refine ⟨t, ?_, hbehind⟩
    rw [leave_false, run_bind, hsave]
    exact hwrite

/-! ## Quiet sessions -/

variable [DiceSource σ]

/-- The first input is an exit command. -/
theorem run_exit (h : s.Remembers path cachePath) {content : Content}
    (hcontent : s.files.content path = .ok content) {input : Input} {nosave : Bool}
    (hexit : input.exit? = some nosave) (prompt : String) (inputs : List Input) :
    ∃ t, run prompt (input :: inputs) s = (.left, t) ∧
      t.files.content path = .ok (s.contentBehind path cachePath nosave content) := by
  obtain ⟨world, hfacing⟩ := facing_eq (s.printed prompt) input
  have hsame : Untouched s ((s.printed prompt).facing input) := hfacing ▸ ⟨rfl, rfl, rfl, rfl⟩
  have hbehind : ((s.printed prompt).facing input).contentBehind path cachePath nosave content =
      s.contentBehind path cachePath nosave content := by
    cases input <;> rfl
  obtain ⟨t, hleave, ht⟩ := run_leave (h.of_untouched hsame) (hsame.files ▸ hcontent) nosave
  refine ⟨t, ?_, hbehind ▸ ht⟩
  rw [run_cons, run_exitInput hexit, hleave]

/-- The first input is something else, and neither saves nor loads. -/
theorem untouched_of_quiet (s : Session σ) {input : Input} (htomes : input.usesTomes = false)
    (hexit : input.exit? = none) (prompt : String) :
    Untouched s ((handleInput input : Deed σ Bool) (s.printed prompt)).2 :=
  keeps_quietInput (unworldly_untouched s) htomes hexit _ ⟨rfl, rfl, rfl, rfl⟩

/-- A session that remembers a tome and neither saves nor loads has touched no file while it goes
on. -/
theorem untouched_of_usedUp (h : s.Remembers path cachePath) {prompt : String}
    {inputs : List Input} (hquiet : ∀ input ∈ inputs, input.usesTomes = false)
    (hrun : run prompt inputs s = (.usedUp, t)) : Untouched s t := by
  induction inputs generalizing s with
  | nil =>
    cases hrun
    exact Untouched.refl _
  | cons input inputs ih =>
    have htomes : input.usesTomes = false := hquiet input List.mem_cons_self
    cases hexit : input.exit? with
    | some nosave =>
      obtain ⟨content, hcontent⟩ := h.tome
      obtain ⟨u, hleft, -⟩ := run_exit h hcontent hexit prompt inputs
      rw [hleft] at hrun
      cases hrun
    | none =>
      have hfirst := untouched_of_quiet s htomes hexit prompt
      rw [run_cons] at hrun
      cases hinput : (handleInput input : Deed σ Bool) (s.printed prompt) with
      | mk result u =>
        rw [hinput] at hrun hfirst
        match result with
        | .error e => cases hrun
        | .ok false => cases hrun
        | .ok true =>
          exact hfirst.trans (ih (h.of_untouched hfirst)
            (fun input hinput => hquiet input (List.mem_cons_of_mem _ hinput)) hrun)

/-- The run comes to an exit command, and is the session `t` before it. -/
def ComesToExit (prompt : String) (inputs : List Input) (s : Session σ) (nosave : Bool)
    (t : Session σ) : Prop :=
  ∃ before input after, inputs = before ++ input :: after ∧
    run prompt before s = (.usedUp, t) ∧ input.exit? = some nosave

/-- If the run does not come to an exit command, no file has been touched in the end either. -/
theorem untouched_of_not_exits {prompt : String} {inputs : List Input}
    (hquiet : ∀ input ∈ inputs, input.usesTomes = false)
    (hexits : ∀ nosave t, ¬ ComesToExit prompt inputs s nosave t) :
    Untouched s (run prompt inputs s).2 := by
  induction inputs generalizing s with
  | nil => exact Untouched.refl s
  | cons input inputs ih =>
    have htomes : input.usesTomes = false := hquiet input List.mem_cons_self
    cases hexit : input.exit? with
    | some nosave => exact absurd ⟨[], input, inputs, rfl, rfl, hexit⟩ (hexits nosave s)
    | none =>
      have hfirst := untouched_of_quiet s htomes hexit prompt
      rw [run_cons]
      cases hinput : (handleInput input : Deed σ Bool) (s.printed prompt) with
      | mk result u =>
        rw [hinput] at hfirst
        match result with
        | .error e => exact hfirst
        | .ok false => exact hfirst
        | .ok true =>
          refine hfirst.trans (ih (fun input hinput => hquiet input (List.mem_cons_of_mem _ hinput))
            fun nosave t => ?_)
          rintro ⟨before, exit, after, rfl, hrun, hexit'⟩
          refine hexits nosave t ⟨input :: before, exit, after, rfl, ?_, hexit'⟩
          rw [run_cons, hinput]
          exact hrun

/-- What is in the file of the tome if the run comes to an exit command. -/
theorem content_of_comesToExit (h : s.Remembers path cachePath) {content : Content}
    (hcontent : s.files.content path = .ok content) {prompt : String} {inputs : List Input}
    (hquiet : ∀ input ∈ inputs, input.usesTomes = false) {nosave : Bool}
    (hexit : ComesToExit prompt inputs s nosave t) :
    (run prompt inputs s).2.files.content path =
      .ok (t.contentBehind path cachePath nosave content) := by
  obtain ⟨before, input, after, rfl, hrun, hexit⟩ := hexit
  have ht := untouched_of_usedUp h (fun input hinput => hquiet input (List.mem_append_left _ hinput))
    hrun
  obtain ⟨u, hleft, hbehind⟩ :=
    run_exit (h.of_untouched ht) (ht.files ▸ hcontent) hexit prompt after
  rw [run_append, hrun]
  dsimp only
  rw [hleft]
  exact hbehind

/-- The tome has its content at the end exactly if the exit that the run comes to, if any, leaves
it. -/
theorem kept_iff (h : s.Remembers path cachePath) {content : Content}
    (hcontent : s.files.content path = .ok content) {prompt : String} {inputs : List Input}
    (hquiet : ∀ input ∈ inputs, input.usesTomes = false) :
    (run prompt inputs s).2.files.content path = .ok content ↔
      ∀ nosave t, ComesToExit prompt inputs s nosave t →
        t.contentBehind path cachePath nosave content = content := by
  constructor
  · intro hkept nosave t hexit
    rw [content_of_comesToExit h hcontent hquiet hexit] at hkept
    exact Except.ok.inj hkept
  · intro hleaves
    by_cases hexits : ∃ nosave t, ComesToExit prompt inputs s nosave t
    · obtain ⟨nosave, t, hexit⟩ := hexits
      rw [content_of_comesToExit h hcontent hquiet hexit, hleaves nosave t hexit]
    · rw [(untouched_of_not_exits hquiet fun nosave t hexit => hexits ⟨nosave, t, hexit⟩).files]
      exact hcontent

/-! ## Tomes that cannot be loaded -/

/-- Whether a text has been read and refused with a diagnosis. -/
def isRefusal : Except SessionError α → Bool
  | .error (.source cause) => cause.isDiagnosed
  | _ => false

/-- A cache that names a tome has been read from a file. -/
theorem file_of_loadCache (h : (loadCache : Deed σ Unit) s = (.ok (), t))
    (hpath : t.savePath? = some path)
    (hresolve : cacheTarget.resolve s.environment s.settings s.files = .ok cachePath) :
    (∃ c, s.files.content cachePath = .ok c) ∧ t.files = s.files ∧ t.settings = s.settings ∧
      t.environment = s.environment := by
  rw [run_loadCache, hresolve] at h
  dsimp only at h
  cases hexists : s.files.pathExists cachePath with
  | error e =>
    rw [hexists] at h
    cases h
  | ok found =>
    rw [hexists] at h
    cases found with
    | false =>
      cases h
      cases hpath
    | true =>
      dsimp only at h
      cases hread : s.files.readText cachePath with
      | error e =>
        rw [hread] at h
        cases h
      | ok text =>
        rw [hread] at h
        dsimp only at h
        have hcontent : ∃ c, s.files.content cachePath = .ok c := by
          cases hcontent : s.files.content cachePath with
          | error e =>
            rw [FileTree.readText_of_content_error hcontent] at hread
            cases hread
          | ok c => exact ⟨c, rfl⟩
        cases hrun : (World.evalTome text).run s.emptiedForCache with
        | mk result w =>
          rw [hrun] at h
          cases result with
          | error e => cases h
          | ok os =>
            cases h
            exact ⟨hcontent, rfl, rfl, rfl⟩

/-- Loading that fails touches no file, and not the path that is remembered either. -/
theorem untouched_of_loadCommand {args : List String} {e : SessionError}
    (h : (loadCommand args : Deed σ Unit) s = (.error e, t)) : Untouched s t := by
  rw [run_loadCommand] at h
  cases htarget : ((target args : Deed σ SaveTarget) s).1 with
  | error e' =>
    rw [htarget] at h
    cases h
    exact Untouched.refl _
  | ok target =>
    rw [htarget] at h
    dsimp only at h
    split at h
    · cases h
      exact Untouched.refl _
    · have hload := keeps_loadTome (unworldly_untouched s) target s (Untouched.refl s)
      cases hrun : (loadTome target : Deed σ Path) s with
      | mk result u =>
        rw [hrun] at h hload
        cases result with
        | error e' =>
          cases h
          exact hload
        | ok path => cases h

/-- A tome that is refused at the start of a session stays the one that is remembered. -/
theorem restore_of_refusal (hcache : (loadCache : Deed σ Unit) s = (.ok (), t))
    (hpath : t.savePath? = some path)
    (hrefused : isRefusal ((loadCommand [] : Deed σ Unit) t).1 = true) :
    ∃ u, (restore : Deed σ Unit) s = (.ok (), u) ∧ Untouched t u := by
  rw [run_restore, hcache]
  dsimp only
  rw [run_reloadTome, hpath]
  dsimp only
  cases hload : (loadCommand [] : Deed σ Unit) t with
  | mk result u =>
    rw [hload] at hrefused
    match result with
    | .ok () => cases hrefused
    | .error e =>
      have hfault : e.isTomeFault = true := by
        cases e with
        | source cause => exact hrefused
        | _ => cases hrefused
      simp only [hfault, if_true]
      exact ⟨_, rfl, (untouched_of_loadCommand hload).trans ⟨rfl, rfl, rfl, rfl⟩⟩

/-- Let the cache name a tome that is read and refused at the start of a session, which then neither
saves nor loads. The tome still has its content at the end exactly if the exit that the session
comes to leaves it: one without saving does unless the tome is the cache itself; one with saving puts
the context of the session, into which the tome was not loaded, in the place of the tome. -/
theorem remembered_kept_iff {content : Content}
    (hcache : (loadCache : Deed σ Unit) s = (.ok (), t)) (hpath : t.savePath? = some path)
    (hrefused : isRefusal ((loadCommand [] : Deed σ Unit) t).1 = true)
    (hresolve : cacheTarget.resolve s.environment s.settings s.files = .ok cachePath)
    (hcontent : s.files.content path = .ok content) (prompt : String) {inputs : List Input}
    (hquiet : ∀ input ∈ inputs, input.usesTomes = false) :
    ∃ u, (restore : Deed σ Unit) s = (.ok (), u) ∧
      ((run prompt inputs u).2.files.content path = .ok content ↔
        ∀ nosave v, ComesToExit prompt inputs u nosave v →
          v.contentBehind path cachePath nosave content = content) := by
  obtain ⟨u, hrestore, hu⟩ := restore_of_refusal hcache hpath hrefused
  obtain ⟨hfile, hfiles, hsettings, henvironment⟩ := file_of_loadCache hcache hpath hresolve
  rw [← hfiles, ← hsettings, ← henvironment] at hresolve
  rw [← hfiles] at hfile hcontent
  have hremembers : t.Remembers path cachePath := ⟨hpath, hresolve, ⟨content, hcontent⟩, hfile⟩
  exact ⟨u, hrestore, kept_iff (hremembers.of_untouched hu) (hu.files ▸ hcontent) hquiet⟩

/-- A session whose cache names a tome that is no text of statements. -/
def refused : Session ScriptedDice where
  world := { dice := {} }
  cacheDice := {}
  settings := { dataDir := some { parts := ["tomes"] } }
  files := ⟨[({ names := ["tomes"] }, .directory),
    ({ names := ["tomes", "_cache.tome"] }, .file (.text "SAVE_PATH = \"hero.tome\"\n")),
    ({ names := ["hero.tome"] }, .file (.text "hp = = 31\n"))]⟩

/-- That tome is kept if the session is left without saving. -/
theorem refused_kept :
    ∃ u, (restore : Deed ScriptedDice Unit) refused = (.ok (), u) ∧
      (run "> " [.line ".exit nosave"] u).2.files.content { parts := ["hero.tome"] } =
        .ok (.text "hp = = 31\n") := by
  have hcache : (loadCache : Deed ScriptedDice Unit) refused =
      (.ok (), ((loadCache : Deed ScriptedDice Unit) refused).2) :=
    eq_ok_of_isOk (by decide +kernel)
  have hpath : ((loadCache : Deed ScriptedDice Unit) refused).2.savePath? =
      some { parts := ["hero.tome"] } := by
    decide +kernel
  have hrefused : isRefusal ((loadCommand [] : Deed ScriptedDice Unit)
      ((loadCache : Deed ScriptedDice Unit) refused).2).1 = true := by
    decide +kernel
  have hresolve : cacheTarget.resolve refused.environment refused.settings refused.files =
      .ok { parts := ["tomes", "_cache.tome"] } := rfl
  have hquiet : ∀ input ∈ [Input.line ".exit nosave"], input.usesTomes = false := by
    decide
  have hcontent : refused.files.content { parts := ["hero.tome"] } = .ok (.text "hp = = 31\n") :=
    eq_ok_of_toOption (by decide +kernel)
  obtain ⟨u, hrestore, hkept⟩ :=
    remembered_kept_iff hcache hpath hrefused hresolve hcontent "> " hquiet
  refine ⟨u, hrestore, hkept.mpr fun nosave v hexit => ?_⟩
  obtain ⟨before, input, after, hinputs, -, hexit⟩ := hexit
  have hinput : input = .line ".exit nosave" := by
    have hmem : input ∈ [Input.line ".exit nosave"] := hinputs ▸ by simp
    exact List.mem_singleton.mp hmem
  have htrue : (Input.line ".exit nosave").exit? = some true := by decide
  rw [hinput, htrue] at hexit
  cases hexit
  have hplace : Path.place { parts := ["hero.tome"] } ≠
      Path.place { parts := ["tomes", "_cache.tome"] } := by decide
  rw [contentBehind, if_neg hplace]
  rfl

/-- At the end of the input the tome is lost: the session saves an empty context in its place. -/
theorem not_remembered_kept :
    ¬ ∀ (s t u : Session ScriptedDice) (path : Path) (content : Content) (inputs : List Input),
      (loadCache : Deed ScriptedDice Unit) s = (.ok (), t) → t.savePath? = some path →
      isRefusal ((loadCommand [] : Deed ScriptedDice Unit) t).1 = true →
      s.files.content path = .ok content → (∀ input ∈ inputs, input.usesTomes = false) →
      (restore : Deed ScriptedDice Unit) s = (.ok (), u) →
      (run "> " inputs u).2.files.content path = .ok content := by
  intro h
  have hcache : (loadCache : Deed ScriptedDice Unit) refused =
      (.ok (), ((loadCache : Deed ScriptedDice Unit) refused).2) :=
    eq_ok_of_isOk (by decide +kernel)
  have hrestore : (restore : Deed ScriptedDice Unit) refused =
      (.ok (), ((restore : Deed ScriptedDice Unit) refused).2) :=
    eq_ok_of_isOk (by decide +kernel)
  have hkept := h refused _ _ { parts := ["hero.tome"] } (.text "hp = = 31\n") [.endOfInput] hcache
    (by decide +kernel) (by decide +kernel) (eq_ok_of_toOption (by decide +kernel)) (by decide)
    hrestore
  have hlost : (run "> " [.endOfInput] ((restore : Deed ScriptedDice Unit) refused).2).2.files.content
      { parts := ["hero.tome"] } = .ok (.text "") :=
    eq_ok_of_toOption (by decide +kernel)
  have hsame : Content.text "" = .text "hp = = 31\n" := Except.ok.inj (hlost.symm.trans hkept)
  exact absurd hsame (by decide)

end DiceTome.Session
