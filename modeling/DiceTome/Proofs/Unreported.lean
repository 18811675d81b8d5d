import DiceTome.Proofs.Deeds
import DiceTome.Proofs.Diagnoses
import DiceTome.Proofs.FileTrees

/-!
# Failures that end a session

A session is meant to survive whatever a line or a tome holds: it says what is wrong and goes on. Two
lists of errors decide which failures it survives. A line may fail in every way but with a number that
is too large. The start of a session passes over errors of the language and of the file system alone,
so that every other failure of the cache or of its tome ends the session before its first line.

* `World.evalTome_failure`: which tomes fail without a diagnosis.
* `Session.Reports`: a deed fails with nothing that ends a session.
* `Session.LineFails` and `Session.RestoreFails` are the failures that do, and `Session.ends_iff` says
  that there are no others.
-/

namespace DiceTome

open Step World

/-! ## Tomes that fail -/

theorem parseTome_error {source : String} {err : Error} (h : parseTome source = .error err) :
    (∃ cause, err = .scan source cause ∧ Token.scan source = .error cause) ∨
    ∃ cause tokens, err = .parse source cause ∧ Arena.parseTome tokens = .error cause := by
  cases hscan : Token.scan source with
  | error cause =>
    simp only [parseTome, hscan] at h
    cases h
    exact .inl ⟨cause, rfl, rfl⟩
  | ok tokens =>
    have hparse : (Arena.parseTome tokens).mapError (.parse source) = .error err := by
      rw [← h]
      simp only [parseTome, hscan]
      rfl
    cases htome : Arena.parseTome tokens with
    | error cause =>
      rw [htome] at hparse
      cases hparse
      exact .inr ⟨cause, tokens, rfl, htome⟩
    | ok statements =>
      rw [htome] at hparse
      cases hparse

namespace World

variable {σ : Type} [DiceSource σ]

theorem guards_evalStatements {cap : Nat} (hcap : maxCallDepth < cap) {K : Set Nat} {a : World σ}
    (hroot : 0 ∈ K) (statements : List Arena) :
    Guards (Steady cap K a) (evalStatements statements) := by
  induction statements with
  | nil => exact guards_pure _
  | cons tree statements ih =>
    exact (guards_evalArena hcap hroot tree).bind fun _ => ih.bind fun _ => guards_pure _

/-- How a tome fails: it cannot be cut, what it is cut into are no statements, or a statement
fails. -/
theorem evalTome_error {source : String} {w : World σ} {err : Error}
    (h : ((evalTome source).run w).1 = .error err) :
    (∃ cause, err = .scan source cause ∧ Token.scan source = .error cause) ∨
    (∃ cause tokens, err = .parse source cause ∧ Arena.parseTome tokens = .error cause) ∨
    ∃ cause statements, err = .eval cause ∧ (evalStatements statements w).1 = .error cause := by
  have hparse := DiceTome.parseTome_eq source
  cases hread : (Token.kindsFrom .other source.toList).bind Climb.statements with
  | none =>
    rw [hread] at hparse
    obtain ⟨e, he⟩ := hparse
    rw [evalTome_of_error he] at h
    cases h
    rcases parseTome_error he with hscan | htokens
    · exact .inl hscan
    · exact .inr (.inl htokens)
  | some es =>
    rw [hread] at hparse
    rw [evalTome_of_parse hparse, ← evalStatements_plant, ExceptT.run] at h
    cases hrun : evalStatements (es.map (·.plant {})) w with
    | mk result w' =>
      rw [hrun] at h
      cases result with
      | ok os => cases h
      | error cause =>
        cases h
        exact .inr (.inr ⟨cause, _, rfl, congrArg Prod.fst hrun⟩)

/-- A tome that fails has a diagnosis, unless one of its digits has no decimal value, or it asks for
a number that is not finite or too large. -/
theorem evalTome_failure {w : World σ} (h : w.context.Tidy) (hroot : 0 < w.context.scopes.size)
    (source : String) {err : Error} (herr : ((evalTome source).run w).1 = .error err) :
    err.isDiagnosed = false ↔ err.Undiagnosed source := by
  refine ⟨fun hnone => ?_, Error.Undiagnosed.isDiagnosed_eq⟩
  rcases evalTome_error herr with ⟨cause, rfl, hscan⟩ | ⟨cause, tokens, rfl, hparse⟩ |
    ⟨cause, statements, rfl, heval⟩
  · exact Error.undiagnosed_of_scan hscan hnone
  · exact absurd hnone (Error.not_diagnosed_of_numbered (Arena.numbered_parseTome tokens) hparse)
  · obtain ⟨hcap, hstart⟩ := steady_of_tidy h
    have hproper := (guards_evalStatements hcap hroot statements w hstart).2
    exact Error.undiagnosed_of_proper hproper source heval hnone

end World

namespace Session

variable {σ : Type}

/-! ## Deeds that fail with nothing that ends a session -/

/-- The deed fails with nothing but errors that are reported. -/
def Reports (x : Deed σ α) : Prop :=
  ∀ s e, (x s).1 = .error e → e.isReported = true

theorem reports_pure (a : α) : Reports (pure a : Deed σ α) := by
  rintro s e ⟨⟩

theorem reports_throw {e : SessionError} (h : e.isReported = true) :
    Reports (throw e : Deed σ α) := by
  rintro s _ ⟨⟩
  exact h

theorem reports_check {wrap : ε → SessionError} (h : ∀ e, (wrap e).isReported = true)
    (answer : Except ε α) : Reports (check wrap answer : Deed σ α) := by
  intro s e he
  cases answer with
  | ok a => cases he
  | error cause =>
    cases he
    exact h cause

theorem Reports.bind {x : Deed σ α} {f : α → Deed σ β} (hx : Reports x) (hf : ∀ a, Reports (f a)) :
    Reports (x >>= f) := by
  intro s e he
  rw [run_bind] at he
  cases hrun : x s with
  | mk result s' =>
    rw [hrun] at he
    cases result with
    | ok a => exact hf a s' e he
    | error cause =>
      cases he
      exact hx s e (congrArg Prod.fst hrun)

theorem reports_get_bind {f : Session σ → Deed σ α} (h : ∀ s, Reports (f s)) : Reports (get >>= f) := by
  intro s e he
  rw [run_bind, run_get] at he
  exact h s s e he

theorem reports_target (args : List String) : Reports (target args : Deed σ SaveTarget) := by
  match args with
  | [] =>
    intro s e he
    rw [run_target] at he
    cases he
  | [arg] => exact reports_get_bind fun s => reports_check (fun _ => rfl) _
  | _ :: _ :: _ => exact reports_throw rfl

theorem reports_saveContext (context : Context) (target : SaveTarget) :
    Reports (saveContext context target : Deed σ Path) := by
  intro s e he
  rcases saveContext_cases context target s with ⟨-, path, hok⟩ | ⟨-, cause, hreported, herr⟩
  · rw [hok] at he
    cases he
  · rw [herr] at he
    cases he
    exact hreported

theorem reports_saveCommand (args : List String) : Reports (saveCommand args : Deed σ Unit) :=
  (reports_target args).bind fun target => reports_get_bind fun s =>
    (reports_saveContext s.world.context target).bind fun path => by
      refine Reports.bind ?_ fun _ => ?_
      · intro s e he
        cases he
      · intro s e he
        cases he

theorem reports_writeCache : Reports (writeCache : Deed σ Unit) := by
  intro s e he
  rcases writeCache_cases s with ⟨-, hok⟩ | ⟨-, herr⟩
  · rw [hok] at he
    cases he
  · rw [herr] at he
    cases he
    rfl

theorem reports_exitCommand (args : List String) : Reports (exitCommand args : Deed σ Unit) := by
  unfold exitCommand
  cases exitWithoutSaving? args with
  | none => exact reports_throw rfl
  | some nosave =>
    cases nosave with
    | true => exact reports_writeCache
    | false => exact (reports_saveCommand []).bind fun _ => reports_writeCache

/-! ## Lines that end a session -/

variable [DiceSource σ]

/-- With these arguments the load command gets to the text of a tome. -/
def Reads (s : Session σ) (args : List String) (text : String) : Prop :=
  ∃ (t : SaveTarget) (path : Path), ((target args : Deed σ SaveTarget) s).1 = .ok t ∧
    t ≠ .generated ∧ t.resolve s.environment s.settings s.files = .ok path ∧
    s.files.readText path = .ok text

/-- The line fails with a number that is too large: in the expression that it is, or in the tome that
it loads. -/
inductive LineFails (s : Session σ) (line : String) : SessionError → Prop
  | evaluated {cause : Error} (hblank : Text.trim line.toList ≠ [])
      (hexpression : (Text.trim line.toList).head? ≠ some '.')
      (hrun : ((World.evalSource line).run s.world).1 = .error cause)
      (hcause : cause.isOverflow = true) : LineFails s line (.source cause)
  | loaded {command : List Char} {args : List String} {text : String} {cause : Error}
      (hcommand : Text.trim line.toList = '.' :: command)
      (hwords : Text.splitWords command = .ok ("load" :: args)) (hreads : s.Reads args text)
      (hrun : ((World.evalTome text).run s.emptied).1 = .error cause)
      (hcause : cause.isOverflow = true) : LineFails s line (.source cause)

theorem evalLine_error_iff (line : String) (s : Session σ) (e : SessionError) :
    ((evalLine line : Deed σ Unit) s).1 = .error e ↔
      ∃ cause, e = .source cause ∧ ((World.evalSource line).run s.world).1 = .error cause := by
  rw [run_evalLine]
  cases (World.evalSource line).run s.world with
  | mk result w =>
    cases result with
    | error cause => simp [eq_comm]
    | ok o =>
      dsimp only
      split <;> simp

/-- How loading a tome fails: its target has no path, its file cannot be read, or its text fails. -/
theorem loadTome_error_iff (target : SaveTarget) (s : Session σ) (e : SessionError) :
    ((loadTome target : Deed σ Path) s).1 = .error e ↔
      (∃ cause, e = .ofTarget cause ∧
        target.resolve s.environment s.settings s.files = .error cause) ∨
      ∃ path, target.resolve s.environment s.settings s.files = .ok path ∧
        ((∃ cause, e = .file cause ∧ s.files.readText path = .error cause) ∨
          ∃ text cause, e = .source cause ∧ s.files.readText path = .ok text ∧
            ((World.evalTome text).run s.emptied).1 = .error cause) := by
  rw [run_loadTome]
  cases target.resolve s.environment s.settings s.files with
  | error cause => simp [eq_comm]
  | ok path =>
    cases hread : s.files.readText path with
    | error cause => simp [hread, eq_comm (a := e)]
    | ok text =>
      cases hrun : (World.evalTome text).run s.emptied with
      | mk result w => cases result <;> simp [hread, hrun, eq_comm (a := e)]

theorem loadCommand_error_iff (args : List String) (s : Session σ) (e : SessionError) :
    ((loadCommand args : Deed σ Unit) s).1 = .error e ↔
      ((target args : Deed σ SaveTarget) s).1 = .error e ∨
      ∃ t, ((target args : Deed σ SaveTarget) s).1 = .ok t ∧
        ((t = .generated ∧ e = .command .loadUsage) ∨
          t ≠ .generated ∧ ((loadTome t : Deed σ Path) s).1 = .error e) := by
  rw [run_loadCommand]
  cases ((target args : Deed σ SaveTarget) s).1 with
  | error cause => simp
  | ok t =>
    by_cases ht : t = .generated
    · simp [ht, eq_comm]
    · cases hload : (loadTome t : Deed σ Path) s with
      | mk result s' => cases result <;> simp [ht, hload]

/-- Of the failures of the load command, only those of the tome may end a session. -/
theorem loadCommand_unreported_iff (args : List String) (s : Session σ) {e : SessionError}
    (he : e.isReported = false) :
    ((loadCommand args : Deed σ Unit) s).1 = .error e ↔
      ∃ text cause, e = .source cause ∧ s.Reads args text ∧
        ((World.evalTome text).run s.emptied).1 = .error cause := by
  rw [loadCommand_error_iff]
  constructor
  · rintro (htarget | ⟨t, htarget, ⟨rfl, rfl⟩ | ⟨ht, hload⟩⟩)
    · rw [reports_target args s e htarget] at he
      cases he
    · cases he
    · rcases (loadTome_error_iff t s e).mp hload with ⟨cause, rfl, -⟩ |
        ⟨path, hpath, ⟨cause, rfl, -⟩ | ⟨text, cause, rfl, htext, hrun⟩⟩
      · cases cause <;> cases he
      · cases he
      · exact ⟨text, cause, rfl, ⟨t, path, htarget, ht, hpath, htext⟩, hrun⟩
  · rintro ⟨text, cause, rfl, ⟨t, path, htarget, ht, hpath, htext⟩, hrun⟩
    refine .inr ⟨t, htarget, .inr ⟨ht, ?_⟩⟩
    exact (loadTome_error_iff t s _).mpr (.inr ⟨path, hpath, .inr ⟨text, cause, rfl, htext, hrun⟩⟩)

/-- A command other than the load command does not end a session. -/
theorem reports_runWords {words : List String} (h : ∀ args, words ≠ "load" :: args) :
    Reports (runWords words : Deed σ Bool) := by
  unfold runWords
  split
  · exact reports_throw rfl
  · exact (reports_saveCommand _).bind fun _ => reports_pure true
  · exact absurd rfl (h _)
  · exact (reports_exitCommand _).bind fun _ => reports_pure false
  · exact reports_throw rfl

theorem reports_runCommand {cs : List Char} (h : ∀ args, Text.splitWords cs ≠ .ok ("load" :: args)) :
    Reports (runCommand cs : Deed σ Bool) := by
  intro s e he
  rw [run_runCommand] at he
  cases hwords : Text.splitWords cs with
  | error cause =>
    rw [hwords] at he
    cases he
    rfl
  | ok words =>
    rw [hwords] at he h
    exact reports_runWords (fun args hargs => h args (congrArg Except.ok hargs)) s e he

omit [DiceSource σ] in
theorem bind_pure_error_iff (x : Deed σ α) (b : β) (s : Session σ) (e : SessionError) :
    ((x >>= fun _ => pure b : Deed σ β) s).1 = .error e ↔ (x s).1 = .error e := by
  rw [run_bind]
  cases x s with
  | mk result s' => cases result <;> simp [run_pure]

theorem runCommand_load {cs : List Char} {args : List String}
    (h : Text.splitWords cs = .ok ("load" :: args)) (s : Session σ) (e : SessionError) :
    ((runCommand cs : Deed σ Bool) s).1 = .error e ↔
      ((loadCommand args : Deed σ Unit) s).1 = .error e := by
  rw [run_runCommand, h]
  exact bind_pure_error_iff (loadCommand args) true s e

omit [DiceSource σ] in
theorem reads_uninterrupted {s : Session σ} {args : List String} {text : String} :
    s.uninterrupted.Reads args text ↔ s.Reads args text := by
  have htarget : ((target args : Deed σ SaveTarget) s.uninterrupted).1 =
      ((target args : Deed σ SaveTarget) s).1 := by
    match args with
    | [] =>
      rw [run_target, run_target]
      rfl
    | [arg] => rfl
    | _ :: _ :: _ => rfl
  rw [Reads, Reads, htarget]
  rfl

theorem isReported_source {cause : Error} :
    (SessionError.source cause).isReported = false ↔ cause.isOverflow = true := by
  rw [SessionError.isReported, Bool.not_eq_false']

/-- A line ends the session exactly if it is not blank and its failure is not reported. -/
theorem handleLine_error_iff (line : String) (s : Session σ) (e : SessionError) :
    ((handleLine line : Deed σ Bool) s).1 = .error e ↔
      Text.trim line.toList ≠ [] ∧ e.isReported = false ∧
        ((dispatch line : Deed σ Bool) s.uninterrupted).1 = .error e := by
  rw [run_handleLine]
  cases hblank : Text.trim line.toList with
  | nil => simp
  | cons c cs =>
    cases (dispatch line : Deed σ Bool) s.uninterrupted with
    | mk result s' =>
      cases result with
      | ok more => simp
      | error cause => cases hreported : cause.isReported <;> aesop

/-- A line ends the session exactly if it fails with a number that is too large. -/
theorem handleLine_fails_iff (line : String) (s : Session σ) (e : SessionError) :
    ((handleLine line : Deed σ Bool) s).1 = .error e ↔ s.LineFails line e := by
  rw [handleLine_error_iff]
  constructor
  · rintro ⟨hblank, he, herr⟩
    by_cases hexpression : (Text.trim line.toList).head? = some '.'
    · obtain ⟨cs, hcs⟩ := List.head?_eq_some_iff.mp hexpression
      rw [dispatch_command hcs] at herr
      by_cases hload : ∃ args, Text.splitWords cs = .ok ("load" :: args)
      · obtain ⟨args, hwords⟩ := hload
        rw [runCommand_load hwords, loadCommand_unreported_iff args _ he] at herr
        obtain ⟨text, cause, rfl, hreads, hrun⟩ := herr
        exact .loaded hcs hwords (reads_uninterrupted.mp hreads) hrun (isReported_source.mp he)
      · rw [reports_runCommand (fun args hargs => hload ⟨args, hargs⟩) _ e herr] at he
        cases he
    · rw [dispatch_expression hexpression, bind_pure_error_iff, evalLine_error_iff] at herr
      obtain ⟨cause, rfl, hrun⟩ := herr
      exact .evaluated hblank hexpression hrun (isReported_source.mp he)
  · rintro (⟨hblank, hexpression, hrun, hcause⟩ | ⟨hcommand, hwords, hreads, hrun, hcause⟩)
    · refine ⟨hblank, isReported_source.mpr hcause, ?_⟩
      rw [dispatch_expression hexpression, bind_pure_error_iff, evalLine_error_iff]
      exact ⟨_, rfl, hrun⟩
    · have he := isReported_source.mpr hcause
      refine ⟨by simp [hcommand], he, ?_⟩
      rw [dispatch_command hcommand, runCommand_load hwords, loadCommand_unreported_iff _ _ he]
      exact ⟨_, _, rfl, reads_uninterrupted.mpr hreads, hrun⟩

/-! ## Tomes that end a session at its start -/

/-- The start of the session fails: the cache or the tome that it names is no text, or fails without a
diagnosis; or a path with a null character is remembered. -/
inductive RestoreFails (s : Session σ) : SessionError → Prop
  | cacheUndecodable {path : Path} {cause : Text.Utf8Error}
      (hpath : cacheTarget.resolve s.environment s.settings s.files = .ok path)
      (hread : s.files.readText path = .error (.undecodable cause)) :
      RestoreFails s (.file (.undecodable cause))
  | cache {path : Path} {text : String} {cause : Error}
      (hpath : cacheTarget.resolve s.environment s.settings s.files = .ok path)
      (hread : s.files.readText path = .ok text)
      (hrun : ((World.evalTome text).run s.emptiedForCache).1 = .error cause)
      (hcause : cause.Undiagnosed text) : RestoreFails s (.source cause)
  | nullCharacter {s' : Session σ} {path : Path}
      (hcache : (loadCache : Deed σ Unit) s = (.ok (), s')) (hpath : s'.savePath? = some path)
      (hnull : '\x00' ∈ path.text.toList) : RestoreFails s (.file .embeddedNull)
  | tomeUndecodable {s' : Session σ} {path : Path} {cause : Text.Utf8Error}
      (hcache : (loadCache : Deed σ Unit) s = (.ok (), s')) (hpath : s'.savePath? = some path)
      (hread : s'.files.readText path = .error (.undecodable cause)) :
      RestoreFails s (.file (.undecodable cause))
  | tome {s' : Session σ} {path : Path} {text : String} {cause : Error}
      (hcache : (loadCache : Deed σ Unit) s = (.ok (), s')) (hpath : s'.savePath? = some path)
      (hread : s'.files.readText path = .ok text)
      (hrun : ((World.evalTome text).run s'.emptied).1 = .error cause)
      (hcause : cause.Undiagnosed text) : RestoreFails s (.source cause)

theorem undiagnosed_iff {text : String} {w : World σ} (hw : w.context = {}) {cause : Error}
    (hrun : ((World.evalTome text).run w).1 = .error cause) :
    (SessionError.source cause).isTomeFault = false ↔ cause.Undiagnosed text := by
  have htidy : w.context.Tidy := hw ▸ Context.tidy_empty
  have hroot : 0 < w.context.scopes.size := by
    rw [hw]
    decide
  exact World.evalTome_failure htidy hroot text hrun

omit [DiceSource σ] in
theorem isCacheFault_of_resolve {s : Session σ} {cause : TargetError}
    (h : cacheTarget.resolve s.environment s.settings s.files = .error cause) :
    isCacheFault (.ofTarget cause) = true := by
  rw [resolve_cacheTarget] at h
  cases hdirectory : dataDirectory s.environment s.settings with
  | error e =>
    rw [hdirectory] at h
    cases h
    rfl
  | ok directory =>
    rw [hdirectory] at h
    cases h

/-- A cache that the system does not let read fails with what is passed over. -/
theorem isCacheFault_of_unread {s : Session σ} {path : Path} {cause : FileError}
    (hpath : cacheTarget.resolve s.environment s.settings s.files = .ok path)
    (hread : s.files.readText path = .error cause) (hsystem : cause.isReportedBySystem = true)
    {e : SessionError} (h : ((loadCache : Deed σ Unit) s).1 = .error e) : isCacheFault e = true := by
  rw [run_loadCache, hpath] at h
  dsimp only at h
  cases hexists : s.files.pathExists path with
  | error e' =>
    rw [hexists] at h
    cases h
    obtain ⟨rfl, -⟩ := FileTree.pathExists_eq_error hexists
    rfl
  | ok found =>
    rw [hexists] at h
    cases found with
    | false => cases h
    | true =>
      simp only [hread] at h
      cases h
      exact hsystem

/-- How reading the cache fails and ends the session. -/
theorem loadCache_error_iff (s : Session σ) {e : SessionError} (he : isCacheFault e = false) :
    ((loadCache : Deed σ Unit) s).1 = .error e ↔
      ∃ path, cacheTarget.resolve s.environment s.settings s.files = .ok path ∧
        ((∃ cause, e = .file (.undecodable cause) ∧
            s.files.readText path = .error (.undecodable cause)) ∨
          ∃ text cause, e = .source cause ∧ s.files.readText path = .ok text ∧
            ((World.evalTome text).run s.emptiedForCache).1 = .error cause) := by
  have hrun := run_loadCache s
  cases hresolve : cacheTarget.resolve s.environment s.settings s.files with
  | error cause =>
    rw [hresolve] at hrun
    rw [hrun]
    constructor
    · rintro ⟨⟩
      rw [isCacheFault_of_resolve hresolve] at he
      cases he
    · rintro ⟨path, ⟨⟩, -⟩
  | ok path =>
    rw [hresolve] at hrun
    rcases s.files.readText_cases path with ⟨text, hread, hexists⟩ | ⟨cause, hread, hexists⟩ |
      ⟨hnull, hread, hexists⟩ | ⟨cause, hsystem, hread⟩
    · simp only [hexists, hread] at hrun
      rw [hrun]
      cases hrun : (World.evalTome text).run s.emptiedForCache with
      | mk result w =>
        cases result with
        | ok os => simp [hread, hrun]
        | error cause => simp [hread, hrun, eq_comm (a := e)]
    · simp [hrun, hexists, hread, eq_comm (a := e)]
    · simp [hrun, hexists, hread]
    · constructor
      · intro herr
        rw [isCacheFault_of_unread hresolve hread hsystem herr] at he
        cases he
      · rintro ⟨path', ⟨⟩, ⟨cause', -, hread'⟩ | ⟨text, cause', -, hread', -⟩⟩
        · rw [hread] at hread'
          cases hread'
          cases hsystem
        · rw [hread] at hread'
          cases hread'

omit [DiceSource σ] in
/-- Of a failure that is caught, what is passed over is no failure. -/
theorem caught_error_iff (passes : SessionError → Bool) (cause e : SessionError)
    (s s' : Session σ) :
    (if passes cause then ((.ok (), s) : Except SessionError Unit × Session σ)
      else (.error cause, s')).1 = .error e ↔ cause = e ∧ passes e = false := by
  cases hpasses : passes cause with
  | true =>
    constructor
    · rintro ⟨⟩
    · rintro ⟨rfl, hnone⟩
      rw [hpasses] at hnone
      cases hnone
  | false =>
    constructor
    · rintro ⟨⟩
      exact ⟨rfl, hpasses⟩
    · rintro ⟨rfl, -⟩
      rfl

/-- Without arguments the load command reads the tome whose path is remembered. -/
theorem loadCommand_remembered_error_iff {s : Session σ} {path : Path}
    (hpath : s.savePath? = some path) (e : SessionError) :
    ((loadCommand [] : Deed σ Unit) s).1 = .error e ↔
      (∃ cause, e = .file cause ∧ s.files.readText path = .error cause) ∨
        ∃ text cause, e = .source cause ∧ s.files.readText path = .ok text ∧
          ((World.evalTome text).run s.emptied).1 = .error cause := by
  have htarget : ((target [] : Deed σ SaveTarget) s).1 = .ok (.path path) := by
    rw [run_target, exitTarget, hpath]
  have hresolve : SaveTarget.resolve s.environment s.settings s.files (.path path) = .ok path :=
    rfl
  rw [loadCommand_error_iff, htarget]
  simp [loadTome_error_iff, hresolve]

/-- How loading the tome of the session before fails and ends the session. -/
theorem reloadTome_error_iff (s : Session σ) (e : SessionError) :
    ((reloadTome : Deed σ Unit) s).1 = .error e ↔
      ∃ path, s.savePath? = some path ∧ e.isTomeFault = false ∧
        ((∃ cause, e = .file cause ∧ s.files.readText path = .error cause) ∨
          ∃ text cause, e = .source cause ∧ s.files.readText path = .ok text ∧
            ((World.evalTome text).run s.emptied).1 = .error cause) := by
  rw [run_reloadTome]
  cases hpath : s.savePath? with
  | none => simp
  | some path =>
    have hload := loadCommand_remembered_error_iff hpath e
    cases hrun : (loadCommand [] : Deed σ Unit) s with
    | mk result s' =>
      rw [hrun] at hload
      cases result with
      | ok => simp [← hload]
      | error cause =>
        have hsame : (Except.error cause : Except SessionError Unit) = .error e ↔ cause = e := by
          simp
        dsimp only
        rw [caught_error_iff SessionError.isTomeFault, ← hsame, hload]
        simp [and_comm]

theorem restore_error_iff (s : Session σ) (e : SessionError) :
    ((restore : Deed σ Unit) s).1 = .error e ↔
      ((loadCache : Deed σ Unit) s).1 = .error e ∧ isCacheFault e = false ∨
      ∃ s', (loadCache : Deed σ Unit) s = (.ok (), s') ∧
        ((reloadTome : Deed σ Unit) s').1 = .error e := by
  rw [run_restore]
  cases (loadCache : Deed σ Unit) s with
  | mk result s' =>
    cases result with
    | ok =>
      constructor
      · exact fun herr => .inr ⟨s', rfl, herr⟩
      · rintro (⟨⟨⟩, -⟩ | ⟨_, ⟨⟩, herr⟩)
        exact herr
    | error cause =>
      dsimp only
      rw [caught_error_iff isCacheFault, Except.error.injEq]
      refine ⟨.inl, ?_⟩
      rintro (h | ⟨_, ⟨⟩, -⟩)
      exact h

/-- The start of a session ends it exactly if the cache or its tome is no text or fails without a
diagnosis, or if the path that the cache names has a null character. -/
theorem restore_fails_iff (s : Session σ) (e : SessionError) :
    ((restore : Deed σ Unit) s).1 = .error e ↔ s.RestoreFails e := by
  rw [restore_error_iff]
  constructor
  · rintro (⟨hcache, he⟩ | ⟨s', hcache, htome⟩)
    · rw [loadCache_error_iff s he] at hcache
      obtain ⟨path, hpath, ⟨cause, rfl, hread⟩ | ⟨text, cause, rfl, hread, hrun⟩⟩ := hcache
      · exact .cacheUndecodable hpath hread
      · exact .cache hpath hread hrun ((undiagnosed_iff rfl hrun).mp he)
    · rw [reloadTome_error_iff] at htome
      obtain ⟨path, hpath, he, ⟨cause, rfl, hread⟩ | ⟨text, cause, rfl, hread, hrun⟩⟩ := htome
      · rcases s'.files.readText_cases path with ⟨text, hok, -⟩ | ⟨cause', hbytes, -⟩ |
          ⟨hnull, hnone, -⟩ | ⟨cause', hsystem, herr⟩
        · rw [hok] at hread
          cases hread
        · rw [hbytes] at hread
          cases hread
          exact .tomeUndecodable hcache hpath hbytes
        · rw [hnone] at hread
          cases hread
          exact .nullCharacter hcache hpath hnull
        · rw [herr] at hread
          cases hread
          rw [SessionError.isTomeFault, hsystem] at he
          cases he
      · exact .tome hcache hpath hread hrun ((undiagnosed_iff rfl hrun).mp he)
  · intro h
    cases h with
    | cacheUndecodable hpath hread =>
      refine .inl ⟨?_, rfl⟩
      exact (loadCache_error_iff s rfl).mpr ⟨_, hpath, .inl ⟨_, rfl, hread⟩⟩
    | @cache path text cause hpath hread hrun hcause =>
      have he : isCacheFault (.source cause) = false := (undiagnosed_iff rfl hrun).mpr hcause
      refine .inl ⟨?_, he⟩
      exact (loadCache_error_iff s he).mpr ⟨_, hpath, .inr ⟨_, _, rfl, hread, hrun⟩⟩
    | @nullCharacter s' path hcache hpath hnull =>
      have hread : s'.files.readText path = .error .embeddedNull := by
        refine FileTree.readText_of_content_error ?_
        rw [FileTree.content, FileTree.locate_null _ hnull]
        rfl
      refine .inr ⟨s', hcache, (reloadTome_error_iff s' _).mpr ?_⟩
      exact ⟨path, hpath, rfl, .inl ⟨_, rfl, hread⟩⟩
    | @tomeUndecodable s' path cause hcache hpath hread =>
      refine .inr ⟨s', hcache, (reloadTome_error_iff s' _).mpr ?_⟩
      exact ⟨path, hpath, rfl, .inl ⟨_, rfl, hread⟩⟩
    | @tome s' path text cause hcache hpath hread hrun hcause =>
      refine .inr ⟨s', hcache, (reloadTome_error_iff s' _).mpr ?_⟩
      exact ⟨path, hpath, (undiagnosed_iff rfl hrun).mpr hcause, .inr ⟨text, cause, rfl, hread, hrun⟩⟩

/-- A line ends the session with nothing but a number that is too large, and its start with nothing
but what `RestoreFails` lists. -/
theorem ends_iff (s : Session σ) :
    (∀ line e, ((handleLine line : Deed σ Bool) s).1 = .error e ↔ s.LineFails line e) ∧
      ∀ e, ((restore : Deed σ Unit) s).1 = .error e ↔ s.RestoreFails e :=
  ⟨fun line => handleLine_fails_iff line s, restore_fails_iff s⟩

/-- A session whose cache names a path with a null character. -/
def unnameable : Session ScriptedDice where
  world := { dice := {} }
  cacheDice := {}
  settings := { dataDir := some { parts := ["tomes"] } }
  files := ⟨[({ names := ["tomes"] }, .directory),
    ({ names := ["tomes", "_cache.tome"] }, .file (.text "SAVE_PATH = \"a\x00b.tome\"\n"))]⟩

/-- The start of that session fails, although its files are texts. -/
theorem not_returns :
    ¬ ∀ s : Session ScriptedDice, s.world.context.Reachable →
      (∀ p c, (p, Entry.file c) ∈ s.files.entries → ∃ text, c = .text text) →
      (∃ s', (restore : Deed ScriptedDice Unit) s = (.ok (), s')) ∧
        ∀ line, ∃ more s', (handleLine line : Deed ScriptedDice Bool) s = (.ok more, s') := by
  intro h
  have htexts : ∀ p c, (p, Entry.file c) ∈ unnameable.files.entries → ∃ text, c = .text text := by
    intro p c hmem
    rcases List.mem_cons.mp hmem with hfirst | hmem
    · cases hfirst
    · obtain hlast := List.mem_singleton.mp hmem
      cases hlast
      exact ⟨_, rfl⟩
  have hfails : ((restore : Deed ScriptedDice Unit) unnameable).1.isOk = false := by
    decide +kernel
  obtain ⟨⟨s', hrun⟩, -⟩ := h unnameable .start htexts
  rw [hrun] at hfails
  cases hfails

end Session

end DiceTome
