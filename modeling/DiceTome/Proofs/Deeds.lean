import DiceTome.Proofs.Leaving

/-!
# What the steps of a session do

The steps of a session are written as programs that may fail. Here each of them is an equation: what
it answers, and the session that it leaves, given the session that it finds. A tome is read,
evaluated in an empty context, and its context put in the place of the old one; if the tome fails, the
old context stays, but the dice have been thrown and the lines have been written. The cache is read
the same way, with dice of its own and beside the context of the session.

* `Session.loadTome` is what the load command does to the session before it says so;
  `Session.run_loadCommand` puts the command together from it.
* `Session.run_loadCache` and `Session.run_reloadTome` are the two halves of the start of a session.
* `Session.run_handleLine`, `Session.run_runCommand` and `Session.run_evalLine` are what becomes of a
  line.
-/

namespace DiceTome.Session

open Step

variable {σ : Type}

/-! ## Reading -/

theorem run_resolve (target : SaveTarget) (s : Session σ) :
    (resolve target : Deed σ Path) s =
      ((target.resolve s.environment s.settings s.files).mapError .ofTarget, s) := rfl

theorem run_readTome (target : SaveTarget) (s : Session σ) :
    (readTome target : Deed σ (String × Path)) s =
      match target.resolve s.environment s.settings s.files with
      | .error e => (.error (.ofTarget e), s)
      | .ok path =>
        match s.files.readText path with
        | .error e => (.error (.file e), s)
        | .ok text => (.ok (text, path), s) := by
  simp only [readTome, run_bind, run_resolve, run_get, run_check]
  cases target.resolve s.environment s.settings s.files with
  | error e => rfl
  | ok path =>
    simp only [mapError_ok]
    cases s.files.readText path <;> rfl

/-- The target of a command is found without any change to the session. -/
theorem target_snd (args : List String) (s : Session σ) :
    ((target args : Deed σ SaveTarget) s).2 = s := by
  match args with
  | [] => rw [run_target]
  | [arg] => rfl
  | _ :: _ :: _ => rfl

/-! ## Answers that are told by a test -/

theorem eq_ok_of_toOption {x : Except ε α} {a : α} (h : x.toOption = some a) : x = .ok a := by
  cases x with
  | error e => cases h
  | ok b => exact congrArg Except.ok (Option.some.inj h)

theorem eq_ok_of_isOk {x : Except SessionError Unit × Session σ} (h : x.1.isOk = true) :
    x = (.ok (), x.2) := by
  obtain ⟨result, s⟩ := x
  cases result with
  | error e => cases h
  | ok => rfl

/-! ## Evaluating in an empty context -/

/-- The world of the session, with nothing defined. -/
def emptied (s : Session σ) : World σ :=
  { s.world with context := {} }

/-- The world in which the cache is read: the one of the session, with nothing defined and with the
dice for the cache. -/
def emptiedForCache (s : Session σ) : World σ :=
  { s.world with context := {}, dice := s.cacheDice }

/-- The session after a world has been made from its own, but for its context and its dice, and from
a cache and the dice for it. -/
def besides (s : Session σ) (cache : Context) (w : World σ) : Session σ :=
  { s with
    cache
    cacheDice := w.dice
    world := { w with context := s.world.context, dice := s.world.dice } }

variable [DiceSource σ]

/-- A tome in an empty context. -/
theorem run_evalTome_emptied (text : String) (w : World σ) :
    (do
      modify fun w => { w with context := {} }
      let _ ← World.evalTome text : Act σ Unit) w =
    match (World.evalTome text).run { w with context := {} } with
    | (.ok _, w) => (.ok (), w)
    | (.error e, w) => (.error e, w) := by
  change ((modify fun w => { w with context := {} }) >>= fun _ => World.evalTome text >>=
    fun _ => pure () : Act σ Unit) w = _
  rw [run_bind]
  change (World.evalTome text >>= fun _ => pure () : Act σ Unit) { w with context := {} } = _
  rw [run_bind]
  cases hrun : (World.evalTome text) { w with context := {} } with
  | mk result w' =>
    rw [ExceptT.run, hrun]
    cases result <;> rfl

theorem run_replaceContext (text : String) (s : Session σ) :
    (replaceContext text : Deed σ Unit) s =
      match (World.evalTome text).run s.emptied with
      | (.ok _, w) => (.ok (), { s with world := w })
      | (.error e, w) =>
        (.error (.source e), { s with world := { w with context := s.world.context } }) := by
  have hopen : (inWorld (do
      modify fun w => { w with context := {} }
      let _ ← World.evalTome text) : Deed σ Unit) s =
      match (World.evalTome text).run s.emptied with
      | (.ok _, w) => (.ok (), { s with world := w })
      | (.error e, w) => (.error (.source e), { s with world := w }) := by
    rw [inWorld, ExceptT.run, run_evalTome_emptied, emptied]
    cases (World.evalTome text).run { s.world with context := {} } with
    | mk result w => cases result <;> rfl
  rw [replaceContext, run_bind, run_get]
  dsimp only
  rw [run_tryCatch, hopen]
  cases (World.evalTome text).run s.emptied with
  | mk result w => cases result <;> rfl

theorem run_replaceCache (text : String) (s : Session σ) :
    (replaceCache text : Deed σ Unit) s =
      match (World.evalTome text).run s.emptiedForCache with
      | (.ok _, w) => (.ok (), s.besides w.context w)
      | (.error e, w) => (.error (.source e), s.besides s.cache w) := by
  have hopen : (inCache (do
      modify fun w => { w with context := {} }
      let _ ← World.evalTome text) : Deed σ Unit) s =
      match (World.evalTome text).run s.emptiedForCache with
      | (.ok _, w) => (.ok (), s.besides w.context w)
      | (.error e, w) => (.error (.source e), s.besides w.context w) := by
    rw [inCache, ExceptT.run, run_evalTome_emptied, emptiedForCache]
    cases (World.evalTome text).run { s.world with context := {}, dice := s.cacheDice } with
    | mk result w => cases result <;> rfl
  rw [replaceCache, run_bind, run_get]
  dsimp only
  rw [run_tryCatch, hopen]
  cases (World.evalTome text).run s.emptiedForCache with
  | mk result w => cases result <;> rfl

/-! ## The load command -/

/-- Replaces the context of the session by the tome at a target, and gives its path. -/
def loadTome (target : SaveTarget) : Deed σ Path := do
  let (text, path) ← readTome target
  replaceContext text
  record (.loaded path.text)
  return path

theorem run_loadTome (target : SaveTarget) (s : Session σ) :
    (loadTome target : Deed σ Path) s =
      match target.resolve s.environment s.settings s.files with
      | .error e => (.error (.ofTarget e), s)
      | .ok path =>
        match s.files.readText path with
        | .error e => (.error (.file e), s)
        | .ok text =>
          match (World.evalTome text).run s.emptied with
          | (.ok _, w) => (.ok path, recorded { s with world := w } [.loaded path.text])
          | (.error e, w) =>
            (.error (.source e), { s with world := { w with context := s.world.context } }) := by
  simp only [loadTome, run_bind, run_readTome]
  cases target.resolve s.environment s.settings s.files with
  | error e => rfl
  | ok path =>
    dsimp only
    cases s.files.readText path with
    | error e => rfl
    | ok text =>
      simp only [run_replaceContext]
      cases (World.evalTome text).run s.emptied with
      | mk result w => cases result <;> rfl

/-- The load command loads the tome at its target and remembers the path. -/
theorem run_loadCommand (args : List String) (s : Session σ) :
    (loadCommand args : Deed σ Unit) s =
      match ((target args : Deed σ SaveTarget) s).1 with
      | .error e => (.error e, s)
      | .ok target =>
        if target = .generated then (.error (.command .loadUsage), s)
        else
          match (loadTome target : Deed σ Path) s with
          | (.error e, s) => (.error e, s)
          | (.ok path, s) =>
            (.ok (), ((s.remembering path).printed s!"Loaded {path.text}").printed "\n") := by
  have htarget := target_snd args s
  simp only [loadCommand, run_bind]
  cases hrun : (target args : Deed σ SaveTarget) s with
  | mk result s' =>
    rw [hrun] at htarget
    obtain rfl : s = s' := htarget.symm
    cases result with
    | error e => rfl
    | ok t =>
      dsimp only
      by_cases ht : t = .generated
      · rw [if_pos ht, if_pos ht]
        rfl
      · rw [if_neg ht, if_neg ht]
        simp only [run_bind, run_loadTome, run_readTome]
        cases t.resolve s.environment s.settings s.files with
        | error e => rfl
        | ok path =>
          dsimp only
          cases s.files.readText path with
          | error e => rfl
          | ok text =>
            simp only [run_replaceContext]
            cases (World.evalTome text).run s.emptied with
            | mk result w => cases result <;> rfl

/-! ## The start of a session -/

theorem run_loadCache (s : Session σ) :
    (loadCache : Deed σ Unit) s =
      match cacheTarget.resolve s.environment s.settings s.files with
      | .error e => (.error (.ofTarget e), s)
      | .ok path =>
        match s.files.pathExists path with
        | .error e => (.error (.file e), s)
        | .ok false => (.ok (), { s with cache := {} })
        | .ok true =>
          match s.files.readText path with
          | .error e => (.error (.file e), s)
          | .ok text =>
            match (World.evalTome text).run s.emptiedForCache with
            | (.ok _, w) => (.ok (), (s.besides w.context w).recorded [.loaded path.text])
            | (.error e, w) => (.error (.source e), s.besides s.cache w) := by
  simp only [loadCache, run_bind, run_resolve, run_get, run_check]
  cases hresolve : cacheTarget.resolve s.environment s.settings s.files with
  | error e => rfl
  | ok path =>
    simp only [mapError_ok]
    cases s.files.pathExists path with
    | error e => rfl
    | ok found =>
      cases found with
      | false => rfl
      | true =>
        simp only [mapError_ok, run_bind, run_readTome, hresolve, if_true]
        cases s.files.readText path with
        | error e => rfl
        | ok text =>
          simp only [run_replaceCache]
          cases (World.evalTome text).run s.emptiedForCache with
          | mk result w => cases result <;> rfl

theorem run_reloadTome (s : Session σ) :
    (reloadTome : Deed σ Unit) s =
      match s.savePath? with
      | none => (.ok (), s)
      | some path =>
        match (loadCommand [] : Deed σ Unit) s with
        | (.ok _, s) => (.ok (), s)
        | (.error e, s) =>
          if e.isTomeFault then
            (.ok (), (s.printed s!"Error loading {path.text}: {e.message}").printed "\n")
          else (.error e, s) := by
  rw [reloadTome, run_bind, run_get]
  dsimp only
  cases s.savePath? with
  | none => rfl
  | some path =>
    dsimp only
    rw [run_tryCatch]
    cases (loadCommand [] : Deed σ Unit) s with
    | mk result s =>
      cases result with
      | ok => rfl
      | error e => cases hfault : e.isTomeFault <;> simp only [hfault] <;> rfl

theorem run_restore (s : Session σ) :
    (restore : Deed σ Unit) s =
      match (loadCache : Deed σ Unit) s with
      | (.ok _, s) => (reloadTome : Deed σ Unit) s
      | (.error e, s) =>
        if isCacheFault e then (.ok (), s.recorded [.unreadableCache e.message])
        else (.error e, s) := by
  rw [restore, run_bind, run_tryCatch, run_bind]
  cases (loadCache : Deed σ Unit) s with
  | mk result s =>
    cases result with
    | ok => rfl
    | error e => cases hfault : isCacheFault e <;> simp only [hfault] <;> rfl

/-! ## Lines -/

theorem run_evalLine (line : String) (s : Session σ) :
    (evalLine line : Deed σ Unit) s =
      match (World.evalSource line).run s.world with
      | (.error e, w) => (.error (.source e), { s with world := w })
      | (.ok o, w) =>
        if o.text.isEmpty then (.ok (), { s with world := w })
        else (.ok (), (printed { s with world := w } o.text).printed "\n") := by
  have hsource : (inWorld (World.evalSource line) : Deed σ Outcome) s =
      (((World.evalSource line).run s.world).1.mapError .source,
        { s with world := ((World.evalSource line).run s.world).2 }) := rfl
  rw [evalLine, run_bind, hsource]
  cases (World.evalSource line).run s.world with
  | mk result w =>
    cases result with
    | error e => rfl
    | ok o => cases htext : o.text.isEmpty <;> simp only [mapError_ok, htext] <;> rfl

/-- Runs a command, given as its words. -/
def runWords : List String → Deed σ Bool
  | [] => throw (.command .noCommand)
  | "save" :: args => do saveCommand args; return true
  | "load" :: args => do loadCommand args; return true
  | "exit" :: args => do exitCommand args; return false
  | name :: _ => throw (.command (.unknownCommand name))

theorem run_runCommand (cs : List Char) (s : Session σ) :
    (runCommand cs : Deed σ Bool) s =
      match Text.splitWords cs with
      | .error e => (.error (.command (.words e)), s)
      | .ok words => (runWords words : Deed σ Bool) s := by
  have hwords : (runCommand cs : Deed σ Bool) =
      check (fun e => .command (.words e)) (Text.splitWords cs) >>= runWords := rfl
  rw [hwords, run_bind, run_check]
  cases Text.splitWords cs <;> rfl

theorem run_handleLine (line : String) (s : Session σ) :
    (handleLine line : Deed σ Bool) s =
      if (Text.trim line.toList).isEmpty then (.ok true, s.uninterrupted)
      else
        match (dispatch line : Deed σ Bool) s.uninterrupted with
        | (.ok more, s) => (.ok more, s)
        | (.error e, s) =>
          if e.isReported then (.ok true, (s.printed e.message).printed "\n")
          else (.error e, s) := by
  have hforget : (modify fun s => { s with interrupted := false } : Deed σ Unit) s =
      (.ok (), s.uninterrupted) := rfl
  rw [handleLine, run_bind, hforget]
  dsimp only
  cases (Text.trim line.toList).isEmpty with
  | true => rfl
  | false =>
    simp only [Bool.false_eq_true, if_false, run_bind, run_tryCatch]
    cases (dispatch line : Deed σ Bool) s.uninterrupted with
    | mk result s =>
      cases result with
      | ok more => rfl
      | error e => cases hreported : e.isReported <;> simp only [hreported] <;> rfl

theorem dispatch_command {line : String} {cs : List Char}
    (h : Text.trim line.toList = '.' :: cs) : (dispatch line : Deed σ Bool) = runCommand cs := by
  simp only [dispatch, h]

theorem dispatch_expression {line : String} (h : (Text.trim line.toList).head? ≠ some '.') :
    (dispatch line : Deed σ Bool) = evalLine line >>= fun _ => pure true := by
  unfold dispatch
  split
  · rename_i hline
    rw [hline] at h
    exact absurd rfl h
  · rfl

end DiceTome.Session
