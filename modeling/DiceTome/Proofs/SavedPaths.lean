import DiceTome.Proofs.DumpOrder
import DiceTome.Proofs.Exits
import DiceTome.Proofs.SaveAndLoad

/-!
# What a saving exit leaves behind

A session that is left with saving writes its context to a tome, remembers the path of the tome, and
writes the cache, which is a tome as well. The next session gets the path back from the text of the
cache, if that text survives the file, and finds the context in the tome, if the cache has not been
written to the same place.

* `Path.ofString_text`: a path is read back from its text.
* `Context.Reloadable`: contexts that come back from their text; `Context.Reloadable.run_dump` says
  what the text makes.
* `Session.leaves_of_leave`: what a saving exit has written where.
* `Session.loadCache_of_reloadable`: a cache is read back from its file.
* `Session.saved_iff`: when the tome and the cache hold what was saved.
-/

namespace DiceTome

open Step Token

/-! ## Paths and their texts -/

namespace Path

/-- A path that a text spells: its names are no names that are dropped, and have no slashes. -/
structure IsNormal (p : Path) : Prop where
  root : p.root ∈ ["", "/", "//"]
  parts : ∀ part ∈ p.parts, part ≠ "" ∧ part ≠ "." ∧ '/' ∉ part.toList

theorem pieces_append {name : List Char} (h : '/' ∉ name) (cs : List Char) :
    pieces (name ++ '/' :: cs) = name :: pieces cs := by
  induction name with
  | nil => rfl
  | cons c name ih =>
    rw [List.mem_cons, not_or] at h
    rw [List.cons_append, pieces, if_neg (by simpa using Ne.symm h.1), ih h.2]

theorem pieces_name {name : List Char} (h : '/' ∉ name) : pieces name = [name] := by
  induction name with
  | nil => rfl
  | cons c name ih =>
    rw [List.mem_cons, not_or] at h
    rw [pieces, if_neg (by simpa using Ne.symm h.1), ih h.2]

theorem slash_not_mem_pieces {cs piece : List Char} (h : piece ∈ pieces cs) : '/' ∉ piece := by
  induction cs generalizing piece with
  | nil =>
    rw [List.mem_singleton.mp h]
    exact List.not_mem_nil
  | cons c cs ih =>
    rw [pieces] at h
    split at h
    · rcases List.mem_cons.mp h with rfl | h
      · exact List.not_mem_nil
      · exact ih h
    · rename_i hc
      have hslash : '/' ≠ c := fun heq => hc (beq_iff_eq.mpr heq.symm)
      split at h
      · rw [List.mem_singleton.mp h]
        simpa using hslash
      · rename_i first rest hpieces
        rcases List.mem_cons.mp h with rfl | h
        · rw [List.mem_cons, not_or]
          exact ⟨hslash, ih (hpieces ▸ List.mem_cons_self)⟩
        · exact ih (hpieces ▸ List.mem_cons_of_mem _ h)

/-- Names that are joined by slashes are the pieces between them. -/
theorem pieces_intercalate {parts : List String} (h : ∀ part ∈ parts, '/' ∉ part.toList)
    (hne : parts ≠ []) : pieces ("/".intercalate parts).toList = parts.map String.toList := by
  rw [String.toList_intercalate]
  induction parts with
  | nil => exact absurd rfl hne
  | cons part parts ih =>
    have hpart := h part List.mem_cons_self
    cases parts with
    | nil => simpa using pieces_name hpart
    | cons next parts =>
      have hrest := ih (fun p hp => h p (List.mem_cons_of_mem _ hp)) nofun
      rw [List.map_cons, List.map_cons, List.intercalate_cons_cons, ← List.map_cons, List.append_assoc]
      have hslash : "/".toList ++ List.intercalate "/".toList (List.map String.toList (next :: parts)) =
          '/' :: List.intercalate "/".toList (List.map String.toList (next :: parts)) := rfl
      rw [hslash, pieces_append hpart, hrest]

theorem isNormal_ofString (s : String) : (ofString s).IsNormal where
  root := by
    unfold ofString rootOf
    split <;> simp
  parts part hpart := by
    obtain ⟨hmem, hkept⟩ := List.mem_filter.mp hpart
    obtain ⟨piece, hpiece, rfl⟩ := List.mem_map.mp hmem
    simp only [decide_eq_true_eq] at hkept
    refine ⟨hkept.1, hkept.2, ?_⟩
    rw [String.toList_ofList]
    exact slash_not_mem_pieces hpiece

theorem IsNormal.child {p : Path} (h : p.IsNormal) (name : String) : (p.child name).IsNormal := by
  have hname := isNormal_ofString name
  unfold Path.child join
  split
  · refine ⟨h.root, fun part hpart => ?_⟩
    rcases List.mem_append.mp hpart with hpart | hpart
    · exact h.parts part hpart
    · exact hname.parts part hpart
  · exact hname

theorem rootOf_append {root : String} (h : root ∈ ["", "/", "//"]) {cs : List Char}
    (hcs : cs.head? ≠ some '/') : rootOf (root.toList ++ cs) = root := by
  have hnone : cs.takeWhile (· == '/') = [] := by
    cases cs with
    | nil => rfl
    | cons c cs =>
      have hc : c ≠ '/' := fun heq => hcs (heq ▸ rfl)
      rw [List.takeWhile_cons_of_neg (by simpa using hc)]
  simp only [List.mem_cons, List.not_mem_nil, or_false] at h
  rcases h with rfl | rfl | rfl <;> simp [rootOf, hnone]

/-- The names of a text behind a root. -/
theorem names_append {root : String} (h : root ∈ ["", "/", "//"]) (cs : List Char) :
    ((pieces (root.toList ++ cs)).map String.ofList).filter (fun part => part ≠ "" ∧ part ≠ ".") =
      ((pieces cs).map String.ofList).filter fun part => part ≠ "" ∧ part ≠ "." := by
  simp only [List.mem_cons, List.not_mem_nil, or_false] at h
  rcases h with rfl | rfl | rfl
  · rfl
  · rfl
  · rfl

/-- A path is read back from its text. -/
theorem ofString_text {p : Path} (h : p.IsNormal) : ofString p.text = p := by
  obtain ⟨root, parts⟩ := p
  obtain ⟨hroot, hparts⟩ := h
  dsimp only at hroot hparts
  cases parts with
  | nil =>
    simp only [List.mem_cons, List.not_mem_nil, or_false] at hroot
    rcases hroot with rfl | rfl | rfl <;> decide
  | cons first parts =>
    have htext : text ⟨root, first :: parts⟩ = root ++ "/".intercalate (first :: parts) := by
      simp [text]
    have hpieces := pieces_intercalate (fun part hpart => (hparts part hpart).2.2)
      (List.cons_ne_nil first parts)
    have hhead : ("/".intercalate (first :: parts)).toList.head? ≠ some '/' := by
      intro hslash
      obtain ⟨cs, hcs⟩ := List.head?_eq_some_iff.mp hslash
      rw [hcs, pieces, if_pos (by decide), List.map_cons, List.cons.injEq] at hpieces
      exact (hparts first List.mem_cons_self).1 (String.toList_eq_nil_iff.mp hpieces.1.symm)
    have hids : (first :: parts).map (String.ofList ∘ String.toList) = first :: parts := by
      have hid : String.ofList ∘ String.toList = id := funext fun _ => String.ofList_toList
      rw [hid, List.map_id]
    have hkept : ∀ part ∈ first :: parts, decide (part ≠ "" ∧ part ≠ ".") = true :=
      fun part hpart => decide_eq_true ⟨(hparts part hpart).1, (hparts part hpart).2.1⟩
    rw [htext, ofString, String.toList_append, rootOf_append hroot hhead, names_append hroot, hpieces,
      List.map_map, hids, List.filter_eq_self.mpr hkept]

end Path

theorem SaveTarget.resolve_generated {env : Environment} {settings : Settings} {files : FileTree}
    {path : Path} (h : generated.resolve env settings files = .ok path) :
    ∃ directory index, dataDirectory env settings = .ok directory ∧
      path = generatedPath directory index := by
  rw [resolve] at h
  cases hdirectory : dataDirectory env settings with
  | error e =>
    rw [hdirectory] at h
    cases h
  | ok directory =>
    simp only [hdirectory, Session.mapError_ok, bind, Except.bind] at h
    cases hfree : freeIndex files directory with
    | error e =>
      rw [hfree] at h
      cases h
    | ok index =>
      rw [hfree] at h
      cases h
      exact ⟨directory, index, rfl, rfl⟩

/-! ## Caches that come back -/

namespace Context

/-- The functions and the variables of the root scope come back from the text of the context. -/
structure Reloadable (c : Context) : Prop where
  lawful : c.Lawful Expr.Parsed
  faithful : ∀ f ∈ c.rootScope.functions, f.body.All Expr.Faithful
  stable : ∀ p ∈ c.rootScope.values, p.2.isEmpty = false → p.2.isStable = true
  size_pos : 0 < c.scopes.size

theorem reloadable_empty : ({} : Context).Reloadable where
  lawful := lawful_empty
  faithful f hf := by
    obtain ⟨n, hn⟩ := Scope.mem_functions.mp hf
    cases hn
  stable := nofun
  size_pos := Nat.zero_lt_one

variable {c : Context}

theorem Reloadable.rootScope_bind (h : c.Reloadable) (name : String) (b : Binding) :
    (c.bind Context.root name b).rootScope = c.rootScope.insert name b :=
  Context.rootScope_bind h.size_pos name b

theorem Reloadable.find?_bind (h : c.Reloadable) (name : String) (b : Binding) :
    (c.bind Context.root name b).rootScope.find? name = some b := by
  rw [h.rootScope_bind, Scope.find?_insert, if_pos rfl]

/-- A context stays reloadable when a text is assigned to a name. -/
theorem Reloadable.bind_text (h : c.Reloadable) {name : String} (hname : (Expr.name name).Parsed)
    (text : String) : (c.bind Context.root name (.value (.string text))).Reloadable := by
  have hroot := h.rootScope_bind name (.value (.string text))
  refine ⟨h.lawful.bind Context.root ⟨hname, trivial⟩, fun f hf => ?_, fun p hp => ?_, ?_⟩
  · rw [hroot, Scope.mem_functions] at hf
    obtain ⟨n, hn⟩ := hf
    rcases Scope.mem_insertInto hn with ⟨-, hnew⟩ | hold
    · cases hnew
    · exact h.faithful f (Scope.mem_functions.mpr ⟨n, hold⟩)
  · obtain ⟨n, v⟩ := p
    rw [hroot, Scope.mem_values] at hp
    rcases Scope.mem_insertInto hp with ⟨-, hnew⟩ | hold
    · cases hnew
      exact fun _ => rfl
    · exact h.stable (n, v) (Scope.mem_values.mpr hold)
  · rw [Context.bind, size_modifyScope]
    exact h.size_pos

/-- The text of a reloadable context makes a reloadable one with the same values. -/
theorem Reloadable.run_dump (h : c.Reloadable) {σ : Type} [DiceSource σ] {w : World σ}
    (hw : w.context = {}) :
    ∃ os w', (World.evalTome c.dump).run w = (.ok os, w') ∧ w'.context.Reloadable ∧
      w'.context.rootScope.values = c.saved := by
  have hspelled : ∀ f ∈ c.rootScope.functions, f.body.All Expr.Spelled := fun f hf =>
    Expr.spelled_of_faithful (h.lawful.function hf).body (h.faithful f hf)
  have hreadable : ∀ f ∈ c.rootScope.functions, f.body.All Expr.Readable := fun f hf =>
    Expr.readable_of_faithful (h.lawful.function hf).body (h.faithful f hf)
  have hstable : ∀ p ∈ c.saved, p.2.isStable = true := fun p hp =>
    h.stable p (mem_saved.mp hp).1 (mem_saved.mp hp).2
  have hread := readAs_of_stable fun p hp => ⟨(h.lawful.saved hp).2, hstable p hp⟩
  obtain ⟨os, w', hrun, hcontext⟩ := h.lawful.run_dump hspelled hread hw
  rw [rebound_functions hreadable] at hcontext
  have hvalues : w'.context.rootScope.values = c.saved := hcontext ▸ values_holding _ _
  have hsignatures : c.rootScope.functions.map Function.signature =
      w'.context.rootScope.functions.map Function.signature := by
    rw [hcontext, functions_holding, signature_redeclared]
  have hlawful : w'.context.Lawful Expr.Parsed := by
    have hstart : w.context.Played := hw ▸ .start
    have htome := (hstart.tome c.dump).lawful
    rwa [hrun] at htome
  refine ⟨os, w', hrun, ⟨hlawful, fun f hf => ?_, fun p hp _ => ?_, ?_⟩, hvalues⟩
  · obtain ⟨f', hf', hbody⟩ := mem_of_signature hsignatures hf
    exact hbody ▸ h.faithful f' hf'
  · exact hstable p (hvalues ▸ hp)
  · rw [hcontext]
    exact Nat.zero_lt_one

theorem Reloadable.find?_value_iff (h : c.Reloadable) {name : String} {v : Value} :
    c.rootScope.find? name = some (.value v) ↔ (name, v) ∈ c.rootScope.values := by
  rw [Scope.mem_values]
  constructor
  · intro hfind
    obtain ⟨before, behind, hsplit, -⟩ := List.lookup_eq_some_iff.mp hfind
    simp [hsplit]
  · exact Scope.find?_of_mem h.lawful.rootScope.nodup

end Context

namespace Session

variable {σ : Type} {s t : Session σ} {path cachePath : Path}

/-! ## The two files of a saving exit -/

/-- What a saving exit leaves behind in `s` when it is met in `t`: the cache remembers `path`, and
the two files hold the cache and the context, unless they are one file, which holds the cache. -/
structure Leaves (t s : Session σ) (path cachePath : Path) : Prop where
  tome : t.exitTarget.resolve t.environment t.settings t.files = .ok path
  cacheFile : cacheTarget.resolve t.environment t.settings t.files = .ok cachePath
  settings : s.settings = t.settings
  environment : s.environment = t.environment
  cache : s.cache = (t.remembering path).cache
  output : s.world.output = t.world.output ++ s!"Saved to {path.text}" ++ "\n"
  cacheContent : s.files.content cachePath = .ok (.text s.cache.dump)
  content : s.files.content path = .ok (if path.place = cachePath.place then .text s.cache.dump
    else .text s.world.context.dump)

/-- Whether the journal does not end with a cache that could not be written. -/
def cacheWritten (s : Session σ) : Bool :=
  match s.world.journal.back? with
  | some (.unwritableCache _) => false
  | _ => true

theorem writeCache_ok (h : (writeCache : Deed σ Unit) t = (.ok (), s))
    (hwritten : s.cacheWritten = true) :
    ∃ cachePath, saveContext t.cache cacheTarget t = (.ok cachePath, s) := by
  rw [run_writeCache] at h
  cases hsave : saveContext t.cache cacheTarget t with
  | mk result u =>
    rw [hsave] at h
    cases result with
    | ok cachePath =>
      cases h
      exact ⟨cachePath, rfl⟩
    | error e =>
      dsimp only at h
      split at h
      · cases h
        simp [cacheWritten, recorded] at hwritten
      · cases h

theorem leaves_of_leave (h : (leave false : Deed σ Unit) t = (.ok (), s))
    (hwritten : s.cacheWritten = true) :
    ∃ path cachePath, Leaves t s path cachePath := by
  rw [leave_false, run_bind] at h
  cases hsave : (saveCommand [] : Deed σ Unit) t with
  | mk result u =>
    rw [hsave] at h
    cases result with
    | error e => cases h
    | ok =>
      obtain ⟨path, hsaves⟩ := saves_of_saveCommand hsave
      obtain ⟨cachePath, hwrite⟩ := writeCache_ok h hwritten
      obtain ⟨hcache, hsettings, henvironment, hcontext, houtput⟩ := unchanged_of_saveContext hwrite
      have hcachePath := (saveContext_ok hwrite).1
      have hcacheContent := content_of_saveContext hwrite
      have hcontent := content_after_saveContext hwrite hsaves.content
      rw [← hcache] at hcacheContent
      rw [← hcache, ← hcontext] at hcontent
      rw [resolve_cacheTarget, hsaves.environment, hsaves.settings, ← resolve_cacheTarget]
        at hcachePath
      exact ⟨path, cachePath, hsaves.tome, hcachePath, hsettings.trans hsaves.settings,
        henvironment.trans hsaves.environment, hcache.trans hsaves.cache,
        houtput.trans hsaves.output, hcacheContent, hcontent⟩

/-- The cache comes back from its text, and the directory of the tomes from its own. -/
structure Ready (s : Session σ) : Prop where
  cache : s.cache.Reloadable
  directory : ∀ directory, dataDirectory s.environment s.settings = .ok directory →
    directory.IsNormal

theorem isNormal_savePath? (h : s.savePath? = some path) : path.IsNormal := by
  unfold savePath? at h
  split at h
  · cases h
    exact Path.isNormal_ofString _
  · cases h

/-- The path to save to comes back from its text. -/
theorem Ready.isNormal (h : s.Ready)
    (hpath : s.exitTarget.resolve s.environment s.settings s.files = .ok path) : path.IsNormal := by
  cases hsave : s.savePath? with
  | some p =>
    rw [exitTarget, hsave] at hpath
    cases hpath
    exact isNormal_savePath? hsave
  | none =>
    rw [exitTarget, hsave] at hpath
    obtain ⟨directory, index, hdirectory, rfl⟩ := SaveTarget.resolve_generated hpath
    exact (h.directory directory hdirectory).child _

theorem Ready.remembering (h : s.Ready) (path : Path) : (s.remembering path).Ready :=
  ⟨h.cache.bind_text ⟨by decide, by decide⟩ path.text, h.directory⟩

theorem Ready.run [DiceSource σ] (h : s.Ready) (prompt : String) (inputs : List Input) :
    (run prompt inputs s).2.Ready := by
  have hworld : Unworldly (@Ready σ) := fun _ _ _ h => ⟨h.cache, h.directory⟩
  have hfiles : Fileless (@Ready σ) := fun _ _ h => ⟨h.cache, h.directory⟩
  exact keeps_run hworld prompt
    (fun input _ => keeps_handleInput hworld (fun _ path h => h.remembering path) hfiles input) h

/-! ## Reading the cache back -/

variable [DiceSource σ]

/-- A cache whose file is there is read by evaluating what the file gives in an empty context. -/
theorem loadCache_of_content {text : String}
    (hresolve : cacheTarget.resolve s.environment s.settings s.files = .ok cachePath)
    (h : s.files.content cachePath = .ok (.text text)) :
    (loadCache : Deed σ Unit) s =
      match (World.evalTome (throughFile text)).run s.emptiedForCache with
      | (.ok _, w) => (.ok (), (s.besides w.context w).recorded [.loaded cachePath.text])
      | (.error e, w) => (.error (.source e), s.besides s.cache w) := by
  obtain ⟨hlocate, hentry⟩ := FileTree.content_eq_ok_iff.mp h
  have hexists : s.files.pathExists cachePath = .ok true := by
    simp only [FileTree.pathExists, hlocate, hentry, Option.isSome_some]
  have hread : s.files.readText cachePath = .ok (throughFile text) := FileTree.readText_of_content h
  cases hrun : (World.evalTome (throughFile text)).run s.emptiedForCache with
  | mk result w =>
    cases result with
    | error e => simp only [run_loadCache, hresolve, hexists, hread, hrun]
    | ok os => simp only [run_loadCache, hresolve, hexists, hread, hrun]

/-- A reloadable cache without a carriage return in its text is read back from its file, and is
reloadable again. -/
theorem loadCache_of_reloadable {c : Context} (hc : c.Reloadable)
    (hresolve : cacheTarget.resolve s.environment s.settings s.files = .ok cachePath)
    (h : s.files.content cachePath = .ok (.text c.dump)) (hreturn : '\r' ∉ c.dump.toList) :
    ∃ t, (loadCache : Deed σ Unit) s = (.ok (), t) ∧ t.cache.Reloadable ∧
      t.cache.rootScope.values = c.saved := by
  have hempty : s.emptiedForCache.context = {} := rfl
  obtain ⟨os, w, hrun, hreloadable, hvalues⟩ := hc.run_dump hempty
  rw [loadCache_of_content hresolve h, throughFile_eq hreturn, hrun]
  exact ⟨_, rfl, hreloadable, hvalues⟩

/-- The path that a cache remembers is read back from the file of the cache exactly if there is no
carriage return in the text of the cache. -/
theorem savePath?_loadCache_iff {c : Context} (hc : c.Reloadable) (hnormal : path.IsNormal)
    (hfind : c.rootScope.find? savePathName = some (.value (.string path.text)))
    (hresolve : cacheTarget.resolve s.environment s.settings s.files = .ok cachePath)
    (h : s.files.content cachePath = .ok (.text c.dump)) :
    (∃ t, (loadCache : Deed σ Unit) s = (.ok (), t) ∧ t.savePath? = some path) ↔
      '\r' ∉ c.dump.toList := by
  constructor
  · rintro ⟨t, hload, -⟩ hreturn
    obtain ⟨cause, hparse⟩ := hc.lawful.parseTome_of_return hreturn
    rw [loadCache_of_content hresolve h, World.evalTome_of_error hparse] at hload
    cases hload
  · intro hreturn
    obtain ⟨t, hload, hreloadable, hvalues⟩ := loadCache_of_reloadable hc hresolve h hreturn
    have hsaved : (savePathName, .string path.text) ∈ t.cache.rootScope.values := by
      rw [hvalues, Context.mem_saved]
      exact ⟨hc.find?_value_iff.mp hfind, rfl⟩
    refine ⟨t, hload, ?_⟩
    simp only [savePath?, hreloadable.find?_value_iff.mpr hsaved, Path.ofString_text hnormal]

/-- An exit command that has left the session has succeeded. -/
theorem leave_of_left {input : Input} {nosave : Bool} (hexit : input.exit? = some nosave)
    {prompt : String} (h : run prompt [input] t = (.left, s)) :
    (leave nosave : Deed σ Unit) ((t.printed prompt).facing input) = (.ok (), s) := by
  rw [run_cons, run_exitInput hexit] at h
  cases hleave : (leave nosave : Deed σ Unit) ((t.printed prompt).facing input) with
  | mk result u =>
    rw [hleave] at h
    cases result with
    | ok =>
      cases h
      rfl
    | error e => cases hreported : e.isReported <;> simp only [hreported] at h <;> cases h

/-- What a saving exit behind some inputs leaves for the next session. The tome has the text of the
context exactly if the cache was written to another place, or has the same text. The cache gives the
path of the tome exactly if there is no carriage return in its text. -/
theorem saved_iff (τ : Type) [DiceSource τ] (hready : s.Ready) {prompt : String}
    {before : List Input} {input : Input} (hexit : input.exit? = some false) {t s' : Session σ}
    (hbefore : run prompt before s = (.usedUp, t))
    (hrun : run prompt (before ++ [input]) s = (.left, s'))
    (hwritten : s'.cacheWritten = true) :
    ∃ path cachePath,
      t.exitTarget.resolve t.environment t.settings t.files = .ok path ∧
      cacheTarget.resolve t.environment t.settings t.files = .ok cachePath ∧
      s'.world.output =
        ((t.printed prompt).facing input).world.output ++ s!"Saved to {path.text}" ++ "\n" ∧
      (s'.files.content path = .ok (.text s'.world.context.dump) ↔
        path.place = cachePath.place → s'.cache.dump = s'.world.context.dump) ∧
      ∀ u : Session τ, u.files = s'.files → u.settings = s'.settings →
        u.environment = s'.environment →
        ((∃ v, (loadCache : Deed τ Unit) u = (.ok (), v) ∧ v.savePath? = some path) ↔
          '\r' ∉ s'.cache.dump.toList) := by
  obtain ⟨world, hfacing⟩ := facing_eq (t.printed prompt) input
  rw [run_append, hbefore] at hrun
  obtain ⟨path, cachePath, hleaves⟩ := leaves_of_leave (leave_of_left hexit hrun) hwritten
  have ht : t.Ready := by
    have hkept := hready.run prompt before
    rwa [hbefore] at hkept
  rw [hfacing] at hleaves
  refine ⟨path, cachePath, hleaves.tome, hleaves.cacheFile, ?_, ?_, fun u hfiles hsettings henv => ?_⟩
  · rw [hfacing]
    exact hleaves.output
  · rw [hleaves.content]
    split
    · rename_i hplace
      rw [Except.ok.injEq, Content.text.injEq]
      exact ⟨fun hsame _ => hsame, fun hsame => hsame hplace⟩
    · rename_i hplace
      exact ⟨fun _ heq => absurd heq hplace, fun _ => rfl⟩
  · have hcache : s'.cache.Reloadable := hleaves.cache ▸ (ht.remembering path).cache
    have hfind : s'.cache.rootScope.find? savePathName = some (.value (.string path.text)) := by
      rw [hleaves.cache]
      exact ht.cache.find?_bind savePathName _
    have hresolve : cacheTarget.resolve u.environment u.settings u.files = .ok cachePath := by
      rw [resolve_cacheTarget, hsettings, henv, hleaves.settings, hleaves.environment,
        ← resolve_cacheTarget]
      exact hleaves.cacheFile
    exact savePath?_loadCache_iff hcache (ht.isNormal hleaves.tome) hfind hresolve
      (hfiles ▸ hleaves.cacheContent)

/-- Whether two sessions have ended in the same way, and without an error. -/
def Ending.agrees : Ending → Ending → Bool
  | left, left | usedUp, usedUp => true
  | _, _ => false

theorem Ending.eq_of_agrees {ending ending' : Ending} (h : ending.agrees ending' = true) :
    ending = ending' := by
  cases ending <;> cases ending' <;> first | rfl | cases h

/-- A session that keeps its tomes in a directory which is still to be made. -/
def shelved : Session ScriptedDice where
  world := { dice := {} }
  cacheDice := {}
  settings := { dataDir := some (Path.ofString "tomes") }

theorem ready_shelved : shelved.Ready := by
  refine ⟨Context.reloadable_empty, fun directory hdirectory => ?_⟩
  cases hdirectory
  exact Path.isNormal_ofString _

/-- The tome has the definition, and the cache the path of the tome. -/
theorem saved_hero :
    let s := (run "> " ([.line "hp = 30", .line ".save hero"] ++ [.line ".exit"]) shelved).2
    let path := Path.ofString "tomes/hero.tome"
    s.files.content path = .ok (.text s.world.context.dump) ∧
      ∃ v, (loadCache : Deed ScriptedDice Unit) s = (.ok (), v) ∧ v.savePath? = some path := by
  intro s path
  let before : List Input := [.line "hp = 30", .line ".save hero"]
  have hbefore : run "> " before shelved = (.usedUp, (run "> " before shelved).2) :=
    Prod.ext (Ending.eq_of_agrees (by decide +kernel)) rfl
  have hrun : run "> " (before ++ [.line ".exit"]) shelved = (.left, s) :=
    Prod.ext (Ending.eq_of_agrees (by decide +kernel)) rfl
  have hwritten : s.cacheWritten = true := by decide +kernel
  have hexit : (Input.line ".exit").exit? = some false := by decide
  obtain ⟨p, cachePath, hp, hcachePath, -, hcontent, hcache⟩ :=
    saved_iff ScriptedDice ready_shelved hexit hbefore hrun hwritten
  have hpath : p = path := by
    have hresolved : Except.toOption (.ok p : Except TargetError Path) = some path := by
      rw [← hp]
      decide +kernel
    exact Option.some.inj hresolved
  have hcacheFile : cachePath = Path.ofString "tomes/_cache.tome" := by
    have hresolved : Except.toOption (.ok cachePath : Except TargetError Path) =
        some (Path.ofString "tomes/_cache.tome") := by
      rw [← hcachePath]
      decide +kernel
    exact Option.some.inj hresolved
  subst hpath hcacheFile
  have hplaces : path.place ≠ (Path.ofString "tomes/_cache.tome").place := by decide +kernel
  have hreturn : '\r' ∉ s.cache.dump.toList := by decide +kernel
  exact ⟨hcontent.mpr fun heq => absurd heq hplaces, (hcache s rfl rfl rfl).mpr hreturn⟩

/-- A tome with the title `_cache` is kept where the cache is, which is written behind it. -/
theorem not_saved :
    ¬ ∀ (s t s' : Session ScriptedDice) (before : List Input) (input : Input) (path : Path),
      s.Ready → input.exit? = some false → run "> " before s = (.usedUp, t) →
      run "> " (before ++ [input]) s = (.left, s') → s'.cacheWritten = true →
      t.exitTarget.resolve t.environment t.settings t.files = .ok path →
      s'.files.content path = .ok (.text s'.world.context.dump) ∧
        ∃ v, (loadCache : Deed ScriptedDice Unit) s' = (.ok (), v) ∧ v.savePath? = some path := by
  intro h
  let before : List Input := [.line "x = 5", .line ".save _cache"]
  let path := Path.ofString "tomes/_cache.tome"
  have hbefore : run "> " before shelved = (.usedUp, (run "> " before shelved).2) :=
    Prod.ext (Ending.eq_of_agrees (by decide +kernel)) rfl
  have hrun : run "> " (before ++ [.line ".exit"]) shelved =
      (.left, (run "> " (before ++ [.line ".exit"]) shelved).2) :=
    Prod.ext (Ending.eq_of_agrees (by decide +kernel)) rfl
  have hcontent := (h shelved _ _ before (.line ".exit") path ready_shelved (by decide) hbefore hrun
    (by decide +kernel) (eq_ok_of_toOption (by decide +kernel))).1
  have hlost : (run "> " (before ++ [.line ".exit"]) shelved).2.files.content path =
      .ok (.text "SAVE_PATH = \"tomes/_cache.tome\"\n") :=
    eq_ok_of_toOption (by decide +kernel)
  rw [hlost, Except.ok.injEq] at hcontent
  exact absurd hcontent (by decide +kernel)

end Session

end DiceTome
