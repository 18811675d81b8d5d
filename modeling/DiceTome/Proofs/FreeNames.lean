import DiceTome.Proofs.SavedPaths

/-!
# Free names

A tome that has no name yet gets a made-up one: `untitled`, `untitled1` and so on, the first one that
no file has. The search for it knows no bound. It comes to an end because the names are different, so
that the files of the tree cannot have all of them. Only a path that is too long for the system stops
it before that, with an error.

* `SaveTarget.Search` is the search without a bound, and what it comes to.
* `SaveTarget.search_freeIndex`: as many tries as there are files, and one more, are the whole search.
* `SaveTarget.resolve_generated_least`: which name is found, and when there is none.
-/

namespace DiceTome

/-! ## Made-up names -/

theorem Path.ofString_name {name : String} (h : name ≠ "" ∧ name ≠ "." ∧ '/' ∉ name.toList) :
    Path.ofString name = ⟨"", [name]⟩ := by
  have hnormal : Path.IsNormal ⟨"", [name]⟩ := by
    refine ⟨List.mem_cons_self, fun part hpart => ?_⟩
    obtain rfl := List.mem_singleton.mp hpart
    exact h
  have htext : Path.text ⟨"", [name]⟩ = name := by
    simp [Path.text]
  have hread := Path.ofString_text hnormal
  rwa [htext] at hread

namespace SaveTarget

variable {files : FileTree} {directory : Path} {index tries : Nat} {answer : Except FileError Nat}

/-- A made-up name ends with its index, but for the first one. -/
theorem generatedName_eq (index : Nat) :
    generatedName index = "untitled" ++ if index = 0 then "" else index.repr := by
  unfold generatedName
  split <;> rfl

theorem generatedName_injective : Function.Injective generatedName := by
  intro i j h
  rw [generatedName_eq, generatedName_eq, String.append_right_inj] at h
  split at h
  · split at h
    · omega
    · exact absurd h.symm Nat.repr_ne_empty
  · split at h
    · exact absurd h Nat.repr_ne_empty
    · exact Nat.repr_injective h

theorem slash_not_mem_generatedName (index : Nat) : '/' ∉ (generatedName index).toList := by
  rw [generatedName_eq, String.toList_append, List.mem_append, not_or]
  refine ⟨by decide, fun hslash => ?_⟩
  split at hslash
  · cases hslash
  · rw [Nat.toList_repr] at hslash
    exact absurd (Nat.isDigit_of_mem_toDigits (by decide) (by decide) hslash) (by decide)

/-- The path of a made-up name is one name behind the directory. -/
theorem generatedPath_eq (directory : Path) (index : Nat) :
    generatedPath directory index =
      ⟨directory.root, directory.parts ++ [generatedName index ++ ".tome"]⟩ := by
  have hlong (s : String) (hs : s.length ≤ 1) : generatedName index ++ ".tome" ≠ s := by
    rintro rfl
    rw [String.length_append] at hs
    exact absurd (Nat.le_trans (Nat.le_add_left _ _) hs) (by decide)
  have hslash : '/' ∉ (generatedName index ++ ".tome").toList := by
    rw [String.toList_append, List.mem_append, not_or]
    exact ⟨slash_not_mem_generatedName index, by decide⟩
  have hname := Path.ofString_name ⟨hlong "" (by decide), hlong "." (by decide), hslash⟩
  rw [generatedPath, titlePath, Path.child, hname, Path.join]
  rfl

theorem place_generatedPath (directory : Path) (index : Nat) :
    (generatedPath directory index).place =
      { directory.place with
        names := directory.place.names ++ [generatedName index ++ ".tome"] } := by
  have hname : generatedName index ++ ".tome" ≠ ".." := by
    intro heq
    have hlength := congrArg String.length heq
    rw [String.length_append] at hlength
    exact absurd (Nat.le_trans (Nat.le_add_left _ _) hlength.le) (by decide)
  rw [generatedPath_eq, Path.place, List.foldl_append, List.foldl_cons, List.foldl_nil, Place.step,
    if_neg hname]
  rfl

theorem place_generatedPath_injective (directory : Path) :
    Function.Injective fun index => (generatedPath directory index).place := by
  intro i j h
  simp only [place_generatedPath, Place.mk.injEq, true_and, List.append_cancel_left_eq,
    List.cons.injEq, and_true, String.append_left_inj] at h
  exact generatedName_injective h

/-! ## Names in use -/

/-- The made-up name has a file. -/
def IsTaken (files : FileTree) (directory : Path) (index : Nat) : Prop :=
  (files.find? (generatedPath directory index)).isSome = true

/-- Different names have different files, so that there are at least as many files as names in
use. -/
theorem le_length_of_taken (h : ∀ n < tries, IsTaken files directory n) :
    tries ≤ files.entries.length := by
  -- The places of the names are different entries of the tree.
  let places := (List.range tries).map fun n => (generatedPath directory n).place
  have hdistinct : places.Nodup := List.nodup_range.map (place_generatedPath_injective directory)
  have hentries : places ⊆ files.entries.map Prod.fst := by
    intro place hplace
    obtain ⟨n, hn, rfl⟩ := List.mem_map.mp hplace
    refine FileTree.place_mem_entries ?_ (h n (List.mem_range.mp hn))
    simp [place_generatedPath]
  have hlength := hdistinct.length_le_of_subset hentries
  simpa [places] using hlength

/-! ## The search -/

/-- What the search for a free name comes to, from an index on: it goes on behind a name in use, and
ends with one that is not, or with an error. -/
inductive Search (files : FileTree) (directory : Path) : Nat → Except FileError Nat → Prop
  | free {index : Nat} (h : files.pathExists (generatedPath directory index) = .ok false) :
    Search files directory index (.ok index)
  | taken {index : Nat} {answer : Except FileError Nat}
    (h : files.pathExists (generatedPath directory index) = .ok true)
    (rest : Search files directory (index + 1) answer) : Search files directory index answer
  | refused {index : Nat} {e : FileError}
    (h : files.pathExists (generatedPath directory index) = .error e) :
    Search files directory index (.error e)

/-- A search comes to one answer. -/
theorem Search.unique (h : Search files directory index answer) {answer' : Except FileError Nat}
    (h' : Search files directory index answer') : answer = answer' := by
  induction h with
  | free h =>
    cases h' with
    | free => rfl
    | taken htaken => cases h.symm.trans htaken
    | refused hrefused => cases h.symm.trans hrefused
  | taken h rest ih =>
    cases h' with
    | free hfree => cases h.symm.trans hfree
    | taken _ rest' => exact ih rest'
    | refused hrefused => cases h.symm.trans hrefused
  | refused h =>
    cases h' with
    | free hfree => cases h.symm.trans hfree
    | taken htaken => cases h.symm.trans htaken
    | refused hrefused =>
      cases h.symm.trans hrefused
      rfl

/-- The index that settles a search, and the names in use before it. -/
theorem Search.settled (h : Search files directory index answer) :
    ∃ last, index ≤ last ∧ (∀ n, index ≤ n → n < last → IsTaken files directory n) ∧
      files.pathExists (generatedPath directory last) = answer.map (fun _ => false) ∧
      ∀ found, answer = .ok found → found = last := by
  induction h with
  | @free index h =>
    refine ⟨index, Nat.le_refl index, fun n hle hlt => ?_, h, fun found hfound => ?_⟩
    · omega
    · exact (Except.ok.inj hfound).symm
  | @taken index answer h rest ih =>
    obtain ⟨last, hle, htaken, hlast, hfound⟩ := ih
    refine ⟨last, by omega, fun n hn hlt => ?_, hlast, hfound⟩
    rcases Nat.eq_or_lt_of_le hn with rfl | hn
    · exact FileTree.pathExists_eq_true_iff.mp h
    · exact htaken n hn hlt
  | @refused index e h =>
    refine ⟨index, Nat.le_refl index, fun n hle hlt => ?_, h, nofun⟩
    omega

/-- A search goes on behind the names in use. -/
theorem search_behind (htaken : ∀ n < index, IsTaken files directory n)
    (h : Search files directory index answer) : Search files directory 0 answer := by
  induction index with
  | zero => exact h
  | succ index ih =>
    have hlast := FileTree.pathExists_eq_true_iff.mpr (htaken index (Nat.lt_succ_self index))
    exact ih (fun n hn => htaken n (Nat.lt_succ_of_lt hn)) (.taken hlast h)

/-- So many tries are a search, unless all the names that have been tried are in use. -/
theorem search_freeIndexFrom (files : FileTree) (directory : Path) (tries index : Nat) :
    Search files directory index (freeIndexFrom files directory tries index) ∨
      ∀ n, index ≤ n → n < index + tries → IsTaken files directory n := by
  induction tries generalizing index with
  | zero =>
    refine .inr fun n hle hlt => ?_
    omega
  | succ tries ih =>
    rw [freeIndexFrom]
    cases hexists : files.pathExists (generatedPath directory index) with
    | error e => exact .inl (.refused hexists)
    | ok found =>
      cases found with
      | false => exact .inl (.free hexists)
      | true =>
        rcases ih (index + 1) with hrest | htaken
        · exact .inl (.taken hexists hrest)
        · refine .inr fun n hle hlt => ?_
          rcases Nat.eq_or_lt_of_le hle with rfl | hle
          · exact FileTree.pathExists_eq_true_iff.mp hexists
          · exact htaken n hle (by omega)

/-- One try more than there are files is enough. -/
theorem search_freeIndex (files : FileTree) (directory : Path) :
    Search files directory 0 (freeIndex files directory) := by
  rcases search_freeIndexFrom files directory (files.entries.length + 1) 0 with h | htaken
  · exact h
  · have hlength := le_length_of_taken fun n hn => htaken n (Nat.zero_le n) (by omega)
    omega

theorem search_ok_iff :
    Search files directory 0 (.ok index) ↔
      files.pathExists (generatedPath directory index) = .ok false ∧
        ∀ smaller < index, IsTaken files directory smaller := by
  constructor
  · intro h
    obtain ⟨last, -, htaken, hlast, hfound⟩ := h.settled
    obtain rfl := hfound index rfl
    exact ⟨hlast, fun smaller => htaken smaller (Nat.zero_le smaller)⟩
  · rintro ⟨hfree, htaken⟩
    exact search_behind htaken (.free hfree)

theorem search_error_iff {e : FileError} :
    Search files directory 0 (.error e) ↔
      ∃ index, files.pathExists (generatedPath directory index) = .error e ∧
        ∀ smaller < index, IsTaken files directory smaller := by
  constructor
  · intro h
    obtain ⟨last, -, htaken, hlast, -⟩ := h.settled
    exact ⟨last, hlast, fun smaller => htaken smaller (Nat.zero_le smaller)⟩
  · rintro ⟨index, hrefused, htaken⟩
    exact search_behind htaken (.refused hrefused)

/-! ## The path that is found -/

section Resolve

variable {env : Environment} {settings : Settings}
  (hdirectory : dataDirectory env settings = .ok directory)
include hdirectory

theorem resolve_generated_eq (files : FileTree) :
    generated.resolve env settings files =
      ((freeIndex files directory).map (generatedPath directory)).mapError .file := by
  simp only [resolve, hdirectory, Session.mapError_ok, bind, Except.bind]
  cases freeIndex files directory <;> rfl

/-- The path that is found has no file, and all the paths before it have. -/
theorem resolve_generated_ok_iff (files : FileTree) (path : Path) :
    generated.resolve env settings files = .ok path ↔
      ∃ index, path = generatedPath directory index ∧ files.pathExists path = .ok false ∧
        ∀ smaller < index, IsTaken files directory smaller := by
  have hsearch := search_freeIndex files directory
  rw [resolve_generated_eq hdirectory]
  constructor
  · intro h
    cases hfree : freeIndex files directory with
    | error e =>
      rw [hfree] at h
      cases h
    | ok index =>
      rw [hfree] at h hsearch
      cases h
      exact ⟨index, rfl, search_ok_iff.mp hsearch⟩
  · rintro ⟨index, rfl, hfree⟩
    rw [hsearch.unique (search_ok_iff.mpr hfree)]
    rfl

/-- There is no path if the system refuses to look for one, and all the paths before it have files. -/
theorem resolve_generated_error_iff (files : FileTree) (e : TargetError) :
    generated.resolve env settings files = .error e ↔
      ∃ index, e = .file (.nameTooLong (generatedPath directory index)) ∧
        files.pathExists (generatedPath directory index) =
          .error (.nameTooLong (generatedPath directory index)) ∧
        ∀ smaller < index, IsTaken files directory smaller := by
  have hsearch := search_freeIndex files directory
  rw [resolve_generated_eq hdirectory]
  constructor
  · intro h
    cases hfree : freeIndex files directory with
    | error e' =>
      rw [hfree] at h hsearch
      cases h
      obtain ⟨index, hrefused, htaken⟩ := search_error_iff.mp hsearch
      obtain ⟨rfl, -⟩ := FileTree.pathExists_eq_error hrefused
      exact ⟨index, rfl, hrefused, htaken⟩
    | ok index =>
      rw [hfree] at h
      cases h
  · rintro ⟨index, rfl, hrefused⟩
    rw [hsearch.unique (search_error_iff.mpr ⟨index, hrefused⟩)]
    rfl

/-- There is a path if as many paths as there are files, and one more, fit the system. -/
theorem exists_resolve_generated {files : FileTree}
    (hfits : ∀ index ≤ files.entries.length, (generatedPath directory index).Fits) :
    ∃ path, generated.resolve env settings files = .ok path := by
  cases hresolve : generated.resolve env settings files with
  | ok path => exact ⟨path, rfl⟩
  | error e =>
    obtain ⟨index, -, hrefused, htaken⟩ :=
      (resolve_generated_error_iff hdirectory files e).mp hresolve
    have hlong := (FileTree.pathExists_eq_error hrefused).2
    exact absurd (hfits index (le_length_of_taken htaken)) hlong

/-- The search for a made-up name comes to an end. What it finds is the first of the names that leads
to nothing: every name before it leads to a file or directory. It finds nothing only if the system
refuses a path because it or a name in it is too long, which is an error about that path, and every
name before that is in use too. This cannot be if the paths of the first names fit the system, one
more than there are files. -/
theorem resolve_generated_least (files : FileTree) :
    (∃ answer, Search files directory 0 answer ∧
      generated.resolve env settings files =
        (answer.map (generatedPath directory)).mapError .file) ∧
    (∀ path, generated.resolve env settings files = .ok path ↔
      ∃ index, path = ⟨directory.root, directory.parts ++ [generatedName index ++ ".tome"]⟩ ∧
        files.pathExists path = .ok false ∧ files.find? path = none ∧
        ∀ smaller < index, (files.find? (generatedPath directory smaller)).isSome = true) ∧
    (∀ e, generated.resolve env settings files = .error e ↔
      ∃ index, e = .file (.nameTooLong (generatedPath directory index)) ∧
        files.pathExists (generatedPath directory index) =
          .error (.nameTooLong (generatedPath directory index)) ∧
        ¬ (generatedPath directory index).Fits ∧
        ∀ smaller < index, (files.find? (generatedPath directory smaller)).isSome = true) ∧
    ((∀ index ≤ files.entries.length, (generatedPath directory index).Fits) →
      ∃ path, generated.resolve env settings files = .ok path) := by
  refine ⟨⟨_, search_freeIndex files directory, resolve_generated_eq hdirectory files⟩,
    fun path => ?_, fun e => ?_, exists_resolve_generated hdirectory⟩
  · rw [resolve_generated_ok_iff hdirectory]
    constructor
    · rintro ⟨index, rfl, hfree, htaken⟩
      exact ⟨index, generatedPath_eq directory index, hfree,
        FileTree.find?_eq_none_of_pathExists hfree, htaken⟩
    · rintro ⟨index, rfl, hfree, -, htaken⟩
      exact ⟨index, (generatedPath_eq directory index).symm, hfree, htaken⟩
  · rw [resolve_generated_error_iff hdirectory]
    constructor
    · rintro ⟨index, rfl, hrefused, htaken⟩
      exact ⟨index, rfl, hrefused, (FileTree.pathExists_eq_error hrefused).2, htaken⟩
    · rintro ⟨index, rfl, hrefused, -, htaken⟩
      exact ⟨index, rfl, hrefused, htaken⟩

end Resolve

/-- A directory with tomes under the first two made-up names. -/
def shelf : FileTree :=
  ⟨[({ names := ["tomes"] }, .directory),
    ({ names := ["tomes", "untitled.tome"] }, .file (.text "")),
    ({ names := ["tomes", "untitled1.tome"] }, .file (.text ""))]⟩

/-- The third name is free there, and the paths of all names up to one more than there are files
fit the system. -/
theorem resolve_shelf :
    let directory : Path := ⟨"", ["tomes"]⟩
    dataDirectory {} { dataDir := some directory } = .ok directory ∧
      (∀ index ≤ shelf.entries.length, (generatedPath directory index).Fits) ∧
      generated.resolve {} { dataDir := some directory } shelf =
        .ok ⟨"", ["tomes", "untitled2.tome"]⟩ := by
  intro directory
  have hdirectory : dataDirectory {} { dataDir := some directory } = .ok directory := rfl
  obtain ⟨-, hfound, -⟩ := resolve_generated_least hdirectory shelf
  have hfree : shelf.pathExists ⟨"", ["tomes", "untitled2.tome"]⟩ = .ok false := rfl
  exact ⟨hdirectory, by decide +kernel, (hfound _).mpr ⟨2, rfl, hfree, rfl, by decide⟩⟩

/-- Where the directory has too long a name, no name is found. -/
theorem not_resolve_generated_least :
    ¬ ∀ (env : Environment) (settings : Settings) (files : FileTree) (directory : Path),
      dataDirectory env settings = .ok directory →
      ∃ index, generated.resolve env settings files = .ok (generatedPath directory index) ∧
        files.find? (generatedPath directory index) = none ∧
        ∀ smaller < index, (files.find? (generatedPath directory smaller)).isSome = true := by
  intro h
  let name := String.ofList (List.replicate 256 'a')
  obtain ⟨index, hfound, -⟩ := h {} { dataDir := some ⟨"", [name]⟩ } {} ⟨"", [name]⟩ rfl
  have hpath : generatedPath ⟨"", [name]⟩ 0 = ⟨"", [name, "untitled.tome"]⟩ :=
    generatedPath_eq ⟨"", [name]⟩ 0
  have hname : '\x00' ∉ name.toList := by
    rw [String.toList_ofList, List.mem_replicate]
    exact fun hmem => absurd hmem.2 (by decide)
  have hnull : '\x00' ∉ (Path.text ⟨"", [name, "untitled.tome"]⟩).toList := by
    rw [Path.null_mem_text]
    rintro (hroot | ⟨part, hpart, hmem⟩)
    · cases hroot
    · rcases List.mem_cons.mp hpart with rfl | hpart
      · exact hname hmem
      · obtain rfl := List.mem_singleton.mp hpart
        exact absurd hmem (by decide)
  have hrefused : ({} : FileTree).pathExists (generatedPath ⟨"", [name]⟩ 0) =
      .error (.nameTooLong (generatedPath ⟨"", [name]⟩ 0)) := by
    rw [hpath]
    exact FileTree.pathExists_of_long_name rfl hnull (by decide +kernel) (by decide +kernel)
  have herror : generated.resolve {} { dataDir := some ⟨"", [name]⟩ } {} = .error _ :=
    (resolve_generated_error_iff rfl {} _).mpr ⟨0, rfl, hrefused, nofun⟩
  cases hfound.symm.trans herror

end SaveTarget

end DiceTome
