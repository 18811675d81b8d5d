import DiceTome.Proofs.Leaving

/-!
# Reading and writing files

Where a path leads does not depend on the files: the tree only decides whether the way is open. It
stays open as long as no directory is lost, and neither writing a file nor making directories loses
one. What has been written is therefore read back, and everything that is written or made elsewhere
leaves it alone.

* `Path.place` is where a path leads.
* `FileTree.content_eq_ok_iff`: the content of a file is what stands at its place.
* `FileTree.content_writeText` and `FileTree.content_of_writeText`: what has been written is there,
  and all else is as before.
* `FileTree.gainsDirectories_makeDirectories`: making directories changes nothing that is there, and
  makes nothing but directories.
* `FileTree.WritesAt` is what saving to a place may do to a tree.
* `FileTree.rewrite_file`: a file that is there can be written again.
* `FileTree.readText_cases`: how the text of a file is read or not.
* `FileTree.pathExists_eq_error`: the system refuses to look for no path but one that is too long.
-/

namespace DiceTome

/-! ## Places -/

/-- The place that a path leads to if the way is open. -/
def Path.place (path : Path) : Place :=
  path.parts.foldl Place.step (Place.origin path)

namespace FileTree

variable {t t' : FileTree} {path : Path} {p q : Place}

theorem requireDirectory_eq_ok_iff (path : Path) :
    t.requireDirectory path p = .ok () ↔ t.entry? p = some .directory := by
  unfold requireDirectory
  split
  · rename_i h
    simp [h]
  · rename_i h
    simp [h]
  · rename_i h
    simp [h]

theorem locateFrom_cons_iff {name : String} {names : List String} {here : Place} :
    t.locateFrom path here (name :: names) = .ok p ↔
      t.entry? here = some .directory ∧ name.utf8ByteSize ≤ maxNameBytes ∧
        t.locateFrom path (here.step name) names = .ok p := by
  rw [locateFrom, ← requireDirectory_eq_ok_iff path]
  cases hdirectory : t.requireDirectory path here with
  | error e =>
    constructor
    · rintro ⟨⟩
    · rintro ⟨⟨⟩, -⟩
  | ok =>
    by_cases hlong : maxNameBytes < name.utf8ByteSize
    · constructor
      · intro h
        rw [if_pos hlong] at h
        cases h
      · rintro ⟨-, hshort, -⟩
        omega
    · rw [if_neg hlong]
      exact ⟨fun h => ⟨rfl, by omega, h⟩, fun h => h.2.2⟩

theorem locateFrom_eq {names : List String} {here : Place}
    (h : t.locateFrom path here names = .ok p) : p = names.foldl Place.step here := by
  induction names generalizing here with
  | nil =>
    cases h
    rfl
  | cons name names ih => exact ih (locateFrom_cons_iff.mp h).2.2

/-- The way to a place is open if the path is fit for the system and leads through directories. -/
theorem locate_eq_ok_iff :
    t.locate path = .ok p ↔
      '\x00' ∉ path.text.toList ∧ path.text.utf8ByteSize ≤ maxPathBytes ∧
        t.locateFrom path (Place.origin path) path.parts = .ok p := by
  by_cases hnull : '\x00' ∈ path.text.toList
  · rw [locate_null t hnull]
    simp [hnull]
  · rw [locate_of_not_null t hnull]
    by_cases hlong : maxPathBytes < path.text.utf8ByteSize
    · rw [if_pos hlong]
      constructor
      · rintro ⟨⟩
      · rintro ⟨-, hshort, -⟩
        omega
    · rw [if_neg hlong]
      exact ⟨fun h => ⟨hnull, by omega, h⟩, fun h => h.2.2⟩

theorem locate_eq (h : t.locate path = .ok p) : p = path.place :=
  locateFrom_eq (locate_eq_ok_iff.mp h).2.2

/-! ## Ways that stay open -/

/-- Every directory of the one tree is a directory of the other. -/
def HasDirectories (t t' : FileTree) : Prop :=
  ∀ q, t.entry? q = some .directory → t'.entry? q = some .directory

theorem HasDirectories.locateFrom (h : HasDirectories t t') {names : List String} {here : Place}
    (hp : t.locateFrom path here names = .ok p) : t'.locateFrom path here names = .ok p := by
  induction names generalizing here with
  | nil => exact hp
  | cons name names ih =>
    obtain ⟨hdirectory, hshort, hrest⟩ := locateFrom_cons_iff.mp hp
    exact locateFrom_cons_iff.mpr ⟨h here hdirectory, hshort, ih hrest⟩

theorem HasDirectories.locate (h : HasDirectories t t') (hp : t.locate path = .ok p) :
    t'.locate path = .ok p := by
  obtain ⟨hnull, hshort, hway⟩ := locate_eq_ok_iff.mp hp
  exact locate_eq_ok_iff.mpr ⟨hnull, hshort, h.locateFrom hway⟩

/-! ## Writing -/

theorem lookup_filter_ne (entries : List (Place × Entry)) (h : q ≠ p) :
    (entries.filter fun entry => entry.1 ≠ p).lookup q = entries.lookup q := by
  induction entries with
  | nil => rfl
  | cons entry entries ih =>
    obtain ⟨place, e⟩ := entry
    by_cases hplace : place = p
    · subst hplace
      rw [List.filter_cons_of_neg (by simp), ih, List.lookup_cons, beq_eq_false_iff_ne.mpr h]
    · rw [List.filter_cons_of_pos (by simpa using hplace), List.lookup_cons, List.lookup_cons, ih]

theorem lookup_filter_self (entries : List (Place × Entry)) :
    (entries.filter fun entry => entry.1 ≠ p).lookup p = none := by
  rw [List.lookup_eq_none_iff]
  intro entry hentry
  have hne : entry.1 ≠ p := of_decide_eq_true (List.mem_filter.mp hentry).2
  exact bne_iff_ne.mpr hne.symm

theorem entry?_insert_self (h : p.names ≠ []) (t : FileTree) (e : Entry) :
    entry? (t.insert p e) p = some e := by
  rw [ entry?, if_neg h, insert, List.lookup_append, lookup_filter_self]
  simp

theorem entry?_insert_of_ne (h : q ≠ p) (t : FileTree) (e : Entry) :
    entry? (t.insert p e) q = t.entry? q := by
  have hlast : [(p, e)].lookup q = none := by
    rw [List.lookup_cons, beq_eq_false_iff_ne.mpr h, List.lookup_nil]
  rw [ entry?, entry?, insert, List.lookup_append, lookup_filter_ne _ h, hlast, Option.or_none]

theorem names_ne_nil (h : t.entry? p ≠ some .directory) : p.names ≠ [] :=
  fun hnames => h (by rw [ entry?, if_pos hnames])

/-- Putting something in the place of anything but a directory leaves all directories. -/
theorem hasDirectories_insert (h : t.entry? p ≠ some .directory) (e : Entry) :
    HasDirectories t (t.insert p e) := by
  intro q hq
  have hne : q ≠ p := by
    rintro rfl
    exact h hq
  rwa [ entry?_insert_of_ne hne]

/-- A text can be written where the way is open and no directory is. -/
theorem writeText_eq_ok_iff {text : String} :
    t.writeText path text = .ok t' ↔
      t.locate path = .ok path.place ∧ t.entry? path.place ≠ some .directory ∧
        t' = t.insert path.place (.file (.text text)) := by
  unfold writeText
  cases hlocate : t.locate path with
  | error e =>
    constructor
    · rintro ⟨⟩
    · rintro ⟨⟨⟩, -⟩
  | ok p =>
    obtain rfl := locate_eq hlocate
    by_cases hdirectory : t.entry? path.place = some .directory
    · constructor
      · intro h
        simp only [bind, Except.bind, if_pos hdirectory] at h
        cases h
      · rintro ⟨-, hne, -⟩
        exact absurd hdirectory hne
    · constructor
      · intro h
        simp only [bind, Except.bind, if_neg hdirectory] at h
        cases h
        exact ⟨rfl, hdirectory, rfl⟩
      · rintro ⟨-, -, rfl⟩
        simp only [bind, Except.bind, if_neg hdirectory]
        rfl

/-- What is at the place of a path decides the content that the path gives. -/
theorem content_of_locate (h : t.locate path = .ok p) :
    t.content path =
      match t.entry? p with
      | none => .error (.notFound path)
      | some .directory => .error (.isADirectory path)
      | some (.file content) => .ok content := by
  simp only [content, h, bind, Except.bind]
  cases t.entry? p with
  | none => rfl
  | some entry => cases entry <;> rfl

theorem content_eq_ok_iff {c : Content} :
    t.content path = .ok c ↔
      t.locate path = .ok path.place ∧ t.entry? path.place = some (.file c) := by
  cases hlocate : t.locate path with
  | error e =>
    constructor
    · intro h
      simp only [content, hlocate] at h
      cases h
    · rintro ⟨⟨⟩, -⟩
  | ok p =>
    obtain rfl := locate_eq hlocate
    rw [content_of_locate hlocate]
    cases hentry : t.entry? path.place with
    | none => simp
    | some entry => cases entry <;> simp

/-- What has been written is there. -/
theorem content_writeText {text : String} (h : t.writeText path text = .ok t') :
    t'.content path = .ok (.text text) := by
  obtain ⟨hlocate, hdirectory, rfl⟩ := writeText_eq_ok_iff.mp h
  rw [content_eq_ok_iff]
  exact ⟨(hasDirectories_insert hdirectory _).locate hlocate,
    entry?_insert_self (names_ne_nil hdirectory) t _⟩

/-- Files at other places have the content they had. -/
theorem content_writeText_of_ne {text : String} (h : t.writeText path text = .ok t') {other : Path}
    (hplace : other.place ≠ path.place) {c : Content} (hc : t.content other = .ok c) :
    t'.content other = .ok c := by
  obtain ⟨-, hdirectory, rfl⟩ := writeText_eq_ok_iff.mp h
  obtain ⟨hlocate, hentry⟩ := content_eq_ok_iff.mp hc
  rw [content_eq_ok_iff, entry?_insert_of_ne hplace]
  exact ⟨(hasDirectories_insert hdirectory _).locate hlocate, hentry⟩

/-- What is in a file after one has been written, which may be the same one. -/
theorem content_of_writeText {text : String} (h : t.writeText path text = .ok t') {other : Path}
    {c : Content} (hc : t.content other = .ok c) :
    t'.content other = .ok (if other.place = path.place then .text text else c) := by
  by_cases hplace : other.place = path.place
  · obtain ⟨-, hentry⟩ := content_eq_ok_iff.mp (content_writeText h)
    obtain ⟨-, hdirectory, rfl⟩ := writeText_eq_ok_iff.mp h
    have hlocate := (hasDirectories_insert hdirectory (.file (.text text))).locate
      (content_eq_ok_iff.mp hc).1
    rw [if_pos hplace, content_eq_ok_iff]
    exact ⟨hlocate, hplace ▸ hentry⟩
  · rw [if_neg hplace]
    exact content_writeText_of_ne h hplace hc

theorem readText_of_content {text : String} (h : t.content path = .ok (.text text)) :
    t.readText path = .ok (String.ofList (Text.unifyNewlines text.toList)) := by
  rw [readText, h]
  rfl

/-! ## Making directories -/

/-- Whatever is in the one tree is in the other. -/
def Keeps (t t' : FileTree) : Prop :=
  ∀ q e, t.entry? q = some e → t'.entry? q = some e

theorem Keeps.content (h : Keeps t t') {c : Content} (hc : t.content path = .ok c) :
    t'.content path = .ok c := by
  obtain ⟨hlocate, hentry⟩ := content_eq_ok_iff.mp hc
  have hdirectories : HasDirectories t t' := fun q => h q .directory
  exact content_eq_ok_iff.mpr ⟨hdirectories.locate hlocate, h _ _ hentry⟩

/-- The one tree has some more directories than the other, and is the same elsewhere. -/
def GainsDirectories (t t' : FileTree) : Prop :=
  ∀ q, t'.entry? q = t.entry? q ∨ t.entry? q = none ∧ t'.entry? q = some .directory

theorem GainsDirectories.refl (t : FileTree) : GainsDirectories t t :=
  fun _ => .inl rfl

theorem GainsDirectories.trans {t'' : FileTree} (h : GainsDirectories t t')
    (h' : GainsDirectories t' t'') : GainsDirectories t t'' := by
  intro q
  rcases h' q with hsame' | ⟨hnone', hmade'⟩
  · rw [hsame']
    exact h q
  · rcases h q with hsame | ⟨-, hmade⟩
    · exact .inr ⟨hsame ▸ hnone', hmade'⟩
    · cases hmade.symm.trans hnone'

theorem GainsDirectories.keeps (h : GainsDirectories t t') : Keeps t t' := by
  intro q e he
  rcases h q with hsame | ⟨hnone, -⟩
  · exact hsame.trans he
  · cases he.symm.trans hnone

theorem gainsDirectories_makeDirectory (h : t.makeDirectory path = .ok t') :
    GainsDirectories t t' := by
  unfold makeDirectory at h
  cases hlocate : t.locate path with
  | error e =>
    rw [hlocate] at h
    cases h
  | ok p =>
    rw [hlocate] at h
    by_cases hsome : (t.entry? p).isSome = true
    · simp only [bind, Except.bind, if_pos hsome] at h
      cases h
    · simp only [bind, Except.bind, if_neg hsome] at h
      cases h
      intro q
      by_cases hq : q = p
      · subst hq
        have hnone : t.entry? q = none := Option.not_isSome_iff_eq_none.mp hsome
        have hfree : t.entry? q ≠ some .directory := by
          rw [hnone]
          nofun
        exact .inr ⟨hnone, entry?_insert_self (names_ne_nil hfree) t _⟩
      · exact .inl (entry?_insert_of_ne hq t _)

theorem gainsDirectories_ensureDirectory (h : t.ensureDirectory path = .ok t') :
    GainsDirectories t t' := by
  unfold ensureDirectory at h
  split at h
  · cases h
  · split at h
    · cases h
      exact GainsDirectories.refl t
    · cases h
  · rename_i hmake
    cases h
    exact gainsDirectories_makeDirectory hmake

theorem gainsDirectories_settle {x : Except FileError FileTree}
    (h : ∀ t', x = .ok t' → GainsDirectories t t') : GainsDirectories t (t.settle x).1 := by
  cases x with
  | error e => exact GainsDirectories.refl t
  | ok t' => exact h t' rfl

/-- Making directories makes nothing else, also if it fails. -/
theorem gainsDirectories_makeDirectories (t : FileTree) (path : Path) :
    GainsDirectories t (t.makeDirectories path).1 := by
  unfold makeDirectories
  generalize path.parts.length = depth
  induction depth generalizing path with
  | zero => exact gainsDirectories_settle fun _ => gainsDirectories_ensureDirectory
  | succ depth ih =>
    rw [makeDirectoriesTo]
    split
    · split
      · exact GainsDirectories.refl t
      · have habove := ih path.parent
        split
        · rename_i above hmade
          rw [hmade] at habove
          exact habove.trans (gainsDirectories_settle fun _ => gainsDirectories_ensureDirectory)
        · exact habove
    · exact gainsDirectories_settle fun _ => gainsDirectories_ensureDirectory

theorem keeps_makeDirectories (t : FileTree) (path : Path) : Keeps t (t.makeDirectories path).1 :=
  (gainsDirectories_makeDirectories t path).keeps

/-! ## Saving to a place -/

/-- What saving to a place makes of a tree, however far it has come: there is a file at that place,
whatever is in it, unless a directory is there, and there may be some more directories. -/
def WritesAt (place? : Option Place) (t t' : FileTree) : Prop :=
  ∀ q, t'.entry? q = t.entry? q ∨ t.entry? q = none ∧ t'.entry? q = some .directory ∨
    place? = some q ∧ t.entry? q ≠ some .directory ∧ ∃ c, t'.entry? q = some (.file c)

theorem GainsDirectories.writesAt (h : GainsDirectories t t') (place? : Option Place) :
    WritesAt place? t t' :=
  fun q => (h q).imp_right .inl

theorem WritesAt.trans {place? : Option Place} {t'' : FileTree} (h : WritesAt place? t t')
    (h' : WritesAt place? t' t'') : WritesAt place? t t'' := by
  intro q
  rcases h' q with hsame' | ⟨hnone', hmade'⟩ | ⟨hq, hfree', c', hc'⟩
  · rw [hsame']
    exact h q
  · rcases h q with hsame | ⟨-, hmade⟩ | ⟨-, -, c, hc⟩
    · exact .inr (.inl ⟨hsame ▸ hnone', hmade'⟩)
    · cases hmade.symm.trans hnone'
    · cases hc.symm.trans hnone'
  · rcases h q with hsame | ⟨-, hmade⟩ | ⟨-, hfree, -⟩
    · exact .inr (.inr ⟨hq, hsame ▸ hfree', c', hc'⟩)
    · exact absurd hmade hfree'
    · exact .inr (.inr ⟨hq, hfree, c', hc'⟩)

theorem writesAt_writeText {text : String} (h : t.writeText path text = .ok t') :
    WritesAt (some path.place) t t' := by
  obtain ⟨-, hdirectory, rfl⟩ := writeText_eq_ok_iff.mp h
  intro q
  by_cases hq : q = path.place
  · subst hq
    exact .inr (.inr ⟨rfl, hdirectory, _, entry?_insert_self (names_ne_nil hdirectory) t _⟩)
  · exact .inl (entry?_insert_of_ne hq t _)

/-! ## The directory of a file -/

theorem locateFrom_concat_iff {names : List String} {name : String} {here : Place} :
    t.locateFrom path here (names ++ [name]) = .ok p ↔
      ∃ q, t.locateFrom path here names = .ok q ∧ t.entry? q = some .directory ∧
        name.utf8ByteSize ≤ maxNameBytes ∧ p = q.step name := by
  induction names generalizing here with
  | nil =>
    rw [List.nil_append, locateFrom_cons_iff]
    simp [locateFrom, eq_comm]
  | cons first names ih =>
    rw [List.cons_append, locateFrom_cons_iff, ih]
    constructor
    · rintro ⟨hdirectory, hshort, q, hq, hrest⟩
      exact ⟨q, locateFrom_cons_iff.mpr ⟨hdirectory, hshort, hq⟩, hrest⟩
    · rintro ⟨q, hq, hrest⟩
      obtain ⟨hdirectory, hshort, hq⟩ := locateFrom_cons_iff.mp hq
      exact ⟨hdirectory, hshort, q, hq, hrest⟩

/-- The path counts only for the errors on the way. -/
theorem locateFrom_path {names : List String} {here : Place}
    (h : t.locateFrom path here names = .ok p) (path' : Path) :
    t.locateFrom path' here names = .ok p := by
  induction names generalizing here with
  | nil => exact h
  | cons name names ih =>
    obtain ⟨hdirectory, hshort, hrest⟩ := locateFrom_cons_iff.mp h
    exact locateFrom_cons_iff.mpr ⟨hdirectory, hshort, ih hrest⟩

end FileTree

/-- The text of a directory is not longer than that of a file in it, unless it is the point. -/
theorem Path.utf8ByteSize_parent (path : Path) :
    path.parent.text.utf8ByteSize ≤ max 1 path.text.utf8ByteSize := by
  rcases List.eq_nil_or_concat path.parts with hnil | ⟨names, name, hconcat⟩
  · have hparent : path.parent = path := by
      rw [parent, hnil, List.dropLast_nil, ← hnil]
    rw [hparent]
    exact Nat.le_max_right 1 _
  · rw [List.concat_eq_append] at hconcat
    have hnames : path.parent.parts = names := by
      rw [parent, hconcat, List.dropLast_concat]
    have htext : path.text = path.root ++ "/".intercalate (names ++ [name]) := by
      rw [text, if_neg (by simp [hconcat]), hconcat]
    have hle : ("/".intercalate names).utf8ByteSize ≤
        ("/".intercalate (names ++ [name])).utf8ByteSize := by
      cases names with
      | nil => simp
      | cons first names =>
        rw [String.intercalate_append_of_ne_nil (by simp) (by simp)]
        simp only [String.utf8ByteSize_append]
        omega
    rw [text, hnames, htext]
    split
    · exact Nat.le_max_left 1 _
    · simp only [String.utf8ByteSize_append]
      exact Nat.le_trans (Nat.add_le_add_left hle _) (Nat.le_max_right 1 _)

namespace FileTree

variable {t : FileTree} {path : Path}

/-- The directory of what is there is a directory. -/
theorem locate_parent {p : Place} (hparts : path.parts ≠ []) (h : t.locate path = .ok p) :
    ∃ q, t.locate path.parent = .ok q ∧ t.entry? q = some .directory := by
  obtain ⟨hnull, hshort, hway⟩ := locate_eq_ok_iff.mp h
  obtain ⟨q, hq, hdirectory, -⟩ := locateFrom_concat_iff.mp
    ((List.dropLast_concat_getLast hparts).symm ▸ hway)
  refine ⟨q, locate_eq_ok_iff.mpr ⟨fun hmem => hnull (Path.null_mem_of_parent hmem), ?_, ?_⟩,
    hdirectory⟩
  · have hbound := path.utf8ByteSize_parent
    have hlimit : 1 ≤ maxPathBytes := by decide
    omega
  · exact locateFrom_path hq path.parent

/-- A directory that is there is made by leaving it alone. -/
theorem makeDirectories_of_directory {q : Place} (h : t.locate path = .ok q)
    (hdirectory : t.entry? q = some .directory) : t.makeDirectories path = (t, .ok ()) := by
  have hmake : t.makeDirectory path = .error (.alreadyExists path) := by
    simp only [makeDirectory, h, bind, Except.bind, hdirectory, Option.isSome_some, if_true]
    rfl
  have hfound : t.isDirectory path = true := by
    simp only [isDirectory, find?, h, hdirectory, decide_true]
  have hensure : t.ensureDirectory path = .ok t := by
    rw [ensureDirectory, hmake]
    dsimp only
    rw [if_pos hfound]
  unfold makeDirectories
  cases path.parts.length with
  | zero => rw [makeDirectoriesTo, hensure]; rfl
  | succ depth => rw [makeDirectoriesTo, hensure]; rfl

/-- The directory of a file that is there need not be made, and the file can be written again. -/
theorem rewrite_file {c : Content} (h : t.content path = .ok c) (text : String) :
    t.makeDirectories path.parent = (t, .ok ()) ∧
      t.writeText path text = .ok (t.insert path.place (.file (.text text))) := by
  obtain ⟨hlocate, hentry⟩ := content_eq_ok_iff.mp h
  have hfree : t.entry? path.place ≠ some .directory := by
    rw [hentry]
    nofun
  have hparts : path.parts ≠ [] := by
    intro hnil
    have hnames := names_ne_nil hfree
    rw [Path.place, hnil] at hnames
    exact hnames rfl
  obtain ⟨q, hq, hdirectory⟩ := locate_parent hparts hlocate
  exact ⟨makeDirectories_of_directory hq hdirectory, writeText_eq_ok_iff.mpr ⟨hlocate, hfree, rfl⟩⟩

/-! ## Files that cannot be read -/

theorem readText_of_content_error {e : FileError}
    (h : t.content path = .error e) : t.readText path = .error e := by
  rw [readText, h]
  rfl

theorem readText_of_bytes {bytes : List Nat} (h : t.content path = .ok (.bytes bytes)) :
    t.readText path =
      match Text.utf8Error? bytes with
      | some cause => .error (.undecodable cause)
      | none => .ok "" := by
  simp only [readText, h, bind, Except.bind]
  cases Text.utf8Error? bytes <;> rfl

/-- Whether a file is there and what reading it gives. A null character in its path is no fault until
it is read. -/
theorem readText_cases (t : FileTree) (path : Path) :
    (∃ text, t.readText path = .ok text ∧ t.pathExists path = .ok true) ∨
    (∃ cause, t.readText path = .error (.undecodable cause) ∧ t.pathExists path = .ok true) ∨
    ('\x00' ∈ path.text.toList ∧ t.readText path = .error .embeddedNull ∧
      t.pathExists path = .ok false) ∨
    ∃ e, e.isReportedBySystem = true ∧ t.readText path = .error e := by
  by_cases hnull : '\x00' ∈ path.text.toList
  · have hcontent : t.content path = .error .embeddedNull := by
      rw [content, locate_null t hnull]
      rfl
    refine .inr (.inr (.inl ⟨hnull, readText_of_content_error hcontent, ?_⟩))
    rw [pathExists, locate_null t hnull]
  · cases hlocate : t.locate path with
    | error e =>
      have hcontent : t.content path = .error e := by
        rw [content, hlocate]
        rfl
      exact .inr (.inr (.inr ⟨e, fromSystem_locate t hnull e hlocate,
        readText_of_content_error hcontent⟩))
    | ok p =>
      have hcontent := content_of_locate hlocate
      cases hentry : t.entry? p with
      | none =>
        rw [hentry] at hcontent
        exact .inr (.inr (.inr ⟨_, rfl, readText_of_content_error hcontent⟩))
      | some entry =>
        have hexists : t.pathExists path = .ok true := by
          simp only [pathExists, hlocate, hentry, Option.isSome_some]
        rw [hentry] at hcontent
        cases entry with
        | directory => exact .inr (.inr (.inr ⟨_, rfl, readText_of_content_error hcontent⟩))
        | file c =>
          cases c with
          | text s => exact .inl ⟨_, readText_of_content hcontent, hexists⟩
          | bytes bytes =>
            have hread := readText_of_bytes hcontent
            cases hcause : Text.utf8Error? bytes with
            | none =>
              rw [hcause] at hread
              exact .inl ⟨"", hread, hexists⟩
            | some cause =>
              rw [hcause] at hread
              exact .inr (.inl ⟨cause, hread, hexists⟩)

end FileTree

/-! ## Paths that are too long -/

/-- Neither the path nor a name in it is too long for the system. -/
structure Path.Fits (path : Path) : Prop where
  names : ∀ name ∈ path.parts, name.utf8ByteSize ≤ maxNameBytes
  text : path.text.utf8ByteSize ≤ maxPathBytes

instance (path : Path) : Decidable path.Fits :=
  decidable_of_iff ((∀ name ∈ path.parts, name.utf8ByteSize ≤ maxNameBytes) ∧
      path.text.utf8ByteSize ≤ maxPathBytes)
    ⟨fun h => ⟨h.1, h.2⟩, fun h => ⟨h.names, h.text⟩⟩

namespace FileTree

variable {t : FileTree} {path : Path}

theorem requireDirectory_ne_nameTooLong (t : FileTree) (path : Path) (p : Place) (path' : Path) :
    t.requireDirectory path p ≠ .error (.nameTooLong path') := by
  unfold requireDirectory
  split <;> nofun

theorem locateFrom_nameTooLong {names : List String} {here : Place} {path' : Path}
    (h : t.locateFrom path here names = .error (.nameTooLong path')) :
    path' = path ∧ ∃ name ∈ names, maxNameBytes < name.utf8ByteSize := by
  induction names generalizing here with
  | nil => cases h
  | cons name names ih =>
    rw [locateFrom] at h
    cases hdirectory : t.requireDirectory path here with
    | error e =>
      rw [hdirectory] at h
      cases h
      exact absurd hdirectory (t.requireDirectory_ne_nameTooLong path here path')
    | ok =>
      rw [hdirectory] at h
      by_cases hlong : maxNameBytes < name.utf8ByteSize
      · simp only [bind, Except.bind, if_pos hlong] at h
        cases h
        exact ⟨rfl, name, List.mem_cons_self, hlong⟩
      · simp only [bind, Except.bind, if_neg hlong] at h
        obtain ⟨hpath, name', hname', hlong'⟩ := ih h
        exact ⟨hpath, name', List.mem_cons_of_mem _ hname', hlong'⟩

/-- The system only refuses a path that is too long for it. -/
theorem pathExists_eq_error {e : FileError} (h : t.pathExists path = .error e) :
    e = .nameTooLong path ∧ ¬ path.Fits := by
  unfold pathExists at h
  split at h
  · cases h
  · rename_i path' hlocate
    cases h
    by_cases hnull : '\x00' ∈ path.text.toList
    · rw [locate_null t hnull] at hlocate
      cases hlocate
    · rw [locate_of_not_null t hnull] at hlocate
      by_cases hlong : maxPathBytes < path.text.utf8ByteSize
      · rw [if_pos hlong] at hlocate
        cases hlocate
        exact ⟨rfl, fun hfits => absurd hfits.text (by omega)⟩
      · rw [if_neg hlong] at hlocate
        obtain ⟨rfl, name, hname, hlong⟩ := locateFrom_nameTooLong hlocate
        exact ⟨rfl, fun hfits => absurd (hfits.names name hname) (by omega)⟩
  · cases h

/-- A path whose first name is too long is refused. -/
theorem pathExists_of_long_name {name : String} {names : List String}
    (hparts : path.parts = name :: names) (hnull : '\x00' ∉ path.text.toList)
    (htext : path.text.utf8ByteSize ≤ maxPathBytes) (hlong : maxNameBytes < name.utf8ByteSize) :
    t.pathExists path = .error (.nameTooLong path) := by
  have hstart : t.requireDirectory path (Place.origin path) = .ok () :=
    (requireDirectory_eq_ok_iff path).mpr rfl
  have hlocate : t.locate path = .error (.nameTooLong path) := by
    rw [locate_of_not_null t hnull, if_neg (Nat.not_lt.mpr htext), hparts]
    simp only [locateFrom, hstart, if_pos hlong]
    rfl
  rw [pathExists, hlocate]

/-! ## What a path leads to -/

theorem pathExists_eq_true_iff : t.pathExists path = .ok true ↔ (t.find? path).isSome = true := by
  unfold pathExists find?
  cases hlocate : t.locate path with
  | ok p => simp
  | error e => cases e <;> simp

theorem find?_eq_none_of_pathExists (h : t.pathExists path = .ok false) : t.find? path = none := by
  rw [← Option.not_isSome_iff_eq_none, ← pathExists_eq_true_iff, h]
  nofun

/-- What a path leads to is an entry of the tree, unless it is an anchor. -/
theorem place_mem_entries (hnames : path.place.names ≠ []) (h : (t.find? path).isSome = true) :
    path.place ∈ t.entries.map Prod.fst := by
  unfold find? at h
  cases hlocate : t.locate path with
  | error e =>
    rw [hlocate] at h
    cases h
  | ok p =>
    obtain rfl := locate_eq hlocate
    simp only [hlocate, entry?, if_neg hnames, List.lookup_isSome_iff] at h
    obtain ⟨entry, hentry, heq⟩ := h
    exact List.mem_map.mpr ⟨entry, hentry, (eq_of_beq heq).symm⟩

end FileTree

end DiceTome
