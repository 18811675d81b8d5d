import DiceTome.Token.Scan
import DiceTome.Value

/-!
# The kinds of scanned tokens

The grammar sees what tokens stand for, not where they stand. `Token.kindsFrom` scans a text for
that alone, and `Token.scan_kinds` says that it is what the scanner does. The lemmas below it scan
one piece of text each, in front of whatever may follow the piece.
-/

namespace DiceTome.Token

/-- A cursor at the start of a text. -/
def Cursor.start : Cursor :=
  ⟨none, {}⟩

/-- The kinds of the tokens of a text. -/
def kindsFrom (trail : Trail) : List Char → Option (List Kind)
  | [] => some []
  | c :: cs =>
    match scanPiece .start trail c cs with
    | .error _ => none
    | .ok piece =>
      (kindsFrom piece.trail (cs.drop piece.extra)).map fun kinds => piece.kind.toList ++ kinds
termination_by cs => cs.length
decreasing_by simp only [List.length_drop, List.length_cons]; omega

/-! ## The place of a token does not matter -/

theorem toOption_bind (x : Except ε α) (f : α → Except ε β) :
    (x >>= f).toOption = x.toOption.bind fun a => (f a).toOption := by
  cases x <;> rfl

theorem toOption_map (x : Except ε α) (f : α → β) :
    (x.map f).toOption = x.toOption.map f := by
  cases x <;> rfl

theorem toOption_readNatural (cur cur' : Cursor) (cs digits : List Char) :
    (readNatural cur cs digits).toOption = (readNatural cur' cs digits).toOption := by
  unfold readNatural
  simp only
  split
  · rfl
  · split
    · rfl
    · split <;> rfl

theorem toOption_readFaces (cur cur' : Cursor) (cs behind : List Char) :
    (readFaces cur cs behind).toOption = (readFaces cur' cs behind).toOption := by
  unfold readFaces
  simp only
  split
  · rfl
  · rw [toOption_map, toOption_map, toOption_readNatural cur cur']

theorem toOption_readDecimal (cur cur' : Cursor) (cs whole fraction : List Char) :
    (readDecimal cur cs whole fraction).toOption =
      (readDecimal cur' cs whole fraction).toOption := by
  unfold readDecimal
  split
  · rfl
  · simp only
    split <;> rfl

theorem toOption_scanNumber (cur cur' : Cursor) (trail : Trail) (cs : List Char) :
    (scanNumber cur trail cs).toOption = (scanNumber cur' trail cs).toOption := by
  unfold scanNumber
  simp only
  split
  · simp only [toOption_bind, toOption_readNatural cur cur', toOption_readFaces cur cur']
  · split
    · rfl
    · simp only [toOption_bind, toOption_readDecimal cur cur']
  · simp only [toOption_bind, toOption_readNatural cur cur']

theorem toOption_scanName (cur cur' : Cursor) (c : Char) (cs : List Char) :
    (scanName cur c cs).toOption = (scanName cur' c cs).toOption := by
  unfold scanName
  split
  · simp only [toOption_bind, toOption_readFaces cur cur']
  · rfl

theorem toOption_scanString (cur cur' : Cursor) (cs : List Char) :
    (scanString cur cs).toOption = (scanString cur' cs).toOption := by
  unfold scanString
  split <;> rfl

theorem toOption_scanPiece (cur cur' : Cursor) (trail : Trail) (c : Char) (cs : List Char) :
    (scanPiece cur trail c cs).toOption = (scanPiece cur' trail c cs).toOption := by
  unfold scanPiece
  split
  · rfl
  split
  · rfl
  split
  · rfl
  split
  · exact toOption_scanNumber cur cur' trail (c :: cs)
  split
  · exact toOption_scanName cur cur' c cs
  split
  · exact toOption_scanString cur cur' cs
  · split <;> rfl

/-- The scanner finds tokens of these kinds. -/
theorem scanFrom_kinds (cur : Cursor) (trail : Trail) (cs : List Char) :
    (scanFrom cur trail cs).toOption.map (fun tokens => tokens.map Token.kind) =
      kindsFrom trail cs := by
  induction hn : cs.length using Nat.strongRecOn generalizing cur trail cs with
  | ind n ih =>
    subst hn
    rw [scanFrom.eq_def, kindsFrom.eq_def]
    cases cs with
    | nil => rfl
    | cons c cs =>
      have hpiece := toOption_scanPiece cur .start trail c cs
      simp only [toOption_bind, hpiece]
      cases scanPiece .start trail c cs with
      | error e => rfl
      | ok piece =>
        have hlt : (cs.drop piece.extra).length < (c :: cs).length := by
          simp only [List.length_drop, List.length_cons]
          omega
        have hrest := ih _ hlt (cur.advance (c :: cs.take piece.extra)) piece.trail _ rfl
        simp only [Except.toOption, Option.bind_some, ← hrest]
        cases scanFrom (cur.advance (c :: cs.take piece.extra)) piece.trail
            (cs.drop piece.extra) with
        | error e => rfl
        | ok tokens =>
          cases piece.kind <;> rfl

/-- A text is cut into tokens exactly if it has kinds, and the tokens are of these kinds. -/
theorem scan_kinds (source : String) :
    (scan source).toOption.map (fun tokens => tokens.map Token.kind) =
      kindsFrom .other source.toList :=
  scanFrom_kinds _ _ _

/-! ## Pieces -/

theorem kindsFrom_nil (trail : Trail) : kindsFrom trail [] = some [] := by
  rw [kindsFrom.eq_def]

theorem kindsFrom_cons {trail : Trail} {c : Char} {cs : List Char} {piece : Piece}
    (h : scanPiece .start trail c cs = .ok piece) :
    kindsFrom trail (c :: cs) =
      (kindsFrom piece.trail (cs.drop piece.extra)).map fun kinds =>
        piece.kind.toList ++ kinds := by
  rw [kindsFrom.eq_def]
  simp only [h]

/-- A piece that takes `more` after its first character. -/
theorem kindsFrom_append {trail trail' : Trail} {c : Char} {more rest : List Char} {kind : Kind}
    (h : scanPiece .start trail c (more ++ rest) = .ok ⟨more.length, some kind, trail'⟩) :
    kindsFrom trail (c :: (more ++ rest)) = (kindsFrom trail' rest).map (kind :: ·) := by
  rw [kindsFrom_cons h, List.drop_left]
  rfl

/-- A piece of one character. -/
theorem kindsFrom_sign {trail trail' : Trail} {c : Char} {rest : List Char} {kind : Kind}
    (h : scanPiece .start trail c rest = .ok ⟨0, some kind, trail'⟩) :
    kindsFrom trail (c :: rest) = (kindsFrom trail' rest).map (kind :: ·) := by
  rw [kindsFrom_cons h]
  rfl

theorem kindsFrom_separator {c : Char} (h : isSeparator c = true) (trail : Trail)
    (rest : List Char) : kindsFrom trail (c :: rest) = kindsFrom .other rest := by
  have hpiece : scanPiece .start trail c rest = .ok ⟨0, none, .other⟩ := by
    simp [scanPiece, h]
  rw [kindsFrom_cons hpiece]
  simp

theorem kindsFrom_delimiter (trail : Trail) (d : Delimiter) (rest : List Char) :
    kindsFrom trail (d.char :: rest) = (kindsFrom .other rest).map (.delimiter d :: ·) := by
  refine kindsFrom_sign ?_
  cases trail <;> cases d <;> rfl

theorem kindsFrom_minus (trail : Trail) (rest : List Char) :
    kindsFrom trail ('-' :: rest) =
      (kindsFrom .other rest).map (.operator (.binary .sub) :: ·) := by
  refine kindsFrom_sign ?_
  cases trail <;> rfl

theorem kindsFrom_not (trail : Trail) (rest : List Char) :
    kindsFrom trail ('!' :: rest) = (kindsFrom .other rest).map (.operator (.unary .not) :: ·) := by
  refine kindsFrom_sign ?_
  cases trail <;> rfl

/-- The symbol of an operator between two operands, where a blank follows. -/
theorem kindsFrom_symbol {op : BinaryOp} (hop : op ≠ .keep) (trail : Trail) (rest : List Char) :
    kindsFrom trail (op.symbol.toList ++ ' ' :: rest) =
      (kindsFrom .other rest).map (.operator (.binary op) :: ·) := by
  have hsymbol : ∃ c more, op.symbol.toList = c :: more ∧ ∀ trail,
      scanPiece .start trail c (more ++ ' ' :: rest) =
        .ok ⟨more.length, some (.operator (.binary op)), .other⟩ := by
    cases op <;> first
      | exact absurd rfl hop
      | exact ⟨_, _, rfl, fun trail => by cases trail <;> rfl⟩
  obtain ⟨c, more, hchars, hpiece⟩ := hsymbol
  rw [hchars, List.cons_append, kindsFrom_append (hpiece trail),
    kindsFrom_separator (by decide)]

/-! ## Edges -/

/-- The text goes on with nothing that could belong to a word or a number before it. -/
def Edge (rest : List Char) : Prop :=
  ∀ c ∈ rest.head?, Text.isWordChar c = false ∧ c ≠ '.'

/-- The text goes on with nothing that could belong to digits before it. -/
def DigitEdge (rest : List Char) : Prop :=
  ∀ c ∈ rest.head?, Text.isDigit c = false ∧ c ≠ '.'

theorem isWordChar_of_isDigit {c : Char} (h : Text.isDigit c = true) :
    Text.isWordChar c = true := by
  simp [Text.isWordChar, h]

theorem Edge.digitEdge {rest : List Char} (h : Edge rest) : DigitEdge rest := by
  intro c hc
  obtain ⟨hword, hpoint⟩ := h c hc
  refine ⟨?_, hpoint⟩
  cases hdigit : Text.isDigit c with
  | false => rfl
  | true => exact absurd (isWordChar_of_isDigit hdigit) (by simp [hword])

theorem takeWhile_append_edge {p : Char → Bool} {pre rest : List Char} (hpre : pre.all p = true)
    (hrest : ∀ c ∈ rest.head?, p c = false) : (pre ++ rest).takeWhile p = pre := by
  have hnone : rest.takeWhile p = [] := by
    cases rest with
    | nil => rfl
    | cons c rest => simp [hrest c rfl]
  rw [List.takeWhile_append_of_pos (by simpa using hpre), hnone, List.append_nil]

theorem dropWhile_append_edge {p : Char → Bool} {pre rest : List Char} (hpre : pre.all p = true)
    (hrest : ∀ c ∈ rest.head?, p c = false) : (pre ++ rest).dropWhile p = rest := by
  have hall : rest.dropWhile p = rest := by
    cases rest with
    | nil => rfl
    | cons c rest => simp [hrest c rfl]
  rw [List.dropWhile_append_of_pos (by simpa using hpre), hall]

/-- The roll operators are letters. -/
theorem suffix?_eq_none {c : Char} (h : Text.isWordStart c = false) (trail : Trail)
    (cs : List Char) : suffix? trail c cs = none := by
  have hlookup : Operator.suffixes.lookup c = none := by
    have hne : c ≠ 'a' ∧ c ≠ 'd' ∧ c ≠ 'k' ∧ c ≠ 's' := by
      refine ⟨?_, ?_, ?_, ?_⟩ <;>
      · rintro rfl
        exact absurd h (by decide)
    simp [Operator.suffixes, List.lookup_cons, beq_eq_false_iff_ne.mpr, hne]
  simp [suffix?, hlookup]

theorem suffix?_of_ne {trail : Trail} (h : trail ≠ .roll) (c : Char) (cs : List Char) :
    suffix? trail c cs = none := by
  simp [suffix?, h]

/-- Behind an edge it does not matter what stood before. -/
theorem kindsFrom_edge {rest : List Char} (h : Edge rest) (trail : Trail) :
    kindsFrom trail rest = kindsFrom .other rest := by
  cases rest with
  | nil => rw [kindsFrom_nil, kindsFrom_nil]
  | cons c cs =>
    obtain ⟨hword, hpoint⟩ := h c rfl
    have hdigit := (h.digitEdge c rfl).1
    have hstart : Text.isWordStart c = false := by
      simp only [Text.isWordChar, Bool.or_eq_false_iff] at hword
      simp [Text.isWordStart, hword]
    have hpiece : scanPiece .start trail c cs = scanPiece .start .other c cs := by
      simp [scanPiece, suffix?_eq_none hstart, hdigit, hpoint]
    rw [kindsFrom.eq_def, kindsFrom.eq_def]
    simp only [hpiece]

/-! ## Names -/

/-- A word that the scanner takes for a name: a letter or underscore and further word characters,
unless it starts like the roll of one die. -/
def isName (n : String) : Bool :=
  match n.toList with
  | [] => false
  | c :: cs =>
    Text.isWordStart c && !Text.isDigit c && cs.all Text.isWordChar &&
      !(c == 'd' && cs.head?.any Text.isDigit)

theorem isName_iff {n : String} :
    isName n = true ↔ ∃ c cs, n.toList = c :: cs ∧ Text.isWordStart c = true ∧
      Text.isDigit c = false ∧ cs.all Text.isWordChar = true ∧
      (c == 'd' && cs.head?.any Text.isDigit) = false := by
  unfold isName
  cases n.toList with
  | nil => simp
  | cons c cs =>
    simp only [Bool.and_eq_true, Bool.not_eq_true', and_assoc]
    constructor
    · exact fun h => ⟨c, cs, rfl, h⟩
    · rintro ⟨_, _, ⟨⟩, h⟩
      exact h

theorem not_separator_of_isWordStart {c : Char} (h : Text.isWordStart c = true) :
    isSeparator c = false ∧ c ≠ '#' ∧ c ≠ '.' := by
  refine ⟨?_, ?_, ?_⟩
  · simp only [isSeparator, Bool.or_eq_false_iff, beq_eq_false_iff_ne]
    refine ⟨⟨⟨?_, ?_⟩, ?_⟩, ?_⟩ <;>
    · rintro rfl
      exact absurd h (by decide)
  · rintro rfl
    exact absurd h (by decide)
  · rintro rfl
    exact absurd h (by decide)

/-- A name in front of anything that no word goes on with. -/
theorem kindsFrom_identifier {n : String} (hn : isName n = true) {trail : Trail}
    (htrail : trail ≠ .roll) {rest : List Char}
    (hrest : ∀ c ∈ rest.head?, Text.isWordChar c = false) :
    kindsFrom trail (n.toList ++ rest) = (kindsFrom .other rest).map (.identifier n :: ·) := by
  obtain ⟨c, cs, hchars, hstart, hdigit, hword, hroll⟩ := isName_iff.mp hn
  obtain ⟨hsep, hhash, hpoint⟩ := not_separator_of_isWordStart hstart
  rw [hchars, List.cons_append]
  refine kindsFrom_append ?_
  have hmore : (cs ++ rest).takeWhile Text.isWordChar = cs :=
    takeWhile_append_edge hword hrest
  have hname : (c == 'd' && (cs ++ rest).head?.any Text.isDigit) = false := by
    cases cs with
    | nil =>
      cases rest with
      | nil => simp
      | cons e rest =>
        have he := hrest e rfl
        simp only [Text.isWordChar, Bool.or_eq_false_iff] at he
        simp [he]
    | cons e cs => exact hroll
  have hscan : scanName .start c (cs ++ rest) =
      .ok ⟨cs.length, some (.identifier n), .other⟩ := by
    have hword : String.ofList (c :: cs) = n := by rw [← hchars, String.ofList_toList]
    simp only [scanName, hname, hmore, hword, Bool.false_eq_true, if_false]
  simp [scanPiece, suffix?_of_ne htrail, hsep, hhash, hpoint, hdigit, hstart, hscan]

theorem kindsFrom_name {n : String} (hn : isName n = true) {trail : Trail} (htrail : trail ≠ .roll)
    {rest : List Char} (hrest : Edge rest) :
    kindsFrom trail (n.toList ++ rest) = (kindsFrom .other rest).map (.identifier n :: ·) :=
  kindsFrom_identifier hn htrail fun c hc => (hrest c hc).1

/-! ## Digits -/

theorem toNat_lt_of_isDigit {c : Char} (h : c.isDigit = true) : c.toNat < 128 :=
  Nat.lt_of_le_of_lt (Char.isDigit_iff_toNat.mp h).2 (by decide)

theorem isDigit_of_ascii {c : Char} (h : c.isDigit = true) : Text.isDigit c = true := by
  simp [Text.isDigit, toNat_lt_of_isDigit h, h]

/-- ASCII digits are worth what they say. -/
theorem digitsValue?_of_ascii {cs : List Char} (h : cs.all Char.isDigit = true) :
    Text.digitsValue? cs = some (Nat.ofDigitChars 10 cs 0) := by
  suffices ∀ n, cs.foldlM (fun n c => (Text.digitValue? c).map (10 * n + ·)) n =
      some (Nat.ofDigitChars 10 cs n) from this 0
  induction cs with
  | nil => exact fun n => rfl
  | cons c cs ih =>
    intro n
    simp only [List.all_cons, Bool.and_eq_true] at h
    simp only [List.foldlM_cons, Text.digitValue?, toNat_lt_of_isDigit h.1, if_true, h.1,
      Option.map_some]
    exact ih h.2 _

theorem ofDigitChars_dropWhile (cs : List Char) :
    Nat.ofDigitChars 10 (cs.dropWhile (· == '0')) 0 = Nat.ofDigitChars 10 cs 0 := by
  induction cs with
  | nil => rfl
  | cons c cs ih =>
    by_cases hc : c = '0'
    · subst hc
      rw [List.dropWhile_cons_of_pos (by rfl), ih, Nat.ofDigitChars_cons]
      rfl
    · rw [List.dropWhile_cons_of_neg (by simpa using hc)]

theorem all_isDigit_toDigits (n : Nat) : (Nat.toDigits 10 n).all Char.isDigit = true :=
  List.all_eq_true.mpr fun _ hc => Nat.isDigit_of_mem_toDigits (by decide) (by decide) hc

theorem all_text_isDigit {cs : List Char} (h : cs.all Char.isDigit = true) :
    cs.all Text.isDigit = true :=
  List.all_eq_true.mpr fun c hc => isDigit_of_ascii (List.all_eq_true.mp h c hc)

/-- Every further digit multiplies the value by ten at least. -/
theorem mul_pow_le_ofDigitChars (cs : List Char) (n : Nat) :
    n * Nat.pow 10 cs.length ≤ Nat.ofDigitChars 10 cs n := by
  induction cs generalizing n with
  | nil => exact Nat.le_of_eq (Nat.mul_one n)
  | cons c cs ih =>
    calc n * Nat.pow 10 (c :: cs).length = n * (Nat.pow 10 cs.length * 10) := rfl
      _ = 10 * n * Nat.pow 10 cs.length := by
          rw [Nat.mul_comm 10 n, Nat.mul_assoc, Nat.mul_comm 10]
      _ ≤ (10 * n + (c.toNat - '0'.toNat)) * Nat.pow 10 cs.length :=
          Nat.mul_le_mul_right _ (Nat.le_add_right _ _)
      _ ≤ Nat.ofDigitChars 10 cs (10 * n + (c.toNat - '0'.toNat)) := ih _
      _ = Nat.ofDigitChars 10 (c :: cs) n := Nat.ofDigitChars_cons.symm

/-- A digit that is not zero is worth one at least. -/
theorem one_le_of_isDigit {c : Char} (h : c.isDigit = true) (hzero : c ≠ '0') :
    1 ≤ c.toNat - '0'.toNat := by
  have hge : '0'.toNat ≤ c.toNat := (Char.isDigit_iff_toNat.mp h).1
  have hne : c.toNat ≠ '0'.toNat := fun heq => hzero (Char.toNat_inj.mp heq)
  omega

/-- More than twenty digits behind the leading zeros spell a number that is too large. -/
theorem maxNatural_lt_of_long {ds : List Char} (hds : ds.all Char.isDigit = true)
    (hlong : 20 < (ds.dropWhile (· == '0')).length) : maxNatural < Nat.ofDigitChars 10 ds 0 := by
  rw [← ofDigitChars_dropWhile]
  cases hsignificant : ds.dropWhile (· == '0') with
  | nil => simp [hsignificant] at hlong
  | cons c cs =>
    have hzero : c ≠ '0' := by
      simpa [hsignificant] using List.head?_dropWhile_not (· == '0') ds
    have hmem : c ∈ ds.dropWhile (· == '0') := hsignificant ▸ List.mem_cons_self
    have hc : c.isDigit = true :=
      List.all_eq_true.mp hds c ((List.dropWhile_sublist _).subset hmem)
    have hlength : 20 ≤ cs.length := by
      rw [hsignificant, List.length_cons] at hlong
      omega
    calc maxNatural < 1 * Nat.pow 10 20 := by decide
      _ ≤ 1 * Nat.pow 10 cs.length :=
          Nat.mul_le_mul_left _ (Nat.pow_le_pow_right (by decide) hlength)
      _ ≤ (10 * 0 + (c.toNat - '0'.toNat)) * Nat.pow 10 cs.length :=
          Nat.mul_le_mul_right _ (by simpa using one_le_of_isDigit hc hzero)
      _ ≤ Nat.ofDigitChars 10 cs (10 * 0 + (c.toNat - '0'.toNat)) := mul_pow_le_ofDigitChars _ _
      _ = Nat.ofDigitChars 10 (c :: cs) 0 := Nat.ofDigitChars_cons.symm

/-- Digits are read as the number they spell, unless that is too large. -/
theorem readNatural_of_ascii {ds : List Char} (hds : ds.all Char.isDigit = true) (cur : Cursor)
    (cs : List Char) :
    readNatural cur cs ds =
      if Nat.ofDigitChars 10 ds 0 ≤ maxNatural then .ok (Nat.ofDigitChars 10 ds 0)
      else .error (invalidNumber cur cs (some .natural)) := by
  have hall : (ds.dropWhile (· == '0')).all Char.isDigit = true :=
    List.all_eq_true.mpr fun c hc =>
      List.all_eq_true.mp hds c ((List.dropWhile_sublist _).subset hc)
  simp only [readNatural, digitsValue?_of_ascii hall, ofDigitChars_dropWhile]
  by_cases hlong : 20 < (ds.dropWhile (· == '0')).length
  · rw [if_pos hlong, if_neg (Nat.not_le.mpr (maxNatural_lt_of_long hds hlong))]
  · rw [if_neg hlong]
    by_cases hle : Nat.ofDigitChars 10 ds 0 ≤ maxNatural
    · rw [if_neg (Nat.not_lt.mpr hle), if_pos hle]
    · rw [if_pos (Nat.not_le.mp hle), if_neg hle]

/-- The digits of a number that is not too large are read as that number. -/
theorem readNatural_toDigits {n : Nat} (hn : n ≤ maxNatural) (cur : Cursor) (cs : List Char) :
    readNatural cur cs (Nat.toDigits 10 n) = .ok n := by
  rw [readNatural_of_ascii (all_isDigit_toDigits n), Nat.ofDigitChars_ten_toDigits, if_pos hn]

theorem toDigits_eq_cons (n : Nat) :
    ∃ c cs, Nat.toDigits 10 n = c :: cs ∧ c.isDigit = true ∧ cs.all Char.isDigit = true := by
  have hall := all_isDigit_toDigits n
  cases hdigits : Nat.toDigits 10 n with
  | nil => exact absurd hdigits Nat.toDigits_ne_nil
  | cons c cs =>
    rw [hdigits, List.all_cons, Bool.and_eq_true] at hall
    exact ⟨c, cs, rfl, hall.1, hall.2⟩

/-- A text that starts with a digit is a number. -/
theorem scanPiece_digit {c : Char} (h : c.isDigit = true) {trail : Trail} (htrail : trail ≠ .roll)
    (cur : Cursor) (cs : List Char) :
    scanPiece cur trail c cs = scanNumber cur trail (c :: cs) := by
  have hne : isSeparator c = false ∧ c ≠ '#' := by
    refine ⟨?_, ?_⟩
    · simp only [isSeparator, Bool.or_eq_false_iff, beq_eq_false_iff_ne]
      refine ⟨⟨⟨?_, ?_⟩, ?_⟩, ?_⟩ <;>
      · rintro rfl
        exact absurd h (by decide)
    · rintro rfl
      exact absurd h (by decide)
  simp [scanPiece, hne, suffix?_of_ne htrail, isDigit_of_ascii h]

theorem takeWhile_digits {ds rest : List Char} (hds : ds.all Char.isDigit = true)
    (hrest : DigitEdge rest) : (ds ++ rest).takeWhile Text.isDigit = ds :=
  takeWhile_append_edge (all_text_isDigit hds) fun c hc => (hrest c hc).1

theorem dropWhile_digits {ds rest : List Char} (hds : ds.all Char.isDigit = true)
    (hrest : DigitEdge rest) : (ds ++ rest).dropWhile Text.isDigit = rest :=
  dropWhile_append_edge (all_text_isDigit hds) fun c hc => (hrest c hc).1

theorem digitEdge_cons {c : Char} (h : Text.isDigit c = false) (hpoint : c ≠ '.')
    (rest : List Char) : DigitEdge (c :: rest) := by
  intro e he
  cases he
  exact ⟨h, hpoint⟩

/-- The digits of a number that is too large are not read. -/
theorem readNatural_large {n : Nat} (hn : maxNatural < n) (cur : Cursor) (cs : List Char) :
    readNatural cur cs (Nat.toDigits 10 n) = .error (invalidNumber cur cs (some .natural)) := by
  rw [readNatural_of_ascii (all_isDigit_toDigits n), Nat.ofDigitChars_ten_toDigits,
    if_neg (Nat.not_le.mpr hn)]

/-- Digits with neither a `d` nor a point behind them. -/
theorem scanNumber_natural {cur : Cursor} {trail : Trail} {cs : List Char}
    (h : ∀ c ∈ (cs.dropWhile Text.isDigit).head?, c ≠ 'd' ∧ c ≠ '.') :
    scanNumber cur trail cs = (readNatural cur cs (cs.takeWhile Text.isDigit)).map fun n =>
      ⟨(cs.takeWhile Text.isDigit).length - 1, some (.natural n),
        if trail = .keep then .roll else .other⟩ := by
  unfold scanNumber
  dsimp only
  split
  · rename_i hd
    rw [hd] at h
    exact absurd rfl (h 'd' rfl).1
  · rename_i hpoint
    rw [hpoint] at h
    exact absurd rfl (h '.' rfl).2
  · cases readNatural cur cs (cs.takeWhile Text.isDigit) <;> rfl

theorem scanNumber_digits {ds rest : List Char} (hds : ds.all Char.isDigit = true)
    (hrest : DigitEdge rest) (hd : rest.head? ≠ some 'd') (cur : Cursor) (trail : Trail) :
    scanNumber cur trail (ds ++ rest) = (readNatural cur (ds ++ rest) ds).map fun n =>
      ⟨ds.length - 1, some (.natural n), if trail = .keep then .roll else .other⟩ := by
  have hbehind : ∀ c ∈ ((ds ++ rest).dropWhile Text.isDigit).head?, c ≠ 'd' ∧ c ≠ '.' := by
    rw [dropWhile_digits hds hrest]
    exact fun c hc => ⟨fun h => hd (h ▸ hc), (hrest c hc).2⟩
  rw [scanNumber_natural hbehind, takeWhile_digits hds hrest]

/-- A natural. The letter `d` behind it would make it the quantity of a roll. -/
theorem kindsFrom_natural {n : Nat} (hn : n ≤ maxNatural) {trail : Trail} (htrail : trail ≠ .roll)
    {rest : List Char} (hrest : DigitEdge rest) (hd : rest.head? ≠ some 'd') :
    kindsFrom trail (Nat.toDigits 10 n ++ rest) =
      (kindsFrom (if trail = .keep then .roll else .other) rest).map (.natural n :: ·) := by
  have hscan := scanNumber_digits (all_isDigit_toDigits n) hrest hd .start trail
  rw [readNatural_toDigits hn] at hscan
  obtain ⟨c, cs, hdigits, hc, -⟩ := toDigits_eq_cons n
  rw [hdigits] at hscan ⊢
  refine kindsFrom_append ?_
  rw [scanPiece_digit hc htrail, ← List.cons_append, hscan]
  rfl

/-- A number too large for a literal. -/
theorem kindsFrom_large {n : Nat} (hn : maxNatural < n) {trail : Trail} (htrail : trail ≠ .roll)
    {rest : List Char} (hrest : DigitEdge rest) (hd : rest.head? ≠ some 'd') :
    kindsFrom trail (Nat.toDigits 10 n ++ rest) = none := by
  have hscan := scanNumber_digits (all_isDigit_toDigits n) hrest hd .start trail
  rw [readNatural_large hn] at hscan
  obtain ⟨c, cs, hdigits, hc, -⟩ := toDigits_eq_cons n
  rw [hdigits, List.cons_append] at hscan ⊢
  rw [kindsFrom.eq_def]
  simp only [scanPiece_digit hc htrail, hscan]
  rfl

theorem readFaces_digits {faces rest : List Char} (hfaces : faces.all Char.isDigit = true)
    (hne : faces ≠ []) (hrest : DigitEdge rest) (cur : Cursor) (cs : List Char) :
    readFaces cur cs (faces ++ rest) = (readNatural cur cs faces).map (·, faces) := by
  have hpoint : rest.head? ≠ some '.' := fun h => (hrest '.' h).2 rfl
  simp [readFaces, takeWhile_digits hfaces hrest, dropWhile_digits hfaces hrest, hne, hpoint]

/-- Digits on both sides of a `d`. -/
theorem scanNumber_roll {whole faces rest : List Char} (hwhole : whole.all Char.isDigit = true)
    (hfaces : faces.all Char.isDigit = true) (hne : faces ≠ []) (hrest : DigitEdge rest)
    (cur : Cursor) (trail : Trail) :
    scanNumber cur trail (whole ++ 'd' :: (faces ++ rest)) = do
      let quantity ← readNatural cur (whole ++ 'd' :: (faces ++ rest)) whole
      let die ← readNatural cur (whole ++ 'd' :: (faces ++ rest)) faces
      return ⟨whole.length + faces.length, some (.roll quantity die), .roll⟩ := by
  have hbehind : DigitEdge ('d' :: (faces ++ rest)) := digitEdge_cons (by decide) (by decide) _
  simp only [scanNumber, takeWhile_digits hwhole hbehind, dropWhile_digits hwhole hbehind,
    readFaces_digits hfaces hne hrest]
  congr 1
  funext quantity
  cases readNatural cur (whole ++ 'd' :: (faces ++ rest)) faces <;> rfl

/-- Digits behind a `d` that starts a word. -/
theorem scanName_roll {faces rest : List Char} (hfaces : faces.all Char.isDigit = true)
    (hne : faces ≠ []) (hrest : DigitEdge rest) (cur : Cursor) :
    scanName cur 'd' (faces ++ rest) =
      (readNatural cur ('d' :: (faces ++ rest)) faces).map fun die =>
        ⟨faces.length, some (.roll 1 die), .roll⟩ := by
  have hdigit : ('d' == 'd' && (faces ++ rest).head?.any Text.isDigit) = true := by
    cases faces with
    | nil => exact absurd rfl hne
    | cons c cs =>
      rw [List.all_cons, Bool.and_eq_true] at hfaces
      simp [isDigit_of_ascii hfaces.1]
  rw [scanName, if_pos hdigit, readFaces_digits hfaces hne hrest]
  cases readNatural cur ('d' :: (faces ++ rest)) faces <;> rfl

/-- The digits of a quantity of dice; one die goes without. -/
def quantityDigits (quantity : Nat) : List Char :=
  if quantity = 1 then [] else Nat.toDigits 10 quantity

/-- A `d` is no roll operator unless a roll stands before it. -/
theorem scanPiece_d {trail : Trail} (htrail : trail ≠ .roll) (cur : Cursor) (cs : List Char) :
    scanPiece cur trail 'd' cs = scanName cur 'd' cs := by
  simp only [scanPiece, suffix?_of_ne htrail]
  rfl

/-- A roll. -/
theorem kindsFrom_roll {quantity die : Nat} (hquantity : quantity ≤ maxNatural)
    (hdie : die ≤ maxNatural) {trail : Trail} (htrail : trail ≠ .roll) {rest : List Char}
    (hrest : DigitEdge rest) :
    kindsFrom trail (quantityDigits quantity ++ 'd' :: (Nat.toDigits 10 die ++ rest)) =
      (kindsFrom .roll rest).map (.roll quantity die :: ·) := by
  have hfaces := all_isDigit_toDigits die
  by_cases hone : quantity = 1
  · subst hone
    refine kindsFrom_append ?_
    rw [scanPiece_d htrail, scanName_roll hfaces Nat.toDigits_ne_nil hrest,
      readNatural_toDigits hdie]
    rfl
  · obtain ⟨c, cs, hdigits, hc, -⟩ := toDigits_eq_cons quantity
    have hscan := scanNumber_roll (all_isDigit_toDigits quantity) hfaces Nat.toDigits_ne_nil hrest
      .start trail
    rw [readNatural_toDigits hquantity, readNatural_toDigits hdie, hdigits] at hscan
    have htext : quantityDigits quantity ++ 'd' :: (Nat.toDigits 10 die ++ rest) =
        c :: ((cs ++ 'd' :: Nat.toDigits 10 die) ++ rest) := by
      simp [quantityDigits, hone, hdigits]
    have hlength : (cs ++ 'd' :: Nat.toDigits 10 die).length =
        (c :: cs).length + (Nat.toDigits 10 die).length := by
      simp only [List.length_append, List.length_cons]
      omega
    rw [htext]
    refine kindsFrom_append ?_
    rw [scanPiece_digit hc htrail, ← List.cons_append]
    simp only [List.cons_append, List.append_assoc] at hscan ⊢
    rw [hscan, hlength]
    rfl

/-- A decimal. -/
theorem kindsFrom_decimal {whole fraction : List Char} (hne : whole ≠ [])
    (hwhole : whole.all Char.isDigit = true) (hfraction : fraction.all Char.isDigit = true)
    {x : Float} (hx : Decimal.ofDigits (Nat.ofDigitChars 10 (whole ++ fraction) 0)
      fraction.length = x) (hfinite : x.isFinite = true) {trail : Trail} (htrail : trail ≠ .roll)
    {rest : List Char} (hrest : DigitEdge rest) (hd : rest.head? ≠ some 'd') :
    kindsFrom trail (whole ++ '.' :: (fraction ++ rest)) =
      (kindsFrom .other rest).map (.decimal x :: ·) := by
  have hpoint : rest.head? ≠ some '.' := fun h => (hrest '.' h).2 rfl
  have hbehind : ∀ c ∈ ('.' :: (fraction ++ rest)).head?, Text.isDigit c = false := by
    rintro c ⟨⟩
    decide
  have hread : readDecimal .start (whole ++ '.' :: (fraction ++ rest)) whole fraction = .ok x := by
    have hall : (whole ++ fraction).all Char.isDigit = true := by
      simp only [List.all_append, hwhole, hfraction, Bool.and_self]
    simp [readDecimal, digitsValue?_of_ascii hall, hx, hfinite]
  have hscan : scanNumber .start trail (whole ++ '.' :: (fraction ++ rest)) =
      .ok ⟨whole.length + fraction.length, some (.decimal x), .other⟩ := by
    unfold scanNumber
    simp only [takeWhile_append_edge (all_text_isDigit hwhole) hbehind,
      dropWhile_append_edge (all_text_isDigit hwhole) hbehind, takeWhile_digits hfraction hrest,
      dropWhile_digits hfraction hrest, hread]
    simp only [Bool.or_eq_true, Bool.and_eq_true, List.isEmpty_iff, hne, false_and, beq_iff_eq,
      hpoint, or_self, hd, if_false]
    rfl
  obtain _ | ⟨c, cs⟩ := whole
  · exact absurd rfl hne
  have hc : c.isDigit = true := (Bool.and_eq_true _ _ ▸ hwhole : _ ∧ _).1
  have htext : c :: cs ++ '.' :: (fraction ++ rest) = c :: ((cs ++ '.' :: fraction) ++ rest) := by
    simp
  rw [htext] at hscan ⊢
  refine kindsFrom_append ?_
  rw [scanPiece_digit hc htrail, hscan]
  simp
  omega

/-! ## Strings -/

theorem readString_escapeChar (c : Char) (rest : List Char) :
    readString (Value.escapeChar c ++ rest) =
      (readString rest).after c (Value.escapeChar c).length := by
  by_cases hc : c = '\\' ∨ c = '"' ∨ c = '\n' ∨ c = '\t'
  · rcases hc with rfl | rfl | rfl | rfl <;>
      simp [Value.escapeChar, readString, unescape?]
  · simp only [not_or] at hc
    have hescape : Value.escapeChar c = [c] := by
      simp [Value.escapeChar, hc]
    rw [hescape]
    simp only [List.singleton_append, List.length_singleton]
    rw [readString.eq_def]
    split <;> simp_all

/-- Reading the escaped characters of a string up to the quote gives the string. -/
theorem readString_escaped (cs rest : List Char) :
    readString (cs.flatMap Value.escapeChar ++ '"' :: rest) =
      .closed cs ((cs.flatMap Value.escapeChar).length + 1) := by
  induction cs with
  | nil => rw [List.flatMap_nil, List.nil_append, readString.eq_def]; rfl
  | cons c cs ih =>
    rw [List.flatMap_cons, List.append_assoc, readString_escapeChar, ih, StringEnd.after,
      List.length_append]
    congr 1
    omega

/-- A string. -/
theorem kindsFrom_string (s : String) (trail : Trail) (rest : List Char) :
    kindsFrom trail ((Value.stringLiteral s).toList ++ rest) =
      (kindsFrom .other rest).map (.string s :: ·) := by
  have hscan : scanString .start (s.toList.flatMap Value.escapeChar ++ ['"'] ++ rest) =
      .ok ⟨(s.toList.flatMap Value.escapeChar ++ ['"']).length, some (.string s), .other⟩ := by
    rw [List.append_assoc, List.singleton_append, scanString, readString_escaped]
    simp
  rw [Value.stringLiteral, String.toList_ofList, List.cons_append, List.cons_append]
  refine kindsFrom_append ?_
  rw [← hscan]
  cases trail <;> rfl

/-! ## Roll operators -/

theorem kindsFrom_suffix {c : Char} {op : Operator} {rest : List Char}
    (h : suffix? .roll c rest = some op) (hsep : isSeparator c = false) (hhash : c ≠ '#') :
    kindsFrom .roll (c :: rest) =
      (kindsFrom (if op = .binary .keep then .keep else .roll) rest).map (.operator op :: ·) := by
  refine kindsFrom_sign ?_
  simp [scanPiece, hsep, hhash, h]

/-- A keep, where a digit or the end of a word follows. -/
theorem kindsFrom_keep {rest : List Char}
    (hrest : ∀ c ∈ rest.head?, Text.isWordChar c = true → Text.isDigit c = true) :
    kindsFrom .roll ('k' :: rest) =
      (kindsFrom .keep rest).map (.operator (.binary .keep) :: ·) := by
  have hsuffix : suffix? .roll 'k' rest = some (.binary .keep) := by
    cases rest with
    | nil => rfl
    | cons c rest =>
      have hlookup : Operator.suffixes.lookup 'k' = some (.binary .keep) := rfl
      simp only [suffix?, hlookup, List.head?_cons]
      cases hdigit : Text.isDigit c with
      | true => rfl
      | false =>
        cases hword : Text.isWordChar c with
        | true => exact absurd (hrest c rfl hword) (by simp [hdigit])
        | false => rfl
  exact kindsFrom_suffix hsuffix (by decide) (by decide)

/-- An operator after a roll, where a word ends. -/
theorem kindsFrom_postfixOp {op : UnaryOp} (hop : op.isPostfix = true) {rest : List Char}
    (hrest : Edge rest) :
    kindsFrom .roll (op.symbol.toList ++ rest) =
      (kindsFrom .other rest).map (.operator (.unary op) :: ·) := by
  have hsymbol : ∃ c, op.symbol.toList = [c] ∧ isSeparator c = false ∧ c ≠ '#' ∧
      Operator.suffixes.lookup c = some (.unary op) := by
    cases op <;> first
      | exact ⟨_, rfl, by decide, by decide, rfl⟩
      | cases hop
  obtain ⟨c, hchars, hsep, hhash, hlookup⟩ := hsymbol
  have hsuffix : suffix? .roll c rest = some (.unary op) := by
    cases rest with
    | nil => simp [suffix?, hlookup]
    | cons e rest =>
      have hword := (hrest e rfl).1
      have hdigit := (hrest.digitEdge e rfl).1
      simp [suffix?, hlookup, hword, hdigit]
  rw [hchars, List.singleton_append, kindsFrom_suffix hsuffix hsep hhash, kindsFrom_edge hrest]

end DiceTome.Token
