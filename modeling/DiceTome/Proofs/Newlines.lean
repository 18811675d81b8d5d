import DiceTome.Proofs.Tiling
import Mathlib.Data.List.Find

/-!
# Scanning starts again at a newline

No token goes on behind a newline, and no letter behind one is taken for a roll operator. So the
tokens of two texts with a newline between them are the tokens of the one and then those of the
other, further down.

* `Token.shift` and `ScanError.shift` move tokens and errors further down the text.
  `Token.scanFrom_shift` says that the scanner does not mind where a text stands.
* `Token.scanPiece_newline` says that a piece does not change if a newline follows the text it is
  cut from, and `Token.Cuts.newline` that the rest of the text is then scanned by itself.
* `Token.scan_newline` puts both together.
-/

namespace DiceTome

/-! ## Texts that stand further down -/

/-- The same column, some lines and characters further down. -/
def Location.shift (lines chars : Nat) (loc : Location) : Location :=
  ⟨loc.line + lines, loc.column, loc.offset + chars⟩

def Span.shift (lines chars : Nat) (span : Span) : Span :=
  { span with start := span.start.shift lines chars, stop := span.stop.shift lines chars }

def Token.shift (lines chars : Nat) (t : Token) : Token :=
  { t with span := t.span.shift lines chars }

def Token.Cursor.shift (lines chars : Nat) (cur : Cursor) : Cursor :=
  { cur with loc := cur.loc.shift lines chars }

/-- The same error about a place further down. -/
def ScanError.shift (lines chars : Nat) : ScanError → ScanError
  | unexpectedCharacter c span => unexpectedCharacter c (span.shift lines chars)
  | unterminatedString span => unterminatedString (span.shift lines chars)
  | invalidEscape c span => invalidEscape c (span.shift lines chars)
  | invalidNumber text limit span => invalidNumber text limit (span.shift lines chars)
  | unreadableNatural digits => unreadableNatural digits
  | unreadableDecimal text => unreadableDecimal text

/-- The error keeps its number and its message. -/
theorem ScanError.diagnostic?_shift (lines chars : Nat) (source source' : String) (e : ScanError) :
    ((e.shift lines chars).diagnostic? source').map (fun d => (d.code, d.message)) =
      (e.diagnostic? source).map fun d => (d.code, d.message) := by
  cases e <;> rfl

/-- An error without a number keeps its text. -/
theorem ScanError.text_shift {source : String} {e : ScanError} (h : e.diagnostic? source = none)
    (lines chars : Nat) (source' : String) :
    (e.shift lines chars).text source' = e.text source := by
  cases e with
  | unreadableNatural | unreadableDecimal => rfl
  | _ => cases h

theorem mapError_bind (f : ε → ε') (x : Except ε α) (k : α → Except ε β) :
    (x >>= k).mapError f = x.mapError f >>= fun a => (k a).mapError f := by
  cases x <;> rfl

theorem mapError_map (f : ε → ε') (g : α → β) (x : Except ε α) :
    (x.map g).mapError f = (x.mapError f).map g := by
  cases x <;> rfl

namespace Location

variable (lines chars : Nat)

theorem next_shift (loc : Location) (c : Char) :
    (loc.shift lines chars).next c = (loc.next c).shift lines chars := by
  unfold next
  split <;> simp [shift, Int.add_right_comm, Nat.add_right_comm]

theorem advance_shift (loc : Location) (cs : List Char) :
    (loc.shift lines chars).advance cs = (loc.advance cs).shift lines chars := by
  induction cs generalizing loc with
  | nil => rfl
  | cons c cs ih =>
    change ((loc.shift lines chars).next c).advance cs = ((loc.next c).advance cs).shift lines chars
    rw [next_shift, ih]

end Location

namespace Token

section Shift

variable (lines chars : Nat) (cur : Cursor)

theorem Cursor.advance_shift (cs : List Char) :
    (cur.shift lines chars).advance cs = (cur.advance cs).shift lines chars := by
  simp only [Cursor.advance, Cursor.shift, Location.advance_shift]

theorem Cursor.advance_advance (cs ds : List Char) :
    (cur.advance cs).advance ds = cur.advance (cs ++ ds) := by
  simp only [Cursor.advance, Location.advance_append]

theorem Cursor.span_shift (cs : List Char) :
    (cur.shift lines chars).span cs = (cur.span cs).shift lines chars := by
  simp only [Cursor.span, Cursor.shift, Span.shift, Location.advance_shift]

theorem invalidNumber_shift (cs : List Char) (limit : Option NumberLimit) :
    invalidNumber (cur.shift lines chars) cs limit =
      (invalidNumber cur cs limit).shift lines chars := by
  simp only [invalidNumber, Cursor.span_shift, ScanError.shift]

theorem readNatural_shift (cs digits : List Char) :
    readNatural (cur.shift lines chars) cs digits =
      (readNatural cur cs digits).mapError (ScanError.shift lines chars) := by
  simp only [readNatural, invalidNumber_shift]
  split
  · rfl
  · split
    · rfl
    · split <;> rfl

theorem readFaces_shift (cs behind : List Char) :
    readFaces (cur.shift lines chars) cs behind =
      (readFaces cur cs behind).mapError (ScanError.shift lines chars) := by
  simp only [readFaces, invalidNumber_shift, readNatural_shift]
  split
  · rfl
  · rw [mapError_map]

theorem readDecimal_shift (cs whole fraction : List Char) :
    readDecimal (cur.shift lines chars) cs whole fraction =
      (readDecimal cur cs whole fraction).mapError (ScanError.shift lines chars) := by
  simp only [readDecimal, invalidNumber_shift]
  split
  · rfl
  · split <;> rfl

theorem scanNumber_shift (trail : Trail) (cs : List Char) :
    scanNumber (cur.shift lines chars) trail cs =
      (scanNumber cur trail cs).mapError (ScanError.shift lines chars) := by
  simp only [scanNumber, invalidNumber_shift]
  split
  · simp only [readNatural_shift, readFaces_shift, mapError_bind]
    rfl
  · split
    · rfl
    · simp only [readDecimal_shift, mapError_bind]
      rfl
  · simp only [readNatural_shift, mapError_bind]
    rfl

theorem scanName_shift (c : Char) (cs : List Char) :
    scanName (cur.shift lines chars) c cs =
      (scanName cur c cs).mapError (ScanError.shift lines chars) := by
  unfold scanName
  split
  · rw [readFaces_shift, mapError_bind]
    rfl
  · rfl

theorem scanString_shift (cs : List Char) :
    scanString (cur.shift lines chars) cs =
      (scanString cur cs).mapError (ScanError.shift lines chars) := by
  simp only [scanString, Cursor.advance_shift, Cursor.span_shift]
  split <;> rfl

theorem scanPiece_shift (trail : Trail) (c : Char) (cs : List Char) :
    scanPiece (cur.shift lines chars) trail c cs =
      (scanPiece cur trail c cs).mapError (ScanError.shift lines chars) := by
  unfold scanPiece
  split
  · rfl
  split
  · rfl
  split
  · rfl
  split
  · exact scanNumber_shift lines chars cur trail (c :: cs)
  split
  · exact scanName_shift lines chars cur c cs
  split
  · exact scanString_shift lines chars cur cs
  · split
    · rfl
    · rfl
    · rw [Cursor.span_shift]
      rfl

/-- The scanner does the same further down the text. -/
theorem scanFrom_shift (trail : Trail) (cs : List Char) :
    scanFrom (cur.shift lines chars) trail cs =
      ((scanFrom cur trail cs).map (List.map (Token.shift lines chars))).mapError
        (ScanError.shift lines chars) := by
  induction hn : cs.length using Nat.strongRecOn generalizing cur trail cs with
  | ind n ih =>
    subst hn
    cases cs with
    | nil =>
      rw [scanFrom, scanFrom]
      rfl
    | cons c cs =>
      rw [scanFrom, scanFrom, scanPiece_shift]
      cases scanPiece cur trail c cs with
      | error e => rfl
      | ok piece =>
        have hshorter : (cs.drop piece.extra).length < (c :: cs).length := by
          rw [List.length_drop, List.length_cons]
          omega
        have hrest := ih _ hshorter (cur.advance (c :: cs.take piece.extra)) piece.trail _ rfl
        simp only [Except.mapError, bind, Except.bind, Cursor.advance_shift, Cursor.span_shift,
          hrest]
        cases scanFrom (cur.advance (c :: cs.take piece.extra)) piece.trail
            (cs.drop piece.extra) with
        | error e => rfl
        | ok tokens => cases piece.kind <;> rfl

end Shift

/-! ## Texts with a newline behind them -/

section Newline

variable (cs rest : List Char)

theorem takeWhile_newline {p : Char → Bool} (hp : p '\n' = false) :
    (cs ++ '\n' :: rest).takeWhile p = cs.takeWhile p := by
  induction cs with
  | nil => simp [hp]
  | cons c cs ih =>
    rw [List.cons_append, List.takeWhile_cons, List.takeWhile_cons, ih]

theorem dropWhile_newline {p : Char → Bool} (hp : p '\n' = false) :
    (cs ++ '\n' :: rest).dropWhile p = cs.dropWhile p ++ '\n' :: rest := by
  induction cs with
  | nil => simp [hp]
  | cons c cs ih =>
    rw [List.cons_append, List.dropWhile_cons, List.dropWhile_cons, ih]
    split <;> rfl

/-- A newline is no character that a scanner looks for. -/
theorem head?_newline {c : Char} (hc : c ≠ '\n') :
    ((cs ++ '\n' :: rest).head? == some c) = (cs.head? == some c) := by
  cases cs with
  | nil => simpa using hc.symm
  | cons => rfl

theorem any_head?_newline {p : Char → Bool} (hp : p '\n' = false) :
    (cs ++ '\n' :: rest).head?.any p = cs.head?.any p := by
  cases cs with
  | nil => simpa using hp
  | cons => rfl

theorem isDigit_newline : Text.isDigit '\n' = false := by
  decide

theorem invalidNumber_newline (cur : Cursor) (limit : Option NumberLimit) :
    invalidNumber cur (cs ++ '\n' :: rest) limit = invalidNumber cur cs limit := by
  simp only [invalidNumber]
  rw [takeWhile_newline cs rest (by decide)]

theorem readNatural_newline (cur : Cursor) (digits : List Char) :
    readNatural cur (cs ++ '\n' :: rest) digits = readNatural cur cs digits := by
  simp only [readNatural, invalidNumber_newline]

theorem readFaces_newline (cur : Cursor) (behind : List Char) :
    readFaces cur (cs ++ '\n' :: rest) (behind ++ '\n' :: rest) = readFaces cur cs behind := by
  simp only [readFaces, takeWhile_newline behind rest isDigit_newline,
    dropWhile_newline behind rest isDigit_newline, invalidNumber_newline, readNatural_newline,
    head?_newline _ rest (show '.' ≠ '\n' by decide)]

theorem readDecimal_newline (cur : Cursor) (whole fraction : List Char) :
    readDecimal cur (cs ++ '\n' :: rest) whole fraction = readDecimal cur cs whole fraction := by
  simp only [readDecimal, invalidNumber_newline]

theorem scanNumber_newline (cur : Cursor) (trail : Trail) :
    scanNumber cur trail (cs ++ '\n' :: rest) = scanNumber cur trail cs := by
  have htake := takeWhile_newline cs rest isDigit_newline
  have hdrop := dropWhile_newline cs rest isDigit_newline
  by_cases hnatural : ∀ c ∈ (cs.dropWhile Text.isDigit).head?, c ≠ 'd' ∧ c ≠ '.'
  · have hnatural' :
        ∀ c ∈ ((cs ++ '\n' :: rest).dropWhile Text.isDigit).head?, c ≠ 'd' ∧ c ≠ '.' := by
      rw [hdrop]
      cases hhead : cs.dropWhile Text.isDigit with
      | nil => simp
      | cons => rwa [hhead] at hnatural
    rw [scanNumber_natural hnatural, scanNumber_natural hnatural', htake, readNatural_newline]
  · simp only [not_forall] at hnatural
    obtain ⟨c, hc, hspecial⟩ := hnatural
    obtain ⟨behind, hbehind⟩ := List.head?_eq_some_iff.mp hc
    rw [hbehind] at hdrop
    rcases not_and_or.mp hspecial with hd | hpoint
    · obtain rfl := not_not.mp hd
      simp only [scanNumber, htake, hdrop, hbehind, List.cons_append, readNatural_newline,
        readFaces_newline]
    · obtain rfl := not_not.mp hpoint
      simp only [scanNumber, htake, hdrop, hbehind, List.cons_append,
        takeWhile_newline behind rest isDigit_newline,
        dropWhile_newline behind rest isDigit_newline, invalidNumber_newline, readDecimal_newline,
        head?_newline _ rest (show '.' ≠ '\n' by decide),
        head?_newline _ rest (show 'd' ≠ '\n' by decide)]

theorem scanName_newline (cur : Cursor) (c : Char) :
    scanName cur c (cs ++ '\n' :: rest) = scanName cur c cs := by
  have hfaces := readFaces_newline (c :: cs) rest cur cs
  rw [List.cons_append] at hfaces
  rw [scanName, scanName, any_head?_newline cs rest isDigit_newline, hfaces,
    takeWhile_newline cs rest (by decide)]

theorem suffix?_newline (trail : Trail) (c : Char) :
    suffix? trail c (cs ++ '\n' :: rest) = suffix? trail c cs := by
  cases cs with
  | cons => rfl
  | nil =>
    simp only [suffix?, List.nil_append, List.head?_cons, List.head?_nil]
    cases Operator.suffixes.lookup c with
    | none => rfl
    | some op => rfl

theorem isPrefixOf_newline {pre : List Char} (hpre : '\n' ∉ pre) :
    pre.isPrefixOf (cs ++ '\n' :: rest) = pre.isPrefixOf cs := by
  induction pre generalizing cs with
  | nil => rfl
  | cons c pre ih =>
    rw [List.mem_cons, not_or] at hpre
    cases cs with
    | nil =>
      rw [List.nil_append, List.isPrefixOf_cons_cons, beq_eq_false_iff_ne.mpr (Ne.symm hpre.1)]
      rfl
    | cons d cs =>
      rw [List.cons_append, List.isPrefixOf_cons_cons, List.isPrefixOf_cons_cons, ih _ hpre.2]

theorem literal?_newline : literal? (cs ++ '\n' :: rest) = literal? cs := by
  have hliterals : ∀ p ∈ Operator.literals, '\n' ∉ p.1.toList := by decide
  rw [literal?, literal?, List.find?_congr fun p hp => isPrefixOf_newline cs rest (hliterals p hp)]

variable {cs} in
/-- Nothing changes a string that is closed. -/
theorem readString_append {text : List Char} {length : Nat}
    (h : readString cs = .closed text length) :
    readString (cs ++ rest) = .closed text length := by
  fun_induction readString cs generalizing text length with
  | case1 | case3 | case4 | case5 => cases h
  | case2 => cases h; rfl
  | case6 e cs c hsome ih =>
    obtain ⟨text', length', hrest, rfl⟩ := StringEnd.after_eq_closed h
    rw [hrest] at h
    rw [List.cons_append, List.cons_append, readString, hsome]
    dsimp only
    rw [ih hrest, h]
  | case7 c cs hquote hnewline hend hescape ih =>
    obtain ⟨text', length', hrest, rfl⟩ := StringEnd.after_eq_closed h
    rw [hrest] at h
    have hslash : c ≠ '\\' := by
      intro hc
      cases cs with
      | nil => exact hend hc rfl
      | cons e cs => exact hescape e cs hc rfl
    rw [List.cons_append, readString, ih hrest, h]
    · exact hquote
    · exact hnewline
    · exact fun hc _ => hslash hc
    · exact fun e more hc _ => hslash hc

variable {cs} in
theorem scanString_append {cur : Cursor} {piece : Piece} (h : scanString cur cs = .ok piece) :
    scanString cur (cs ++ rest) = .ok piece := by
  rw [scanString] at h ⊢
  split at h
  · rename_i hread
    rw [readString_append rest hread]
    exact h
  · cases h
  · cases h

theorem scanPiece_quote (cur : Cursor) (trail : Trail) :
    scanPiece cur trail '"' cs = scanString cur cs := by
  cases trail <;> rfl

variable {cs} in
/-- A piece is the same if a newline follows the text. -/
theorem scanPiece_newline {cur : Cursor} {trail : Trail} {c : Char} {piece : Piece}
    (h : scanPiece cur trail c cs = .ok piece) :
    scanPiece cur trail c (cs ++ '\n' :: rest) = .ok piece := by
  have hnumber := scanNumber_newline (c :: cs) rest cur trail
  have hliteral := literal?_newline (c :: cs) rest
  rw [List.cons_append] at hnumber hliteral
  by_cases hc : c = '"'
  · subst hc
    rw [scanPiece_quote] at h ⊢
    exact scanString_append _ h
  · rw [← h]
    simp only [scanPiece, beq_eq_false_iff_ne.mpr hc,
      takeWhile_newline cs rest (p := (· != '\n')) rfl, suffix?_newline, hnumber, scanName_newline,
      hliteral, Bool.false_eq_true, if_false]

end Newline

/-! ## Two texts -/

section Cut

variable {cur : Cursor} {trail trail' : Trail} {c : Char} {more rest : List Char}

theorem scanFrom_skip
    (h : scanPiece cur trail c (more ++ rest) = .ok ⟨more.length, none, trail'⟩) :
    scanFrom cur trail (c :: more ++ rest) = scanFrom (cur.advance (c :: more)) trail' rest := by
  rw [List.cons_append, scanFrom, h]
  simp only [bind, Except.bind, List.take_left, List.drop_left]
  cases scanFrom (cur.advance (c :: more)) trail' rest <;> rfl

theorem scanFrom_token {kind : Kind}
    (h : scanPiece cur trail c (more ++ rest) = .ok ⟨more.length, some kind, trail'⟩) :
    scanFrom cur trail (c :: more ++ rest) =
      (scanFrom (cur.advance (c :: more)) trail' rest).map
        (⟨kind, String.ofList (c :: more), cur.span (c :: more)⟩ :: ·) := by
  rw [List.cons_append, scanFrom, h]
  simp only [bind, Except.bind, List.take_left, List.drop_left]
  cases scanFrom (cur.advance (c :: more)) trail' rest <;> rfl

end Cut

/-- Behind a text that is cut into tokens and a newline, nothing of that text matters. -/
theorem Cuts.newline {cur : Cursor} {trail : Trail} {cs : List Char} {tokens : List Token}
    (h : Cuts cur trail cs tokens) (rest : List Char) :
    scanFrom cur trail (cs ++ '\n' :: rest) =
      (scanFrom (cur.advance (cs ++ ['\n'])) .other rest).map (tokens ++ ·) := by
  induction h with
  | done cur trail =>
    have hskip : scanFrom cur trail (['\n'] ++ rest) = scanFrom (cur.advance ['\n']) .other rest :=
      scanFrom_skip rfl
    change scanFrom cur trail (['\n'] ++ rest) = _
    rw [hskip]
    cases hrest : scanFrom (cur.advance ['\n']) .other rest <;> simp [hrest, Except.map]
  | @skip cur trail trail' c more behind tokens hpiece hrest ih =>
    have hlonger := scanPiece_newline rest hpiece
    rw [List.append_assoc] at hlonger
    rw [List.append_assoc, scanFrom_skip hlonger, ih, Cursor.advance_advance, List.append_assoc]
  | @token cur trail trail' c more behind kind tokens hpiece hrest ih =>
    have hlonger := scanPiece_newline rest hpiece
    rw [List.append_assoc] at hlonger
    rw [List.append_assoc, scanFrom_token hlonger, ih, Cursor.advance_advance, List.append_assoc]
    cases scanFrom _ _ rest <;> rfl

/-- The start of a text behind another text and a newline. -/
theorem advance_newline (cs : List Char) :
    ({} : Location).advance (cs ++ ['\n']) =
      ({} : Location).shift (cs.count '\n' + 1) (cs.length + 1) := by
  have hline := (Location.advance_lines cs).1
  have hoffset := Location.offset_advance {} cs
  rw [Location.advance_append]
  change Location.mk ((Location.advance {} cs).line + 1) 1 ((Location.advance {} cs).offset + 1) = _
  rw [hline, hoffset]
  simp only [Location.shift, Location.mk.injEq, true_and]
  omega

/-- The tokens of two texts with a newline between them are those of the first text and then those
of the second, further down. An error of the second text is the same error further down: it keeps
its code and its message, or its text if it has no code. -/
theorem scan_newline {a : String} {file : Option String} {tokens : List Token}
    (ha : scan a file = .ok tokens) (b : String) :
    let whole := a ++ "\n" ++ b
    let lines := a.toList.count '\n' + 1
    let chars := a.length + 1
    (∀ later, scan b file = .ok later →
      scan whole file = .ok (tokens ++ later.map (Token.shift lines chars))) ∧
    ∀ e, scan b file = .error e →
      scan whole file = .error (e.shift lines chars) ∧
        ((e.shift lines chars).diagnostic? whole).map (fun d => (d.code, d.message)) =
          (e.diagnostic? b).map (fun d => (d.code, d.message)) ∧
        (e.diagnostic? b = none → (e.shift lines chars).text whole = e.text b) := by
  intro whole lines chars
  have hchars : whole.toList = a.toList ++ '\n' :: b.toList := by
    simp [whole]
  have hstart : (Cursor.mk file {}).advance (a.toList ++ ['\n']) =
      (Cursor.mk file {}).shift lines chars := by
    rw [Cursor.advance, advance_newline, String.length_toList]
    rfl
  have hwhole : scan whole file = (((scan b file).map (List.map (Token.shift lines chars))).mapError
      (ScanError.shift lines chars)).map (tokens ++ ·) := by
    rw [scan, hchars, (cuts_of_scanFrom ha).newline, hstart, scanFrom_shift, scan]
  refine ⟨fun later hb => ?_, fun e hb => ⟨?_, ?_, fun hnone => ?_⟩⟩
  · rw [hwhole, hb]
    rfl
  · rw [hwhole, hb]
    rfl
  · exact e.diagnostic?_shift lines chars b whole
  · exact ScanError.text_shift hnone lines chars whole

/-- Directly behind the roll, the letter would be a keep. -/
theorem scan_newline_keep :
    let roll : Token := ⟨.roll 2 6, "2d6", ⟨⟨1, 1, 0⟩, ⟨1, 4, 3⟩, none⟩⟩
    let name : Token := ⟨.identifier "k", "k", ⟨⟨1, 1, 0⟩, ⟨1, 2, 1⟩, none⟩⟩
    scan "2d6" = .ok [roll] ∧ scan "k" = .ok [name] ∧
      scan ("2d6" ++ "\n" ++ "k") = .ok [roll, name.shift 1 4] := by
  intro roll name
  have ha : scan "2d6" = .ok [roll] := scan_of_within rfl
  have hb : scan "k" = .ok [name] := scan_of_within rfl
  exact ⟨ha, hb, (scan_newline ha "k").1 [name] hb⟩

end Token

end DiceTome
