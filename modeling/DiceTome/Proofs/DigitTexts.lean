import DiceTome.Proofs.ScannedKinds
import Mathlib.Data.List.TakeWhile

/-!
# Texts of digits

A text of ASCII digits is one literal, however long it is and however many zeros it starts with,
and so are two such texts with a `d` between them. The scanner drops the zeros, counts the digits
that are left and only then looks at their value; what it finds is settled by the value alone.

* `Token.IsLiteral` says that a whole text is one token, or one invalid number if what it spells is
  too large.
* `Token.scan_digits` says so of naturals and of rolls with and without a quantity.
-/

namespace DiceTome.Token

/-- The text is made of ASCII digits, and there is one. -/
structure IsDigits (s : String) : Prop where
  ne_empty : s ≠ ""
  digits : s.toList.all Char.isDigit = true

instance (s : String) : Decidable (IsDigits s) :=
  decidable_of_iff (s ≠ "" ∧ s.toList.all Char.isDigit = true)
    ⟨fun h => ⟨h.1, h.2⟩, fun h => ⟨h.ne_empty, h.digits⟩⟩

/-- The number that the digits of a text spell. -/
def decimalValue (s : String) : Nat :=
  Nat.ofDigitChars 10 s.toList 0

/-- The range of a whole text. -/
def wholeSpan (text : String) (file : Option String) : Span :=
  Cursor.span ⟨file, {}⟩ text.toList

/-- The error about a text that spells too large a number. -/
def tooLarge (text : String) (file : Option String) : ScanError :=
  .invalidNumber text (some .natural) (wholeSpan text file)

/-- The whole text is one token of the kind, if what it spells fits; otherwise it is one invalid
number. -/
structure IsLiteral (text : String) (kind : Kind) (fits : Prop) : Prop where
  token : fits → ∀ file, scan text file = .ok [⟨kind, text, wholeSpan text file⟩]
  refused : ¬fits → ∀ file, scan text file = .error (tooLarge text file) ∧
    ((tooLarge text file).diagnostic? text).map Diagnostic.code = some "E004"

/-! ## Texts of one piece -/

theorem scanFrom_whole {cur : Cursor} {trail trail' : Trail} {c : Char} {cs : List Char}
    {kind : Kind} (h : scanPiece cur trail c cs = .ok ⟨cs.length, some kind, trail'⟩) :
    scanFrom cur trail (c :: cs) =
      .ok [⟨kind, String.ofList (c :: cs), cur.span (c :: cs)⟩] := by
  rw [scanFrom.eq_def]
  simp only [h]
  change (scanFrom _ trail' (cs.drop cs.length) >>= _) = _
  rw [List.drop_length, scanFrom.eq_def, List.take_length]
  rfl

theorem scanFrom_error {cur : Cursor} {trail : Trail} {c : Char} {cs : List Char} {e : ScanError}
    (h : scanPiece cur trail c cs = .error e) : scanFrom cur trail (c :: cs) = .error e := by
  rw [scanFrom.eq_def]
  simp only [h]
  rfl

/-- A malformed literal of word characters is the whole text. -/
theorem invalidNumber_whole {cs : List Char} (h : cs.all Text.isWordChar = true) (cur : Cursor)
    (limit : Option NumberLimit) :
    invalidNumber cur cs limit = .invalidNumber (String.ofList cs) limit (cur.span cs) := by
  have hall : cs.all (fun c => Text.isWordChar c || c == '.') = true :=
    List.all_eq_true.mpr fun c hc => by rw [List.all_eq_true.mp h c hc, Bool.true_or]
  rw [invalidNumber, List.takeWhile_eq_self_iff.mpr (List.all_eq_true.mp hall)]

theorem isLiteral_of_piece {text : String} {kind : Kind} {fits : Prop} [Decidable fits] {c : Char}
    {cs : List Char} (trail : Trail) (htext : text.toList = c :: cs)
    (hword : (c :: cs).all Text.isWordChar = true)
    (h : ∀ cur, scanPiece cur .other c cs =
      if fits then .ok ⟨cs.length, some kind, trail⟩
      else .error (invalidNumber cur (c :: cs) (some .natural))) :
    IsLiteral text kind fits := by
  have hlist : String.ofList (c :: cs) = text := by rw [← htext, String.ofList_toList]
  refine ⟨fun hfits file => ?_, fun hfits file => ⟨?_, rfl⟩⟩
  · rw [scan, htext, scanFrom_whole ((h _).trans (if_pos hfits)), hlist, wholeSpan, htext]
  · rw [scan, htext, scanFrom_error ((h _).trans (if_neg hfits)), invalidNumber_whole hword, hlist,
      tooLarge, wholeSpan, htext]

/-! ## Digits -/

theorem all_isWordChar_of_digits {cs : List Char} (h : cs.all Char.isDigit = true) :
    cs.all Text.isWordChar = true :=
  List.all_eq_true.mpr fun c hc =>
    isWordChar_of_isDigit (isDigit_of_ascii (List.all_eq_true.mp h c hc))

theorem digitEdge_nil : DigitEdge [] := by
  intro c hc
  cases hc

theorem IsDigits.exists_cons {s : String} (h : IsDigits s) :
    ∃ c cs, s.toList = c :: cs ∧ c.isDigit = true ∧ cs.all Char.isDigit = true := by
  have hall := h.digits
  cases hchars : s.toList with
  | nil => exact absurd (String.toList_eq_nil_iff.mp hchars) h.ne_empty
  | cons c cs =>
    rw [hchars, List.all_cons, Bool.and_eq_true] at hall
    exact ⟨c, cs, rfl, hall.1, hall.2⟩

theorem IsDigits.toList_ne_nil {s : String} (h : IsDigits s) : s.toList ≠ [] :=
  fun hnil => h.ne_empty (String.toList_eq_nil_iff.mp hnil)

theorem IsDigits.isLiteral_natural {s : String} (h : IsDigits s) :
    IsLiteral s (.natural (decimalValue s)) (decimalValue s ≤ maxNatural) := by
  obtain ⟨c, cs, hchars, hc, -⟩ := h.exists_cons
  have hdigits := hchars ▸ h.digits
  refine isLiteral_of_piece .other hchars (all_isWordChar_of_digits hdigits) fun cur => ?_
  have hscan := scanNumber_digits hdigits digitEdge_nil (by simp) cur .other
  rw [List.append_nil, readNatural_of_ascii hdigits] at hscan
  rw [scanPiece_digit hc (by decide), hscan, decimalValue, hchars]
  by_cases hvalue : Nat.ofDigitChars 10 (c :: cs) 0 ≤ maxNatural
  · rw [if_pos hvalue, if_pos hvalue]
    rfl
  · rw [if_neg hvalue, if_neg hvalue]
    rfl

theorem IsDigits.isLiteral_roll {s t : String} (hs : IsDigits s) (ht : IsDigits t) :
    IsLiteral (s ++ "d" ++ t) (.roll (decimalValue s) (decimalValue t))
      (decimalValue s ≤ maxNatural ∧ decimalValue t ≤ maxNatural) := by
  obtain ⟨c, cs, hchars, hc, -⟩ := hs.exists_cons
  have hdigits := hchars ▸ hs.digits
  have htext : (s ++ "d" ++ t).toList = c :: (cs ++ 'd' :: t.toList) := by
    simp [hchars]
  have hword : (c :: (cs ++ 'd' :: t.toList)).all Text.isWordChar = true := by
    rw [← List.cons_append, List.all_append, all_isWordChar_of_digits hdigits, List.all_cons,
      all_isWordChar_of_digits ht.digits]
    decide
  refine isLiteral_of_piece .roll htext hword fun cur => ?_
  have hscan := scanNumber_roll hdigits ht.digits ht.toList_ne_nil digitEdge_nil cur .other
  rw [List.append_nil, readNatural_of_ascii hdigits, readNatural_of_ascii ht.digits,
    List.cons_append] at hscan
  have hlength : (cs ++ 'd' :: t.toList).length = (c :: cs).length + t.toList.length := by
    simp only [List.length_append, List.length_cons]
    omega
  rw [scanPiece_digit hc (by decide), hscan, hlength, decimalValue, decimalValue, hchars]
  by_cases hquantity : Nat.ofDigitChars 10 (c :: cs) 0 ≤ maxNatural
  · by_cases hdie : Nat.ofDigitChars 10 t.toList 0 ≤ maxNatural
    · simp only [hquantity, hdie, and_self, if_true]
      rfl
    · simp only [hquantity, hdie, and_false, if_true, if_false]
      rfl
  · simp only [hquantity, false_and, if_false]
    rfl

theorem IsDigits.isLiteral_die {t : String} (ht : IsDigits t) :
    IsLiteral ("d" ++ t) (.roll 1 (decimalValue t)) (decimalValue t ≤ maxNatural) := by
  have hword : ('d' :: t.toList).all Text.isWordChar = true := by
    rw [List.all_cons, all_isWordChar_of_digits ht.digits]
    decide
  refine isLiteral_of_piece .roll (by simp) hword fun cur => ?_
  have hscan := scanName_roll ht.digits ht.toList_ne_nil digitEdge_nil cur
  rw [List.append_nil, readNatural_of_ascii ht.digits] at hscan
  rw [scanPiece_d (by decide), hscan, decimalValue]
  split <;> rfl

/-- Digits, digits on both sides of a `d` and digits behind a `d` are one literal each, and the
values of the digits alone settle whether it is refused. -/
theorem scan_digits {s t : String} (hs : IsDigits s) (ht : IsDigits t) :
    IsLiteral s (.natural (decimalValue s)) (decimalValue s ≤ Nat.pow 2 64 - 1) ∧
      IsLiteral (s ++ "d" ++ t) (.roll (decimalValue s) (decimalValue t))
        (decimalValue s ≤ Nat.pow 2 64 - 1 ∧ decimalValue t ≤ Nat.pow 2 64 - 1) ∧
      IsLiteral ("d" ++ t) (.roll 1 (decimalValue t)) (decimalValue t ≤ Nat.pow 2 64 - 1) :=
  ⟨hs.isLiteral_natural, hs.isLiteral_roll ht, ht.isLiteral_die⟩

/-- The largest natural is read, with zeros in front of it; the next number is refused as the faces
of a roll. -/
theorem scan_digits_limit :
    IsDigits "0018446744073709551615" ∧ IsDigits "18446744073709551616" ∧
      scan "0018446744073709551615" =
        .ok [⟨.natural 18446744073709551615, "0018446744073709551615",
          wholeSpan "0018446744073709551615" none⟩] ∧
      scan "0018446744073709551615d18446744073709551616" =
        .error (tooLarge "0018446744073709551615d18446744073709551616" none) ∧
      scan "d18446744073709551616" = .error (tooLarge "d18446744073709551616" none) := by
  have hs : IsDigits "0018446744073709551615" := by decide
  have ht : IsDigits "18446744073709551616" := by decide
  obtain ⟨hnatural, hroll, hdie⟩ := scan_digits hs ht
  exact ⟨hs, ht, hnatural.token (by decide) none, (hroll.refused (by decide) none).1,
    (hdie.refused (by decide) none).1⟩

end DiceTome.Token
