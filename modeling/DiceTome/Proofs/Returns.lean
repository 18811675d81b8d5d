import DiceTome.Proofs.Newlines
import DiceTome.Proofs.Restore

/-!
# Carriage returns in a written context

A text file gives a carriage return as a newline. A context that is written has carriage returns in
its strings alone, where they stand as they are, and a string must not hold a newline: so a context
with a carriage return in its text cannot even be cut into tokens once it comes from a file.

* `Sheltered` texts have quotes and carriage returns in string literals alone.
* `Token.quote_not_mem_of_scanPiece`: no piece that starts outside of a string reaches into one.
* `Token.kindsFrom_unifyNewlines`: a sheltered text with a carriage return is not cut into tokens
  behind its way through a file.
* `Context.Lawful.sheltered_dump`: written contexts are sheltered.
-/

namespace DiceTome

open Token

/-! ## Characters outside of strings -/

/-- Whether a character starts no string and no comment and is not changed by a file. -/
def isBare (c : Char) : Bool :=
  c != '"' && c != '\r' && c != '#'

/-- The text has quotes and carriage returns in string literals alone, and no comments. -/
inductive Sheltered : List Char → Prop
  | nil : Sheltered []
  | bare {c : Char} {cs : List Char} (hc : isBare c = true) (h : Sheltered cs) : Sheltered (c :: cs)
  | literal (s : String) {cs : List Char} (h : Sheltered cs) :
    Sheltered ((Value.stringLiteral s).toList ++ cs)

theorem Sheltered.append {cs ds : List Char} (h : Sheltered cs) (h' : Sheltered ds) :
    Sheltered (cs ++ ds) := by
  induction h with
  | nil => exact h'
  | bare hc _ ih => exact .bare hc ih
  | literal s _ ih =>
    rw [List.append_assoc]
    exact .literal s ih

theorem sheltered_of_bare {cs : List Char} (h : ∀ c ∈ cs, isBare c = true) : Sheltered cs := by
  induction cs with
  | nil => exact .nil
  | cons c cs ih =>
    exact .bare (h c List.mem_cons_self) (ih fun d hd => h d (List.mem_cons_of_mem _ hd))

theorem isBare_iff {c : Char} : isBare c = true ↔ c ≠ '"' ∧ c ≠ '\r' ∧ c ≠ '#' := by
  simp [isBare, and_assoc]

theorem return_not_mem_escapeChar {c : Char} (h : c ≠ '\r') : '\r' ∉ Value.escapeChar c := by
  unfold Value.escapeChar
  repeat' split
  all_goals simp_all [Ne.symm h]

/-! ## Texts that come from a file -/

namespace Text

theorem unifyNewlines_cons {c : Char} (h : c ≠ '\r') (cs : List Char) :
    unifyNewlines (c :: cs) = c :: unifyNewlines cs := by
  rw [unifyNewlines]
  · intro _ hc
    exact absurd hc h
  · intro hc
    exact absurd hc h

theorem unifyNewlines_return (cs : List Char) : ∃ ds, unifyNewlines ('\r' :: cs) = '\n' :: ds := by
  rw [unifyNewlines.eq_def]
  split
  · contradiction
  · exact ⟨_, rfl⟩
  · exact ⟨_, rfl⟩
  · rename_i hreturn heq
    obtain ⟨rfl, -⟩ := List.cons.inj heq
    exact absurd rfl hreturn

theorem unifyNewlines_append {cs : List Char} (h : '\r' ∉ cs) (ds : List Char) :
    unifyNewlines (cs ++ ds) = cs ++ unifyNewlines ds := by
  induction cs with
  | nil => rfl
  | cons c cs ih =>
    rw [List.mem_cons, not_or] at h
    rw [List.cons_append, unifyNewlines_cons (Ne.symm h.1), ih h.2, List.cons_append]

theorem unifyNewlines_eq {cs : List Char} (h : '\r' ∉ cs) : unifyNewlines cs = cs := by
  have hnil : unifyNewlines [] = [] := rfl
  have happend := unifyNewlines_append h []
  rwa [List.append_nil, hnil, List.append_nil] at happend

end Text

theorem return_not_mem_stringLiteral {s : String} (h : '\r' ∉ s.toList) :
    '\r' ∉ (Value.stringLiteral s).toList := by
  have hescaped : '\r' ∉ s.toList.flatMap Value.escapeChar := by
    rw [List.mem_flatMap]
    rintro ⟨c, hc, hmem⟩
    exact return_not_mem_escapeChar (fun heq => h (heq ▸ hc)) hmem
  simpa [Value.stringLiteral] using hescaped

theorem toList_stringLiteral (s : String) (rest : List Char) :
    (Value.stringLiteral s).toList ++ rest =
      '"' :: (s.toList.flatMap Value.escapeChar ++ '"' :: rest) := by
  simp [Value.stringLiteral]

/-- What is left of a sheltered text where no string has started yet. -/
theorem Sheltered.drop {cs : List Char} (h : Sheltered cs) {n : Nat}
    (hn : '"' ∉ (Text.unifyNewlines cs).take n) :
    (Text.unifyNewlines cs).drop n = Text.unifyNewlines (cs.drop n) ∧ Sheltered (cs.drop n) ∧
      ('\r' ∈ cs → '\r' ∈ cs.drop n) := by
  induction n generalizing cs with
  | zero => exact ⟨rfl, h, id⟩
  | succ n ih =>
    cases h with
    | nil => exact ⟨rfl, .nil, nofun⟩
    | @bare c cs hc h =>
      obtain ⟨-, hreturn, -⟩ := isBare_iff.mp hc
      rw [Text.unifyNewlines_cons hreturn] at hn ⊢
      rw [List.take_succ_cons, List.mem_cons, not_or] at hn
      obtain ⟨hdrop, hsheltered, hmem⟩ := ih h hn.2
      refine ⟨hdrop, hsheltered, fun hr => hmem ?_⟩
      exact (List.mem_cons.mp hr).resolve_left (Ne.symm hreturn)
    | literal s h =>
      rw [toList_stringLiteral, Text.unifyNewlines_cons (by decide), List.take_succ_cons] at hn
      exact absurd List.mem_cons_self hn

namespace Token

/-! ## Strings with a carriage return -/

/-- A string that is written with a carriage return is cut off there. -/
theorem readString_of_return {cs : List Char} (h : '\r' ∈ cs) (rest : List Char) :
    ∃ n, readString (Text.unifyNewlines (cs.flatMap Value.escapeChar ++ '"' :: rest)) =
      .unterminated n := by
  induction cs with
  | nil => cases h
  | cons c cs ih =>
    rw [List.flatMap_cons, List.append_assoc]
    by_cases hc : c = '\r'
    · subst hc
      obtain ⟨ds, hds⟩ := Text.unifyNewlines_return (cs.flatMap Value.escapeChar ++ '"' :: rest)
      have hescape : Value.escapeChar '\r' = ['\r'] := rfl
      rw [hescape, List.singleton_append, hds]
      exact ⟨0, by rw [readString]⟩
    · obtain ⟨n, hn⟩ := ih ((List.mem_cons.mp h).resolve_left (Ne.symm hc))
      rw [Text.unifyNewlines_append (return_not_mem_escapeChar hc), readString_escapeChar, hn]
      exact ⟨_, rfl⟩

/-- So a string literal with a carriage return in it is no token behind its way through a file. -/
theorem kindsFrom_of_return {s : String} (h : '\r' ∈ s.toList) (trail : Trail)
    (rest : List Char) :
    kindsFrom trail (Text.unifyNewlines ((Value.stringLiteral s).toList ++ rest)) = none := by
  obtain ⟨n, hn⟩ := readString_of_return h rest
  rw [toList_stringLiteral, Text.unifyNewlines_cons (by decide), kindsFrom.eq_def]
  simp only [scanPiece_quote, scanString, hn]

/-! ## Pieces outside of strings -/

theorem quote_not_mem_take {word : List Char} {c : Char} {cs : List Char} (h : word <+: c :: cs)
    (hquote : '"' ∉ word) : '"' ∉ cs.take (word.length - 1) := by
  cases word with
  | nil => exact List.not_mem_nil
  | cons d word =>
    obtain ⟨-, hprefix⟩ := List.cons_prefix_cons.mp h
    rw [List.length_cons, Nat.add_sub_cancel, ← List.prefix_iff_eq_take.mp hprefix]
    exact fun hmem => hquote (List.mem_cons_of_mem _ hmem)

theorem quote_not_mem_takeWhile {p : Char → Bool} (h : p '"' = false) (cs : List Char) :
    '"' ∉ cs.takeWhile p := by
  intro hmem
  rw [List.all_eq_true.mp List.all_takeWhile _ hmem] at h
  cases h

theorem isDigit_quote : Text.isDigit '"' = false := by
  decide

/-- Two runs of digits with one character between them. -/
theorem quote_not_mem_digits {c d : Char} {cs behind : List Char}
    (h : (c :: cs).dropWhile Text.isDigit = d :: behind) (hd : d ≠ '"') :
    '"' ∉ cs.take (((c :: cs).takeWhile Text.isDigit).length +
      (behind.takeWhile Text.isDigit).length) := by
  have hsplit := List.takeWhile_append_dropWhile (p := Text.isDigit) (l := c :: cs)
  rw [h] at hsplit
  have hprefix : (c :: cs).takeWhile Text.isDigit ++ d :: behind.takeWhile Text.isDigit <+:
      c :: cs := by
    conv_rhs => rw [← hsplit]
    exact (List.prefix_append_right_inj _).mpr
      (List.cons_prefix_cons.mpr ⟨rfl, List.takeWhile_prefix _⟩)
  have hquote : '"' ∉ (c :: cs).takeWhile Text.isDigit ++ d :: behind.takeWhile Text.isDigit := by
    rw [List.mem_append, List.mem_cons, not_or, not_or]
    exact ⟨quote_not_mem_takeWhile isDigit_quote _, Ne.symm hd,
      quote_not_mem_takeWhile isDigit_quote _⟩
  have hmem := quote_not_mem_take hprefix hquote
  rwa [List.length_append, List.length_cons, ← Nat.add_assoc, Nat.add_sub_cancel] at hmem

theorem quote_not_mem_of_scanNumber {cur : Cursor} {trail : Trail} {c : Char} {cs : List Char}
    {piece : Piece} (h : scanNumber cur trail (c :: cs) = .ok piece) :
    '"' ∉ cs.take piece.extra := by
  unfold scanNumber at h
  simp only at h
  split at h
  · rename_i behind hbehind
    obtain ⟨quantity, -, h⟩ := bind_eq_ok h
    obtain ⟨⟨die, faces⟩, hfaces, h⟩ := bind_eq_ok h
    cases h
    obtain rfl : faces = behind.takeWhile Text.isDigit := faces_of_readFaces hfaces
    exact quote_not_mem_digits hbehind (by decide)
  · rename_i behind hbehind
    split at h
    · cases h
    · obtain ⟨x, -, h⟩ := bind_eq_ok h
      cases h
      exact quote_not_mem_digits hbehind (by decide)
  · obtain ⟨n, -, h⟩ := bind_eq_ok h
    cases h
    exact quote_not_mem_take (List.takeWhile_prefix _)
      (quote_not_mem_takeWhile isDigit_quote (c :: cs))

theorem quote_not_mem_of_scanName {cur : Cursor} {c : Char} {cs : List Char} {piece : Piece}
    (h : scanName cur c cs = .ok piece) : '"' ∉ cs.take piece.extra := by
  unfold scanName at h
  split at h
  · obtain ⟨⟨die, faces⟩, hfaces, h⟩ := bind_eq_ok h
    cases h
    obtain rfl : faces = cs.takeWhile Text.isDigit := faces_of_readFaces hfaces
    rw [← List.prefix_iff_eq_take.mp (List.takeWhile_prefix _)]
    exact quote_not_mem_takeWhile isDigit_quote cs
  · cases h
    rw [← List.prefix_iff_eq_take.mp (List.takeWhile_prefix _)]
    exact quote_not_mem_takeWhile (by decide) cs

theorem quote_not_mem_of_literal? {c : Char} {cs : List Char} {op : Operator} {extra : Nat}
    (h : literal? (c :: cs) = some (op, extra)) : '"' ∉ cs.take extra := by
  obtain ⟨p, hp, hpair⟩ := Option.map_eq_some_iff.mp h
  cases hpair
  have hprefix : p.1.toList <+: c :: cs := List.isPrefixOf_iff_prefix.mp (List.find?_some hp :)
  have hsymbols : ∀ q ∈ Operator.literals, '"' ∉ q.1.toList := by decide
  rw [← String.length_toList]
  exact quote_not_mem_take hprefix (hsymbols p (List.mem_of_find?_eq_some hp))

/-- A piece that starts outside of a string does not reach into one. -/
theorem quote_not_mem_of_scanPiece {cur : Cursor} {trail : Trail} {c : Char} {cs : List Char}
    {piece : Piece} (h : scanPiece cur trail c cs = .ok piece) (hc : isBare c = true) :
    '"' ∉ cs.take piece.extra := by
  obtain ⟨hquote, -, hcomment⟩ := isBare_iff.mp hc
  unfold scanPiece at h
  split at h
  · cases h
    exact List.not_mem_nil
  split at h
  · exact absurd (eq_of_beq ‹_›) hcomment
  split at h
  · cases h
    exact List.not_mem_nil
  split at h
  · exact quote_not_mem_of_scanNumber h
  split at h
  · exact quote_not_mem_of_scanName h
  split at h
  · exact absurd (eq_of_beq ‹_›) hquote
  split at h
  · cases h
    exact List.not_mem_nil
  · rename_i hliteral
    cases h
    exact quote_not_mem_of_literal? hliteral
  · cases h

/-- A sheltered text with a carriage return in it is not cut into tokens behind its way through a
file. -/
theorem kindsFrom_unifyNewlines {cs : List Char} (h : Sheltered cs) (hmem : '\r' ∈ cs)
    (trail : Trail) : kindsFrom trail (Text.unifyNewlines cs) = none := by
  induction hlength : cs.length using Nat.strongRecOn generalizing cs trail with
  | ind n ih =>
    subst hlength
    cases h with
    | nil => cases hmem
    | @bare c cs hc h =>
      obtain ⟨-, hreturn, -⟩ := isBare_iff.mp hc
      rw [Text.unifyNewlines_cons hreturn]
      cases hpiece : scanPiece .start trail c (Text.unifyNewlines cs) with
      | error e =>
        rw [kindsFrom.eq_def]
        simp only [hpiece]
      | ok piece =>
        obtain ⟨hdrop, hsheltered, hrest⟩ := h.drop (quote_not_mem_of_scanPiece hpiece hc)
        have hmem' := hrest ((List.mem_cons.mp hmem).resolve_left (Ne.symm hreturn))
        have hshorter : (cs.drop piece.extra).length < (c :: cs).length := by
          simp only [List.length_drop, List.length_cons]
          omega
        rw [kindsFrom_cons hpiece, hdrop, ih _ hshorter hsheltered hmem' _ rfl, Option.map_none]
    | @literal s cs h =>
      by_cases hs : '\r' ∈ s.toList
      · exact kindsFrom_of_return hs trail cs
      · have hliteral := return_not_mem_stringLiteral hs
        have hshorter : cs.length < ((Value.stringLiteral s).toList ++ cs).length := by
          rw [toList_stringLiteral, List.length_cons, List.length_append, List.length_cons]
          omega
        have hmem' := (List.mem_append.mp hmem).resolve_left hliteral
        rw [Text.unifyNewlines_append hliteral, kindsFrom_string, ih _ hshorter h hmem' _ rfl,
          Option.map_none]

end Token

/-! ## Texts of values -/

theorem sheltered_text {text : String} (h : text.toList.all isBare = true) :
    Sheltered text.toList :=
  sheltered_of_bare (List.all_eq_true.mp h)

theorem Sheltered.join {a b : String} (ha : Sheltered a.toList) (hb : Sheltered b.toList) :
    Sheltered (a ++ b).toList := by
  rw [String.toList_append]
  exact ha.append hb

theorem sheltered_intercalate {sep : String} (hsep : Sheltered sep.toList) {parts : List String}
    (h : ∀ part ∈ parts, Sheltered part.toList) : Sheltered (sep.intercalate parts).toList := by
  rw [String.toList_intercalate]
  induction parts with
  | nil => exact .nil
  | cons part parts ih =>
    have hpart := h part List.mem_cons_self
    have hparts := ih fun q hq => h q (List.mem_cons_of_mem _ hq)
    cases parts with
    | nil => simpa using hpart
    | cons next parts =>
      rw [List.map_cons, List.map_cons, List.intercalate_cons_cons, ← List.map_cons]
      exact (hpart.append hsep).append hparts

theorem isBare_of_isDigit {c : Char} (h : c.isDigit = true) : isBare c = true :=
  isBare_iff.mpr ⟨Decimal.ne_of_isDigit h (by decide), Decimal.ne_of_isDigit h (by decide),
    Decimal.ne_of_isDigit h (by decide)⟩

theorem sheltered_digits {cs : List Char} (h : cs.all Char.isDigit = true) : Sheltered cs :=
  sheltered_of_bare fun c hc => isBare_of_isDigit (List.all_eq_true.mp h c hc)

theorem sheltered_integer (n : Int) : Sheltered (toString n).toList := by
  cases n with
  | ofNat k =>
    have htext : (toString (Int.ofNat k)).toList = Nat.toDigits 10 k := Nat.toList_repr
    rw [htext]
    exact sheltered_digits (all_isDigit_toDigits k)
  | negSucc k =>
    have htext : toString (Int.negSucc k) = "-" ++ Nat.repr (k + 1) := rfl
    have hdigits : Sheltered (Nat.repr (k + 1)).toList := by
      rw [Nat.toList_repr]
      exact sheltered_digits (all_isDigit_toDigits (k + 1))
    rw [htext]
    exact (sheltered_text (by decide)).join hdigits

theorem sheltered_source (x : Float) : Sheltered (Decimal.source x).toList := by
  cases hd : Decimal.Dyadic.ofFloat? x with
  | some d =>
    obtain ⟨d', whole, fraction, hd', htext, -⟩ :=
      Decimal.source_spec (Decimal.isFinite_of_ofFloat? hd)
    obtain rfl : d = d' := Option.some.inj (hd.symm.trans hd')
    obtain ⟨-, hwhole, hfraction, htext⟩ := htext
    have hsign : Sheltered (if d.negative then ['-'] else []) := by
      split
      · exact .bare (by decide) .nil
      · exact .nil
    rw [Decimal.toList_source hd, htext]
    exact hsign.append ((sheltered_digits hwhole).append
      (.bare (by decide) (sheltered_digits hfraction)))
  | none =>
    simp only [Decimal.source, Decimal.Layout.write, hd]
    repeat' split
    all_goals exact sheltered_text (by decide)

theorem sheltered_roll (r : Roll) : Sheltered r.text.toList := by
  have hquantity : Sheltered (if r.quantity = 1 then "" else toString r.quantity).toList := by
    split
    · exact .nil
    · exact sheltered_integer r.quantity
  have hflag : Sheltered (if r.hasAdvantage then "a" else if r.hasDisadvantage then "d"
      else "").toList := by
    repeat' split
    all_goals exact sheltered_text (by decide)
  have hletter : Sheltered "d".toList := sheltered_text (by decide)
  have hdie := hletter.join (sheltered_integer r.die)
  have htext := (hquantity.join hdie).join hflag
  unfold Roll.text
  simp only [String.append_assoc] at htext ⊢
  exact htext

theorem sheltered_bracketed {items : List String} (h : ∀ text ∈ items, Sheltered text.toList) :
    Sheltered (Value.bracketed items).toList :=
  ((sheltered_text (by decide)).join (sheltered_intercalate (sheltered_text (by decide)) h)).join
    (sheltered_text (by decide))

namespace Value

theorem renderAll_eq (items : List Value) : renderAll items = items.map render := by
  induction items with
  | nil => rfl
  | cons v vs ih => rw [renderAll, ih, List.map_cons]

theorem sheltered_render (v : Value) : Sheltered v.render.toList := by
  induction v with
  | bool b =>
    cases b <;> exact sheltered_text (by decide)
  | decimal x => exact sheltered_source x
  | natural n => exact sheltered_integer n
  | roll r => exact sheltered_roll r
  | outcome r => exact sheltered_integer r.result
  | rolls faces =>
    refine sheltered_bracketed fun text htext => ?_
    obtain ⟨face, -, rfl⟩ := List.mem_map.mp htext
    exact sheltered_integer face
  | list items ih =>
    refine sheltered_bracketed fun text htext => ?_
    rw [renderAll_eq] at htext
    obtain ⟨v, hv, rfl⟩ := List.mem_map.mp htext
    exact ih v hv
  | string s =>
    have hliteral := Sheltered.literal s .nil
    rwa [List.append_nil] at hliteral
  | empty => exact sheltered_text (by decide)

end Value

/-! ## Texts of expressions and contexts -/

theorem isBare_of_isWordChar {c : Char} (h : Text.isWordChar c = true) : isBare c = true := by
  refine isBare_iff.mpr ⟨?_, ?_, ?_⟩ <;>
  · rintro rfl
    exact absurd h (by decide)

theorem sheltered_name {n : String} (h : isName n = true) : Sheltered n.toList := by
  obtain ⟨c, cs, hchars, hstart, -, hword, -⟩ := isName_iff.mp h
  have hc : Text.isWordChar c = true := by
    rw [Text.isWordStart, Bool.or_eq_true] at hstart
    rcases hstart with hletter | hunderscore
    · simp [Text.isWordChar, hletter]
    · simp [Text.isWordChar, hunderscore]
  rw [hchars]
  exact .bare (isBare_of_isWordChar hc)
    (sheltered_of_bare fun d hd => isBare_of_isWordChar (List.all_eq_true.mp hword d hd))

namespace Expr

theorem sheltered_wrapped {text : String} (h : Sheltered text.toList) (wrap : Bool) :
    Sheltered (wrapped text wrap).toList := by
  cases wrap with
  | true => exact ((sheltered_text (by decide)).join h).join (sheltered_text (by decide))
  | false => exact h

theorem sheltered_separator (op : BinaryOp) : Sheltered (separator op).toList := by
  cases op <;> exact sheltered_text (by decide)

theorem sheltered_symbol (op : UnaryOp) : Sheltered op.symbol.toList := by
  cases op <;> exact sheltered_text (by decide)

mutual

theorem sheltered_render : ∀ {e : Expr}, e.All Parsed → Sheltered e.render.toList
  | literal l, _ => l.value.sheltered_render
  | name _, h => sheltered_name h.1
  | list _, h => sheltered_bracketed (sheltered_renderAll h.2)
  | call _ _, h => by
    have hcallee := sheltered_name h.1.1
    have hcomma : Sheltered ", ".toList := sheltered_text (by decide)
    have hargs := sheltered_intercalate hcomma (sheltered_renderAll h.2)
    exact ((hcallee.join (sheltered_text (by decide))).join hargs).join (sheltered_text (by decide))
  | binary op lhs rhs, h => by
    have hlhs := sheltered_wrapped (sheltered_render h.2.1) (wrapsLeft op lhs)
    have hrhs := sheltered_wrapped (sheltered_render h.2.2) (wrapsRight op rhs)
    exact (hlhs.join (sheltered_separator op)).join hrhs
  | unary op operand, h => by
    have htext := sheltered_wrapped (sheltered_render h.2) (wrapsOperand op operand)
    unfold render
    dsimp only
    split
    · exact htext.join (sheltered_symbol op)
    · exact (sheltered_symbol op).join htext
  | ifThen condition _, h => by
    have hif : Sheltered "if ".toList := sheltered_text (by decide)
    have hthen : Sheltered " then ".toList := sheltered_text (by decide)
    have hcondition := sheltered_wrapped (sheltered_render h.2.1)
      (condition.strength = .conditional)
    exact ((hif.join hcondition).join hthen).join (sheltered_render h.2.2)
  | ifElse condition consequent _, h => by
    have hif : Sheltered "if ".toList := sheltered_text (by decide)
    have hthen : Sheltered " then ".toList := sheltered_text (by decide)
    have helse : Sheltered " else ".toList := sheltered_text (by decide)
    have hcondition := sheltered_wrapped (sheltered_render h.2.1)
      (condition.strength = .conditional)
    have hconsequent := sheltered_wrapped (sheltered_render h.2.2.1) consequent.isOpenConditional
    exact ((((hif.join hcondition).join hthen).join hconsequent).join helse).join
      (sheltered_render h.2.2.2)

theorem sheltered_renderAll : ∀ {es : List Expr}, AllItems Parsed es →
    ∀ text ∈ renderAll es, Sheltered text.toList
  | [], _ => nofun
  | _ :: _, h => fun text htext => by
    rcases List.mem_cons.mp htext with rfl | htext
    · exact sheltered_render h.1
    · exact sheltered_renderAll h.2 text htext

end

end Expr

theorem Function.sheltered_render {f : Function} {n : String} (h : f.Lawful Expr.Parsed n) :
    Sheltered f.render.toList := by
  obtain ⟨rfl, hhead, hbody⟩ := h
  rw [render_eq]
  exact ((Expr.sheltered_render hhead).join (sheltered_text (by decide))).join
    (Expr.sheltered_wrapped (Expr.sheltered_render hbody) _)

theorem sheltered_joinLines {lines : List String} (h : ∀ line ∈ lines, Sheltered line.toList) :
    Sheltered (joinLines lines).toList := by
  induction lines with
  | nil =>
    rw [toList_joinLines_nil]
    exact .nil
  | cons line lines ih =>
    rw [toList_joinLines]
    exact (h line List.mem_cons_self).append
      (.bare (by decide) (ih fun l hl => h l (List.mem_cons_of_mem _ hl)))

namespace Context

/-- A written context has carriage returns in its strings alone. -/
theorem Lawful.sheltered_dump {c : Context} (h : c.Lawful Expr.Parsed) :
    Sheltered c.dump.toList := by
  rw [dump_eq]
  refine sheltered_joinLines fun line hline => ?_
  rcases List.mem_append.mp hline with hline | hline
  · obtain ⟨f, hf, rfl⟩ := List.mem_map.mp hline
    exact Function.sheltered_render (h.function hf)
  · obtain ⟨p, hp, rfl⟩ := List.mem_map.mp hline
    exact ((sheltered_name (h.saved hp).1.1).join (sheltered_text (by decide))).join
      p.2.sheltered_render

end Context

end DiceTome
