import Mathlib.Data.List.DropRight
import DiceTome.Proofs.EarliestErrors
import DiceTome.Proofs.Tiling
import DiceTome.Tome

/-!
# Quoted lines

A diagnostic names the line of its place by counting newlines, and then quotes the line of that
number as `Text.splitLines` counts lines, which also end at carriage returns, form feeds and other
line breaks. The two agree as long as every line in front of the place ends at a newline. Any other
line break in front of it shifts the quotation to an earlier line, and one in the line itself cuts
the quotation short.

* `Text.lineAround` is the line of an offset between two newlines, and `Text.linesBefore` is what
  stands in front of it.
* `Text.length_splitLines`: both rules count the same lines exactly if there are no other breaks.
* `Token.errsAt_scanFrom`, `Token.Cuts.pointsInto` and `Arena.mem_of_parse`: errors point at
  characters of the text.
* `parseSourceIn_quotes`: which line the diagnostic of a text quotes.
-/

namespace DiceTome

namespace Text

/-! ## Two ways to count lines -/

/-- The text holds no line break but newlines and the carriage returns directly in front of them. -/
def newlinesOnly : List Char → Bool
  | [] => true
  | c :: rest =>
    (!isLineBreak c || c == '\n' || (c == '\r' && rest.head? == some '\n')) && newlinesOnly rest

theorem splitLines_of_break {c : Char} {rest : List Char} (hc : isLineBreak c = true)
    (hreturn : c = '\r' → rest.head? ≠ some '\n') :
    splitLines (c :: rest) = [] :: splitLines rest := by
  conv_lhs => unfold splitLines
  split
  · contradiction
  · rename_i h
    cases h
    exact absurd rfl (hreturn rfl)
  · rename_i h
    cases h
    rw [if_pos hc]

theorem splitLines_of_not_break {c : Char} {rest : List Char} (hc : isLineBreak c = false) :
    splitLines (c :: rest) = (c :: (splitLines rest).headD []) :: (splitLines rest).tail := by
  conv_lhs => unfold splitLines
  split
  · contradiction
  · rename_i h
    cases h
    cases hc
  · rename_i h
    cases h
    rw [if_neg (by rw [hc]; exact Bool.false_ne_true)]
    cases splitLines rest <;> rfl

/-- How the first character of a text counts: it stands in front of a newline that it belongs to, it
is a break of its own, or it belongs to the first line. -/
theorem first_cases (c : Char) (rest : List Char) :
    (∃ rest', c = '\r' ∧ rest = '\n' :: rest') ∨
    (isLineBreak c = true ∧ (c = '\r' → rest.head? ≠ some '\n')) ∨ isLineBreak c = false := by
  by_cases hpair : c = '\r' ∧ rest.head? = some '\n'
  · obtain ⟨rest', rfl⟩ := List.head?_eq_some_iff.mp hpair.2
    exact .inl ⟨rest', hpair.1, rfl⟩
  · cases hc : isLineBreak c with
    | true => exact .inr (.inl ⟨rfl, fun h hhead => hpair ⟨h, hhead⟩⟩)
    | false => exact .inr (.inr rfl)

theorem splitLines_ne_nil {cs : List Char} (h : cs ≠ []) : splitLines cs ≠ [] := by
  cases cs with
  | nil => exact absurd rfl h
  | cons c rest =>
    rcases first_cases c rest with ⟨rest', rfl, rfl⟩ | ⟨hc, hreturn⟩ | hc
    · nofun
    · rw [splitLines_of_break hc hreturn]
      nofun
    · rw [splitLines_of_not_break hc]
      nofun

/-- The first line goes up to the first break. -/
theorem head?_splitLines {cs : List Char} (h : cs ≠ []) :
    (splitLines cs).head? = some (cs.takeWhile (!isLineBreak ·)) := by
  induction cs with
  | nil => exact absurd rfl h
  | cons c rest ih =>
    rcases first_cases c rest with ⟨rest', rfl, rfl⟩ | ⟨hc, hreturn⟩ | hc
    · rfl
    · rw [splitLines_of_break hc hreturn, List.takeWhile_cons_of_neg (by simp [hc])]
      rfl
    · rw [splitLines_of_not_break hc, List.takeWhile_cons_of_pos (by simp [hc])]
      cases rest with
      | nil => rfl
      | cons d rest => rw [List.headD_eq_head?_getD, ih nofun]; rfl

/-- A newline always ends a line. -/
theorem splitLines_append (cs rest : List Char) :
    splitLines (cs ++ '\n' :: rest) = splitLines (cs ++ ['\n']) ++ splitLines rest := by
  induction hn : cs.length using Nat.strongRecOn generalizing cs with
  | ind n ih =>
    subst hn
    rcases cs with _ | ⟨c, cs⟩
    · rfl
    have hhead : (cs ++ '\n' :: rest).head? = (cs ++ ['\n']).head? := by cases cs <;> rfl
    have hcs := ih cs.length (Nat.lt_succ_self _) cs rfl
    rw [List.cons_append, List.cons_append]
    rcases first_cases c (cs ++ ['\n']) with ⟨rest', rfl, hrest'⟩ | ⟨hc, hreturn⟩ | hc
    · cases cs with
      | nil => rfl
      | cons d cs =>
        cases hrest'
        exact congrArg ([] :: ·) (ih cs.length (by simp only [List.length_cons]; omega) cs rfl)
    · rw [splitLines_of_break hc hreturn, splitLines_of_break hc (by rwa [hhead]), hcs]
      rfl
    · rw [splitLines_of_not_break hc, splitLines_of_not_break hc, hcs]
      cases hlines : splitLines (cs ++ ['\n']) with
      | nil => exact absurd hlines (splitLines_ne_nil (by simp))
      | cons line lines => rfl

theorem length_splitLines_of_not_break {c : Char} {rest : List Char} (hc : isLineBreak c = false)
    (hrest : rest ≠ []) : (splitLines (c :: rest)).length = (splitLines rest).length := by
  have hpos := List.length_pos_iff.mpr (splitLines_ne_nil hrest)
  rw [splitLines_of_not_break hc, List.length_cons, List.length_tail]
  omega

theorem newlinesOnly_of_break {c : Char} {rest : List Char} (hc : isLineBreak c = true)
    (hreturn : c = '\r' → rest.head? ≠ some '\n') :
    newlinesOnly (c :: rest) = (c == '\n' && newlinesOnly rest) := by
  have hpair : (c == '\r' && rest.head? == some '\n') = false := by simpa using hreturn
  rw [newlinesOnly, hpair, hc, Bool.or_false]
  rfl

theorem newlinesOnly_of_not_break {c : Char} {rest : List Char} (hc : isLineBreak c = false) :
    newlinesOnly (c :: rest) = newlinesOnly rest := by
  rw [newlinesOnly, hc]
  rfl

/-- The two rules count the same lines exactly if there are no other breaks than newlines. -/
theorem length_splitLines (cs : List Char) :
    (cs ++ ['\n']).count '\n' ≤ (splitLines (cs ++ ['\n'])).length ∧
    ((splitLines (cs ++ ['\n'])).length = (cs ++ ['\n']).count '\n' ↔
      newlinesOnly (cs ++ ['\n']) = true) := by
  induction hn : cs.length using Nat.strongRecOn generalizing cs with
  | ind n ih =>
    subst hn
    rcases cs with _ | ⟨c, cs⟩
    · exact ⟨Nat.le_refl _, by decide⟩
    have hcs := ih cs.length (Nat.lt_succ_self _) cs rfl
    rw [List.cons_append]
    rcases first_cases c (cs ++ ['\n']) with ⟨rest', rfl, hrest'⟩ | ⟨hc, hreturn⟩ | hc
    · cases cs with
      | nil => exact ⟨Nat.le_refl _, by decide⟩
      | cons d cs =>
        cases hrest'
        have hrest := ih cs.length (by simp only [List.length_cons]; omega) cs rfl
        have hlines : splitLines ('\r' :: '\n' :: (cs ++ ['\n'])) =
            [] :: splitLines (cs ++ ['\n']) := rfl
        have honly : newlinesOnly ('\r' :: '\n' :: (cs ++ ['\n'])) = newlinesOnly (cs ++ ['\n']) :=
          rfl
        rw [List.cons_append, hlines, honly, ← hrest.2, List.length_cons,
          List.count_cons_of_ne (by decide), List.count_cons_self]
        exact ⟨Nat.succ_le_succ hrest.1, Nat.succ_inj⟩
    · rw [splitLines_of_break hc hreturn, newlinesOnly_of_break hc hreturn, List.length_cons]
      by_cases hnewline : c = '\n'
      · rw [hnewline, beq_self_eq_true, Bool.true_and, ← hcs.2, List.count_cons_self]
        exact ⟨Nat.succ_le_succ hcs.1, Nat.succ_inj⟩
      · -- such a break is a line more of the second rule, and none of the first
        rw [beq_false_of_ne hnewline, Bool.false_and, List.count_cons_of_ne hnewline]
        exact ⟨Nat.le_succ_of_le hcs.1, iff_of_false (by omega) Bool.false_ne_true⟩
    · have hnewline : c ≠ '\n' := by
        rintro rfl
        cases hc
      rw [length_splitLines_of_not_break hc (by simp), newlinesOnly_of_not_break hc,
        List.count_cons_of_ne hnewline]
      exact hcs

/-! ## The line of an offset -/

/-- A line without a carriage return at its end. -/
def chompReturn (line : List Char) : List Char :=
  if line.getLast? = some '\r' then line.dropLast else line

/-- The text up to the last newline in front of an offset, and that newline. -/
def linesBefore (text : List Char) (offset : Nat) : List Char :=
  (text.take offset).rdropWhile (· != '\n')

/-- The line of an offset: what stands between the newlines around it, without a carriage return at
its end. -/
def lineAround (text : List Char) (offset : Nat) : List Char :=
  chompReturn ((text.take offset).rtakeWhile (· != '\n') ++
    (text.drop offset).takeWhile (· != '\n'))

theorem takeWhile_append_of_head {p : Char → Bool} {cs rest : List Char}
    (h : ∀ c ∈ rest.head?, p c = false) : (cs ++ rest).takeWhile p = cs.takeWhile p := by
  induction cs with
  | nil =>
    cases rest with
    | nil => rfl
    | cons c rest => rw [List.nil_append, List.takeWhile_cons_of_neg (by simp [h c rfl])]; rfl
  | cons c cs ih => rw [List.cons_append, List.takeWhile_cons, List.takeWhile_cons, ih]

theorem chompReturn_cases (line : List Char) :
    chompReturn line = line ∨ line = chompReturn line ++ ['\r'] := by
  unfold chompReturn
  split
  · rename_i h
    obtain ⟨front, rfl⟩ := List.getLast?_eq_some_iff.mp h
    exact .inr (by rw [List.dropLast_concat])
  · exact .inl rfl

theorem takeWhile_chompReturn (line : List Char) :
    (chompReturn line).takeWhile (!isLineBreak ·) = line.takeWhile (!isLineBreak ·) := by
  rcases chompReturn_cases line with h | h
  · rw [h]
  · conv_rhs => rw [h]
    exact (takeWhile_append_of_head (by rintro c ⟨⟩; rfl)).symm

/-- A text up to a newline is empty or ends with that newline. -/
theorem rdropWhile_cases (cs : List Char) :
    cs.rdropWhile (· != '\n') = [] ∨ ∃ front, cs.rdropWhile (· != '\n') = front ++ ['\n'] := by
  by_cases h : cs.rdropWhile (· != '\n') = []
  · exact .inl h
  · have hlast := List.rdropWhile_last_not (· != '\n') cs h
    refine .inr ⟨(cs.rdropWhile (· != '\n')).dropLast, ?_⟩
    conv_lhs => rw [← List.dropLast_append_getLast h]
    simpa using hlast

variable {pre rest : List Char} {c : Char}

theorem linesBefore_append : linesBefore (pre ++ rest) pre.length = pre.rdropWhile (· != '\n') := by
  rw [linesBefore, List.take_left]

/-- What stands in front of an offset is the lines before it and the beginning of its own. -/
theorem count_linesBefore (pre rest : List Char) :
    (linesBefore (pre ++ rest) pre.length).count '\n' = pre.count '\n' := by
  have hnone : (pre.rtakeWhile (· != '\n')).count '\n' = 0 := by
    rw [List.count_eq_zero]
    intro hmem
    simpa using List.mem_rtakeWhile_imp hmem
  conv_rhs => rw [← List.rdropWhile_append_rtakeWhile (p := (· != '\n')) (l := pre)]
  rw [linesBefore_append, List.count_append, hnone, Nat.add_zero]

/-- The two rules count the same lines before an offset exactly if all of them end at newlines. -/
theorem length_splitLines_linesBefore (pre rest : List Char) :
    (linesBefore (pre ++ rest) pre.length).count '\n' ≤
      (splitLines (linesBefore (pre ++ rest) pre.length)).length ∧
    ((splitLines (linesBefore (pre ++ rest) pre.length)).length =
      (linesBefore (pre ++ rest) pre.length).count '\n' ↔
      newlinesOnly (linesBefore (pre ++ rest) pre.length) = true) := by
  rw [linesBefore_append]
  rcases rdropWhile_cases pre with h | ⟨front, h⟩
  · rw [h]
    exact ⟨Nat.le_refl _, by decide⟩
  · rw [h]
    exact length_splitLines front

/-- The lines of a text by the second rule: those before an offset, and those of the rest. -/
theorem splitLines_linesBefore :
    splitLines (pre ++ rest) = splitLines (linesBefore (pre ++ rest) pre.length) ++
      splitLines (pre.rtakeWhile (· != '\n') ++ rest) := by
  have hpre := List.rdropWhile_append_rtakeWhile (p := (· != '\n')) (l := pre)
  rw [linesBefore_append]
  conv_lhs => rw [← hpre, List.append_assoc]
  rcases rdropWhile_cases pre with h | ⟨front, h⟩
  · rw [h]
    rfl
  · rw [h, List.append_assoc, List.singleton_append, splitLines_append]

/-- The line of an offset goes on to the first break as the text does. -/
theorem takeWhile_lineAround :
    (lineAround (pre ++ rest) pre.length).takeWhile (!isLineBreak ·) =
      (pre.rtakeWhile (· != '\n') ++ rest).takeWhile (!isLineBreak ·) := by
  rw [lineAround, List.take_left, List.drop_left, takeWhile_chompReturn]
  conv_rhs =>
    rw [← List.takeWhile_append_dropWhile (p := (· != '\n')) (l := rest), ← List.append_assoc]
  refine (takeWhile_append_of_head fun c hc => ?_).symm
  have hend := List.head?_dropWhile_not (· != '\n') rest
  rw [Option.mem_def] at hc
  rw [hc] at hend
  obtain rfl : c = '\n' := by simpa using hend
  rfl

/-- Only a carriage return is taken off a line. -/
theorem exists_chompReturn (hc : c ≠ '\r') (line more : List Char) :
    ∃ more', chompReturn (line ++ c :: more) = line ++ c :: more' := by
  unfold chompReturn
  split
  · rename_i hlast
    cases more with
    | nil => simp [hc] at hlast
    | cons d more => exact ⟨(d :: more).dropLast, by rw [List.dropLast_append_cons]; rfl⟩
  · exact ⟨more, rfl⟩

/-- A character that separates no lines stands in the line of its offset. -/
theorem getElem?_lineAround (hnewline : c ≠ '\n') (hreturn : c ≠ '\r') :
    (lineAround (pre ++ c :: rest) pre.length)[(pre.rtakeWhile (· != '\n')).length]? =
      some c := by
  obtain ⟨more, hmore⟩ := exists_chompReturn hreturn (pre.rtakeWhile (· != '\n'))
    (rest.takeWhile (· != '\n'))
  rw [lineAround, List.take_left, List.drop_left,
    List.takeWhile_cons_of_pos (by simpa using hnewline), hmore]
  simp

/-- The scanner counts columns from the last newline. -/
theorem column_advance (pre : List Char) : (({} : Location).advance pre).column =
    (pre.rtakeWhile (· != '\n')).length + 1 := by
  induction pre using List.reverseRecOn with
  | nil => rfl
  | append_singleton pre c ih =>
    rw [Location.advance_append, Location.advance, List.foldl_cons, List.foldl_nil, Location.next]
    by_cases hc : c = '\n'
    · rw [if_pos hc, List.rtakeWhile_concat_neg _ _ _ (by simp [hc])]
      rfl
    · rw [if_neg hc, List.rtakeWhile_concat_pos _ _ _ (by simp [hc]), ih, List.length_append]
      rfl

/-! ## Quoting by number -/

/-- The line that is quoted for a place in a text by the number of newlines in front of it: the one
around the place up to its first break if the lines before it end at newlines only, and one of
those lines otherwise. -/
theorem exists_line? {source : String} (hsource : source.toList = pre ++ c :: rest) :
    ∃ quoted, line? source (1 + pre.count '\n') = some quoted ∧
      (newlinesOnly (linesBefore source.toList pre.length) = true →
        quoted.toList = (lineAround source.toList pre.length).takeWhile (!isLineBreak ·)) ∧
      (newlinesOnly (linesBefore source.toList pre.length) = false →
        quoted.toList ∈ splitLines (linesBefore source.toList pre.length)) := by
  have hline : line? source (1 + pre.count '\n') =
      (splitLines source.toList)[pre.count '\n']?.map String.ofList := by
    rw [line?, if_neg (by omega), Nat.add_sub_cancel_left]
  have hne : pre.rtakeWhile (· != '\n') ++ c :: rest ≠ [] := by simp
  have hfirst := head?_splitLines hne
  rw [hline, hsource, splitLines_linesBefore, takeWhile_lineAround,
    ← count_linesBefore pre (c :: rest)]
  obtain ⟨hle, hiff⟩ := length_splitLines_linesBefore pre (c :: rest)
  generalize linesBefore (pre ++ c :: rest) pre.length = before at hle hiff ⊢
  cases honly : newlinesOnly before with
  | true =>
    refine ⟨String.ofList _, ?_, fun _ => String.toList_ofList, nofun⟩
    rw [List.getElem?_append_right (hiff.mpr honly).le, hiff.mpr honly, Nat.sub_self,
      ← List.head?_eq_getElem?, hfirst]
    rfl
  | false =>
    have hlt : before.count '\n' < (splitLines before).length :=
      lt_of_le_of_ne hle fun h => by simp [hiff.mp h.symm] at honly
    refine ⟨String.ofList (splitLines before)[before.count '\n'], ?_, nofun, fun _ => ?_⟩
    · rw [List.getElem?_append_left hlt, List.getElem?_eq_getElem hlt]
      rfl
    · rw [String.toList_ofList]
      exact List.getElem_mem hlt

end Text

/-! ## Where the scanner fails -/

/-- The place of an error. -/
def ScanError.span? : ScanError → Option Span
  | unexpectedCharacter _ span | unterminatedString span | invalidEscape _ span
  | invalidNumber _ _ span => some span
  | unreadableNatural _ | unreadableDecimal _ => none

/-- A diagnostic of the scanner quotes the line with the number of its place. -/
theorem ScanError.quotes_line {err : ScanError} {source : String} {d : Diagnostic}
    (h : err.diagnostic? source = some d) :
    ∃ span, err.span? = some span ∧ d.span = some span ∧
      d.sourceLine = Text.line? source span.start.line.toNat := by
  cases err with
  | unreadableNatural | unreadableDecimal => cases h
  | unexpectedCharacter | unterminatedString | invalidEscape | invalidNumber =>
    cases h
    exact ⟨_, rfl, rfl, rfl⟩

namespace Token

/-- If the text at `loc` goes on with `cs`, the span starts at one of these characters, and that is
no separator. -/
def PointsInto (loc : Location) (cs : List Char) (span : Span) : Prop :=
  ∃ mid c rest, cs = mid ++ c :: rest ∧ isSeparator c = false ∧ span.start = loc.advance mid

/-- If it is an error with a place, then it has one of these places. -/
def ErrsAt (places : Span → Prop) (x : Except ScanError α) : Prop :=
  ∀ err span, x = .error err → err.span? = some span → places span

variable {places places' : Span → Prop}

theorem errsAt_ok (a : α) : ErrsAt places (.ok a) := by
  rintro _ _ ⟨⟩

theorem errsAt_error {err : ScanError} {place : Span} (hplace : err.span? = some place)
    (h : places place) : ErrsAt places (.error err : Except ScanError α) := by
  rintro _ span ⟨⟩ hspan
  rw [hplace] at hspan
  cases hspan
  exact h

theorem errsAt_unplaced {err : ScanError} (hplace : err.span? = none) :
    ErrsAt places (.error err : Except ScanError α) := by
  rintro _ span ⟨⟩ hspan
  rw [hplace] at hspan
  cases hspan

theorem ErrsAt.bind {x : Except ScanError α} {f : α → Except ScanError β} (hx : ErrsAt places x)
    (hf : ∀ a, x = .ok a → ErrsAt places (f a)) : ErrsAt places (x >>= f) := by
  cases x with
  | error err =>
    rintro _ span ⟨⟩
    exact hx err span rfl
  | ok a => exact hf a rfl

theorem ErrsAt.mono {x : Except ScanError α} (h : ErrsAt places x)
    (hplaces : ∀ span, places span → places' span) : ErrsAt places' x :=
  fun err span herr hspan => hplaces span (h err span herr hspan)

variable {cur : Cursor}

theorem errsAt_readNatural (cur : Cursor) (literal digits : List Char) :
    ErrsAt (·.start = cur.loc) (readNatural cur literal digits) := by
  unfold readNatural
  dsimp only
  split
  · exact errsAt_error rfl rfl
  · split
    · exact errsAt_unplaced rfl
    · split
      · exact errsAt_error rfl rfl
      · exact errsAt_ok _

theorem errsAt_readFaces (cur : Cursor) (literal behind : List Char) :
    ErrsAt (·.start = cur.loc) (readFaces cur literal behind) := by
  unfold readFaces
  dsimp only
  split
  · exact errsAt_error rfl rfl
  · exact (errsAt_readNatural cur literal _).bind fun _ _ => errsAt_ok _

theorem errsAt_readDecimal (cur : Cursor) (literal whole fraction : List Char) :
    ErrsAt (·.start = cur.loc) (readDecimal cur literal whole fraction) := by
  unfold readDecimal
  split
  · exact errsAt_unplaced rfl
  · dsimp only
    split
    · exact errsAt_ok _
    · exact errsAt_error rfl rfl

theorem errsAt_scanNumber (cur : Cursor) (trail : Trail) (cs : List Char) :
    ErrsAt (·.start = cur.loc) (scanNumber cur trail cs) := by
  unfold scanNumber
  dsimp only
  split
  · refine (errsAt_readNatural cur cs _).bind fun quantity _ => ?_
    exact (errsAt_readFaces cur cs _).bind fun _ _ => errsAt_ok _
  · split
    · exact errsAt_error rfl rfl
    · exact (errsAt_readDecimal cur cs _ _).bind fun _ _ => errsAt_ok _
  · exact (errsAt_readNatural cur cs _).bind fun _ _ => errsAt_ok _

theorem errsAt_scanName (cur : Cursor) (c : Char) (cs : List Char) :
    ErrsAt (·.start = cur.loc) (scanName cur c cs) := by
  unfold scanName
  split
  · exact (errsAt_readFaces cur (c :: cs) cs).bind fun _ _ => errsAt_ok _
  · exact errsAt_ok _

theorem StringEnd.after_eq_badEscape {end' : StringEnd} {c e : Char} {n length : Nat}
    (h : end'.after c n = .badEscape e length) :
    ∃ length', end' = .badEscape e length' ∧ length = length' + n := by
  cases end' with
  | badEscape e' length' =>
    cases h
    exact ⟨length', rfl, rfl⟩
  | unterminated _ | closed _ _ => cases h

/-- A bad escape sequence starts at its backslash. -/
theorem exists_of_badEscape {cs : List Char} {e : Char} {length : Nat}
    (h : readString cs = .badEscape e length) :
    ∃ front rest, cs = front ++ '\\' :: rest ∧ front.length = length := by
  fun_induction readString cs generalizing length with
  | case1 | case2 | case3 | case4 => cases h
  | case5 e' rest hnone =>
    cases h
    exact ⟨[], _, rfl, rfl⟩
  | case6 e' rest c hsome ih =>
    obtain ⟨length', hrest, rfl⟩ := StringEnd.after_eq_badEscape h
    obtain ⟨front, rest', rfl, hlength⟩ := ih hrest
    exact ⟨'\\' :: e' :: front, rest', rfl, congrArg (· + 2) hlength⟩
  | case7 c rest _ _ _ _ ih =>
    obtain ⟨length', hrest, rfl⟩ := StringEnd.after_eq_badEscape h
    obtain ⟨front, rest', rfl, hlength⟩ := ih hrest
    exact ⟨c :: front, rest', rfl, congrArg (· + 1) hlength⟩

theorem pointsInto_head {loc : Location} {c : Char} {cs : List Char} {span : Span}
    (hc : isSeparator c = false) (h : span.start = loc) : PointsInto loc (c :: cs) span :=
  ⟨[], c, cs, rfl, hc, h⟩

theorem errsAt_scanString (cur : Cursor) (cs : List Char) :
    ErrsAt (PointsInto cur.loc ('"' :: cs)) (scanString cur cs) := by
  unfold scanString
  split
  · exact errsAt_ok _
  · exact errsAt_error rfl (pointsInto_head rfl rfl)
  · rename_i e length hread
    obtain ⟨front, rest, rfl, rfl⟩ := exists_of_badEscape hread
    refine errsAt_error rfl ⟨'"' :: front, '\\', rest, rfl, rfl, ?_⟩
    rw [List.take_left]
    rfl

theorem errsAt_scanPiece (cur : Cursor) (trail : Trail) (c : Char) (cs : List Char) :
    ErrsAt (PointsInto cur.loc (c :: cs)) (scanPiece cur trail c cs) := by
  unfold scanPiece
  split
  · exact errsAt_ok _
  · rename_i hc
    have hhere : ∀ span : Span, span.start = cur.loc → PointsInto cur.loc (c :: cs) span :=
      fun _ => pointsInto_head (Bool.eq_false_iff.mpr hc)
    split
    · exact errsAt_ok _
    · split
      · exact errsAt_ok _
      · split
        · exact (errsAt_scanNumber cur trail (c :: cs)).mono hhere
        · split
          · exact (errsAt_scanName cur c cs).mono hhere
          · split
            · rename_i hquote
              obtain rfl := eq_of_beq hquote
              exact errsAt_scanString cur cs
            · split
              · exact errsAt_ok _
              · exact errsAt_ok _
              · exact errsAt_error rfl (hhere _ rfl)

theorem PointsInto.behind {loc : Location} {front cs : List Char} {span : Span}
    (h : PointsInto (loc.advance front) cs span) : PointsInto loc (front ++ cs) span := by
  obtain ⟨mid, c, rest, rfl, hc, hstart⟩ := h
  exact ⟨front ++ mid, c, rest, (List.append_assoc ..).symm, hc, by
    rw [hstart, Location.advance_append]⟩

theorem errsAt_scanFrom (cur : Cursor) (trail : Trail) (cs : List Char) :
    ErrsAt (PointsInto cur.loc cs) (scanFrom cur trail cs) := by
  induction hn : cs.length using Nat.strongRecOn generalizing cur trail cs with
  | ind n ih =>
    subst hn
    cases cs with
    | nil =>
      rw [scanFrom]
      exact errsAt_ok _
    | cons c cs =>
      rw [scanFrom]
      refine (errsAt_scanPiece cur trail c cs).bind fun piece hpiece => ?_
      obtain ⟨more, rest, rfl, hextra⟩ := exists_of_scanPiece hpiece
      rw [hextra, List.take_left, List.drop_left]
      have hshorter : rest.length < (c :: (more ++ rest)).length := by
        rw [List.length_cons, List.length_append]
        omega
      refine ((ih _ hshorter _ _ _ rfl).mono fun span hspan => ?_).bind fun tokens _ => ?_
      · show PointsInto cur.loc ((c :: more) ++ rest) span
        exact hspan.behind
      · split <;> exact errsAt_ok _

/-- The tokens of a text start at characters that are no separators. -/
theorem Cuts.pointsInto {trail : Trail} {cs : List Char} {tokens : List Token}
    (h : Cuts cur trail cs tokens) : ∀ t ∈ tokens, PointsInto cur.loc cs t.span := by
  induction h with
  | done => exact List.forall_mem_nil _
  | skip hpiece _ ih => exact fun t ht => (ih t ht).behind
  | token hpiece _ ih =>
    refine List.forall_mem_cons.mpr ⟨?_, fun t ht => (ih t ht).behind⟩
    refine pointsInto_head (Bool.eq_false_iff.mpr fun hc => ?_) rfl
    rw [scanPiece, if_pos hc] at hpiece
    simp at hpiece

end Token

/-! ## Where the parser fails -/

namespace Parse

theorem mem_of_foldl_openBehind {ts opened : List Token} {t : Token}
    (h : t ∈ ts.foldl Token.openBehind opened) : t ∈ opened ∨ t ∈ ts := by
  induction ts generalizing opened with
  | nil => exact .inl h
  | cons next ts ih =>
    rcases ih h with hopened | hts
    · have hbehind : t ∈ next :: opened := by
        unfold Token.openBehind at hopened
        split at hopened
        · exact hopened
        · exact hopened
        · exact List.mem_cons_of_mem _ (List.mem_of_mem_tail hopened)
        · exact List.mem_cons_of_mem _ (List.mem_of_mem_tail hopened)
        · exact List.mem_cons_of_mem _ hopened
      rcases List.mem_cons.mp hbehind with rfl | hmem
      · exact .inr List.mem_cons_self
      · exact .inl hmem
    · exact .inr (List.mem_cons_of_mem _ hts)

end Parse

namespace Arena

open Parse

/-- An error of a parse is about one of the tokens. -/
theorem mem_of_parse {tokens : List Token} {err : ParseError} (h : parse tokens = .error err)
    {t : Token} (ht : err.token? = some t) : t ∈ tokens := by
  obtain ⟨used, rest, u, rfl, -, hafter, hnext⟩ := State.exists_after_taken tokens {}
  cases rest with
  | cons next more =>
    rw [token?_of_parse hafter (fun v => hnext next more v rfl) h] at ht
    cases ht
    simp
  | nil =>
    rw [List.append_nil] at h ⊢
    cases endError_of_parse hafter h with
    | unexpected expected => exact List.mem_of_getLast? ht
    | unmatched hopening =>
      cases ht
      rw [State.openings_after hafter] at hopening
      exact (mem_of_foldl_openBehind (List.mem_of_mem_head? hopening)).resolve_left nofun

end Arena

/-- A diagnostic of the parser quotes the line with the number of its place, if it has one. -/
theorem ParseError.quotes_line {err : ParseError} {source : String} {d : Diagnostic}
    (h : err.diagnostic? (some source) = some d) :
    d.span = err.token?.map Token.span ∧
      d.sourceLine = err.token?.bind fun t => Text.line? source t.span.start.line.toNat := by
  obtain ⟨code, -, rfl⟩ := Option.map_eq_some_iff.mp h
  exact ⟨rfl, rfl⟩

/-! ## Texts that are not parsed -/

/-- The arena of a text of one expression that stands in the given file. -/
def parseSourceIn (file : Option String) (source : String) : Except Error Arena := do
  let tokens ← (Token.scan source file).mapError (.scan source)
  (Arena.parse tokens).mapError (.parse source)

theorem parseSourceIn_none (source : String) : parseSourceIn none source = parseSource source :=
  rfl

/-- The line that a diagnostic quotes is the one with the number of its place, which starts at a
character of the text that is no separator. -/
theorem exists_place_of_parseSourceIn {file : Option String} {source : String} {e : Error}
    {d : Diagnostic} (h : parseSourceIn file source = .error e) (hd : e.diagnostic? = some d) :
    (d.span = none ∧ d.sourceLine = none) ∨
    ∃ span, d.span = some span ∧ Token.PointsInto {} source.toList span ∧
      d.sourceLine = Text.line? source span.start.line.toNat := by
  unfold parseSourceIn at h
  cases hscan : Token.scan source file with
  | error err =>
    rw [hscan] at h
    cases h
    obtain ⟨span, hspan, hplace, hline⟩ := ScanError.quotes_line hd
    exact .inr ⟨span, hplace, Token.errsAt_scanFrom _ _ _ err span hscan hspan, hline⟩
  | ok tokens =>
    rw [hscan] at h
    change (Arena.parse tokens).mapError (.parse source) = .error e at h
    cases hparse : Arena.parse tokens with
    | ok a =>
      rw [hparse] at h
      cases h
    | error err =>
      rw [hparse] at h
      cases h
      obtain ⟨hplace, hline⟩ := ParseError.quotes_line hd
      cases htoken : err.token? with
      | none =>
        rw [htoken] at hplace hline
        exact .inl ⟨hplace, hline⟩
      | some t =>
        rw [htoken] at hplace hline
        exact .inr ⟨t.span, hplace, (Token.cuts_of_scanFrom hscan).pointsInto t
          (Arena.mem_of_parse hparse htoken), hline⟩

/-- Which line the diagnostic of a text quotes that cannot be parsed. Its place is a character of
the line between two newlines. If the lines before that one end at newlines only, then the quoted
line is that line up to its first break of another kind, and the whole line if there is none.
Otherwise the quoted line is one of those before it. -/
theorem parseSourceIn_quotes {file : Option String} {source : String} {e : Error} {d : Diagnostic}
    (h : parseSourceIn file source = .error e) (hd : e.diagnostic? = some d) :
    (d.span = none ∧ d.sourceLine = none) ∨
    ∃ span quoted, d.span = some span ∧ d.sourceLine = some quoted ∧
      let around := Text.lineAround source.toList span.start.offset
      let before := Text.linesBefore source.toList span.start.offset
      (∃ c, source.toList[span.start.offset]? = some c ∧
        around[(span.start.column - 1).toNat]? = some c) ∧
      (Text.newlinesOnly before = true →
        quoted.toList = around.takeWhile (!Text.isLineBreak ·) ∧
          (quoted.toList = around ↔ ∀ c ∈ around, Text.isLineBreak c = false)) ∧
      (Text.newlinesOnly before = false → quoted.toList ∈ Text.splitLines before) := by
  rcases exists_place_of_parseSourceIn h hd with hnone | ⟨span, hspan, hplace, hquoted⟩
  · exact .inl hnone
  · refine .inr ⟨span, ?_⟩
    obtain ⟨pre, c, rest, hsource, hc, hstart⟩ := hplace
    obtain ⟨quoted, hline, honly, hother⟩ := Text.exists_line? hsource
    have hoffset : span.start.offset = pre.length := by
      rw [hstart, Location.offset_advance, Nat.zero_add]
    have hnumber : span.start.line.toNat = 1 + pre.count '\n' := by
      rw [hstart, (Location.advance_lines pre).1]
      omega
    rw [hnumber, hline] at hquoted
    refine ⟨quoted, hspan, hquoted, ?_⟩
    rw [hoffset]
    dsimp only
    refine ⟨⟨c, ?_, ?_⟩, fun h => ⟨honly h, ?_⟩, hother⟩
    · simp [hsource]
    · have hcolumn : (span.start.column - 1).toNat = (pre.rtakeWhile (· != '\n')).length := by
        rw [hstart, Text.column_advance]
        omega
      rw [hcolumn, hsource]
      apply Text.getElem?_lineAround
      · rintro rfl
        cases hc
      · rintro rfl
        cases hc
    · rw [honly h, List.takeWhile_eq_self_iff]
      simp

theorem parseSourceIn_quotes_newline :
    let e : Error := .scan "1\n$" (.unexpectedCharacter '$' ⟨⟨2, 1, 2⟩, ⟨2, 2, 3⟩, none⟩)
    parseSourceIn none "1\n$" = .error e ∧
    ∃ d, e.diagnostic? = some d ∧ d.sourceLine = some "$" := by
  intro e
  have h : parseSourceIn none "1\n$" = .error e := by
    rw [parseSourceIn, Token.scan_of_within rfl]
    rfl
  refine ⟨h, _, rfl, ?_⟩
  rcases parseSourceIn_quotes h rfl with ⟨hnone, -⟩ | ⟨span, quoted, hspan, hquoted, -, honly, -⟩
  · cases hnone
  · cases hspan
    have hline : quoted.toList = "$".toList := (honly (by decide)).1.trans (by decide)
    rw [hquoted, String.toList_inj.mp hline]

/-- A carriage return in front of a place makes the diagnostic quote an earlier line. -/
theorem not_parseSource_quotes :
    ¬ ∀ source e d span quoted, parseSource source = .error e → e.diagnostic? = some d →
      d.span = some span → d.sourceLine = some quoted →
        quoted.toList = Text.lineAround source.toList span.start.offset := by
  intro h
  have hparse : parseSource "1\r2\n$" =
      .error (.scan "1\r2\n$" (.unexpectedCharacter '$' ⟨⟨2, 1, 4⟩, ⟨2, 2, 5⟩, none⟩)) := by
    rw [parseSource, Token.scan_of_within rfl]
    rfl
  have hquoted := h _ _ _ _ "2" hparse rfl rfl rfl
  exact absurd hquoted (by decide)

end DiceTome
