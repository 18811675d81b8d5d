import DiceTome.Proofs.Tiling

/-!
# Where a letter is a roll operator

The letters `a`, `d`, `k` and `s` are operators only directly behind a roll or behind the count of a
keep, and only where no name goes on. The scanner decides this with the trail that the last piece
has left; the tokens themselves and one more character tell the same.

* `Token.BehindRoll` and `Token.StandsAlone` are the two conditions, by offsets alone.
* `Token.Trailed` says that a trail agrees with the tokens before it; `Trailed.skip` and
  `Trailed.token` keep it, and `Cuts.found` finds it at every token.
* `Token.roll_operator_iff`: under these conditions, and no others, the letter is an operator.
-/

namespace DiceTome

namespace Token

/-! ## What stands around a letter -/

/-- A keep among the tokens ends at the offset. -/
def KeepEndsAt (front : List Token) (offset : Nat) : Prop :=
  ∃ k ∈ front, k.kind = .operator (.binary .keep) ∧ k.span.stop.offset = offset

/-- The last of the tokens ends at the offset, and is a roll or a natural directly behind a keep. -/
def BehindRoll (front : List Token) (offset : Nat) : Prop :=
  ∃ p, front.getLast? = some p ∧ p.span.stop.offset = offset ∧
    ((∃ quantity die, p.kind = .roll quantity die) ∨
      (∃ n, p.kind = .natural n) ∧ KeepEndsAt front p.span.start.offset)

/-- With the character behind it, if there is one, the letter makes neither a name nor a roll. -/
def Alone (letter : Char) (follow : Option Char) : Prop :=
  ∀ c ∈ follow, (Text.isWordChar c = true → Text.isDigit c = true) ∧
    ¬ (letter = 'd' ∧ Text.isDigit c = true)

/-- The letter at the offset makes neither a name nor a roll with the character behind it. -/
def StandsAlone (text : List Char) (letter : Char) (offset : Nat) : Prop :=
  Alone letter text[offset + 1]?

/-! ## Trails and tokens -/

/-- A piece with a token behind the trail of a keep, or of something else. -/
theorem pieceOf_of_scanPiece {cur : Cursor} {trail trail' : Trail} {c : Char}
    {more rest : List Char} {kind : Option Kind}
    (h : scanPiece cur trail c (more ++ rest) = .ok ⟨more.length, kind, trail'⟩) :
    PieceOf trail c rest kind trail' := by
  have hstart := toOption_scanPiece cur .start trail c (more ++ rest)
  rw [h] at hstart
  cases hpiece : scanPiece .start trail c (more ++ rest) with
  | error err =>
    rw [hpiece] at hstart
    cases hstart
  | ok piece =>
    rw [hpiece] at hstart
    cases hstart
    have hcase := pieceOf_scanPiece hpiece
    rwa [List.drop_left] at hcase

/-- The trail of a scan with `cs` in front of it agrees with the tokens behind it. -/
structure Trailed (front : List Token) (offset : Nat) (trail : Trail) (cs : List Char) : Prop where
  within : ∀ t ∈ front, t.span.stop.offset ≤ offset
  keep : trail = .keep ↔ KeepEndsAt front offset
  roll : trail = .roll → BehindRoll front offset ∨ NoSuffix cs
  ofRoll : BehindRoll front offset → trail = .roll

theorem trailed_start (cs : List Char) : Trailed [] 0 .other cs :=
  ⟨List.forall_mem_nil _, ⟨nofun, by rintro ⟨k, hk, -⟩; cases hk⟩, nofun,
    by rintro ⟨p, hp, -⟩; cases hp⟩

section

variable {front : List Token} {trail trail' : Trail} {offset : Nat} {cs rest : List Char}

/-- No token ends where text has been skipped. -/
theorem Trailed.skip (h : Trailed front offset trail cs) {offset' : Nat} (hlt : offset < offset')
    (rest : List Char) : Trailed front offset' .other rest := by
  have hnone : ∀ t ∈ front, t.span.stop.offset ≠ offset' := fun t ht =>
    Nat.ne_of_lt (Nat.lt_of_le_of_lt (h.within t ht) hlt)
  refine ⟨fun t ht => (h.within t ht).trans hlt.le, ⟨nofun, ?_⟩, nofun, ?_⟩
  · rintro ⟨k, hk, -, hstop⟩
    exact absurd hstop (hnone k hk)
  · rintro ⟨p, hp, hstop, -⟩
    exact absurd hstop (hnone p (List.mem_of_getLast? hp))

theorem keepEndsAt_stop {t : Token}
    (hfront : ∀ u ∈ front, u.span.stop.offset < t.span.stop.offset) :
    KeepEndsAt (front ++ [t]) t.span.stop.offset ↔ t.kind = .operator (.binary .keep) := by
  constructor
  · rintro ⟨k, hk, hkind, hstop⟩
    rcases List.mem_append.mp hk with hk | hk
    · exact absurd hstop (Nat.ne_of_lt (hfront k hk))
    · rwa [← List.mem_singleton.mp hk]
  · exact fun hkind => ⟨t, by simp, hkind, rfl⟩

theorem keepEndsAt_start {t : Token} (hlt : t.span.start.offset < t.span.stop.offset) :
    KeepEndsAt (front ++ [t]) t.span.start.offset ↔ KeepEndsAt front t.span.start.offset := by
  constructor
  · rintro ⟨k, hk, hkind, hstop⟩
    rcases List.mem_append.mp hk with hk | hk
    · exact ⟨k, hk, hkind, hstop⟩
    · rw [List.mem_singleton.mp hk] at hstop
      exact absurd hstop (Nat.ne_of_gt hlt)
  · rintro ⟨k, hk, hkind, hstop⟩
    exact ⟨k, List.mem_append_left _ hk, hkind, hstop⟩

theorem behindRoll_stop {t : Token} (hlt : t.span.start.offset < t.span.stop.offset) :
    BehindRoll (front ++ [t]) t.span.stop.offset ↔ (∃ quantity die, t.kind = .roll quantity die) ∨
      (∃ n, t.kind = .natural n) ∧ KeepEndsAt front t.span.start.offset := by
  simp only [BehindRoll, List.getLast?_concat, Option.some.injEq, exists_eq_left', true_and,
    keepEndsAt_start hlt]

/-- A token leaves the trail that tells it apart. -/
theorem Trailed.token {t : Token} {c : Char} {kind : Kind}
    (h : Trailed front t.span.start.offset trail cs) (hkind : t.kind = kind)
    (hpiece : PieceOf trail c rest (some kind) trail')
    (hlt : t.span.start.offset < t.span.stop.offset) :
    Trailed (front ++ [t]) t.span.stop.offset trail' rest := by
  have hfront : ∀ u ∈ front, u.span.stop.offset < t.span.stop.offset := fun u hu =>
    Nat.lt_of_le_of_lt (h.within u hu) hlt
  have hwithin : ∀ u ∈ front ++ [t], u.span.stop.offset ≤ t.span.stop.offset := by
    intro u hu
    rcases List.mem_append.mp hu with hu | hu
    · exact (hfront u hu).le
    · rw [List.mem_singleton.mp hu]
  refine ⟨hwithin, ?_, ?_, ?_⟩
  · rw [keepEndsAt_stop hfront, hkind]
    cases hpiece with
    | keep => simp
    | suffix => simp
    | roll => simp
    | natural => split <;> simp
    | plain _ _ hsuffix =>
      refine ⟨nofun, ?_⟩
      rintro rfl
      cases hsuffix
  · rw [behindRoll_stop hlt, hkind]
    intro htrail
    cases hpiece with
    | keep => cases htrail
    | suffix _ _ _ _ hrest => exact .inr hrest
    | roll quantity die => exact .inl (.inl ⟨quantity, die, rfl⟩)
    | natural n =>
      split at htrail
      · rename_i hkeep
        exact .inl (.inr ⟨⟨n, rfl⟩, h.keep.mp hkeep⟩)
      · cases htrail
    | plain => cases htrail
  · rw [behindRoll_stop hlt, hkind]
    rintro (⟨quantity, die, rfl⟩ | ⟨⟨n, rfl⟩, hkeep⟩)
    · cases hpiece with
      | roll => rfl
      | plain _ _ _ hroll => exact absurd rfl (hroll quantity die)
    · cases hpiece with
      | natural => rw [if_pos (h.keep.mpr hkeep)]
      | plain _ _ _ _ hnatural => exact absurd rfl (hnatural n)

/-- Where a roll operator may be spelled, a roll or the count of a keep stands before it. -/
theorem Trailed.behindRoll {c : Char} {op : Operator} (h : Trailed front offset trail (c :: cs))
    (hroll : trail = .roll) (hc : Operator.suffixes.lookup c = some op) :
    BehindRoll front offset := by
  refine (h.roll hroll).resolve_right fun hnone => ?_
  rw [hnone c rfl] at hc
  cases hc

end

/-! ## Tokens of a scan -/

/-- A token that is found in a text behind the tokens `front`, with the trail that led to it. -/
inductive Found (text : List Char) (front : List Token) : Token → Prop
  | piece {cur : Cursor} {trail trail' : Trail} {c : Char} {pre more rest : List Char} {kind : Kind}
    (htext : text = pre ++ (c :: more ++ rest)) (hoffset : cur.loc.offset = pre.length)
    (htrail : Trailed front cur.loc.offset trail (c :: more ++ rest))
    (hpiece : scanPiece cur trail c (more ++ rest) = .ok ⟨more.length, some kind, trail'⟩) :
    Found text front ⟨kind, String.ofList (c :: more), cur.span (c :: more)⟩

theorem Cursor.offset_advance (cur : Cursor) (cs : List Char) :
    (cur.advance cs).loc.offset = cur.loc.offset + cs.length :=
  Location.offset_advance _ _

theorem Cursor.offset_lt_advance (cur : Cursor) (c : Char) (cs : List Char) :
    cur.loc.offset < (cur.advance (c :: cs)).loc.offset := by
  rw [offset_advance]
  exact Nat.lt_add_of_pos_right (Nat.succ_pos _)

theorem Cuts.found {cur : Cursor} {trail : Trail} {cs : List Char} {tokens : List Token}
    (h : Cuts cur trail cs tokens) {pre : List Char} {front : List Token}
    (hoffset : cur.loc.offset = pre.length) (htrail : Trailed front cur.loc.offset trail cs)
    {before after : List Token} {t : Token} (hsplit : tokens = before ++ t :: after) :
    Found (pre ++ cs) (front ++ before) t := by
  induction h generalizing pre front before with
  | done => simp at hsplit
  | @skip cur trail trail' c more rest tokens hpiece hrest ih =>
    have hstop : (cur.advance (c :: more)).loc.offset = (pre ++ c :: more).length := by
      rw [Cursor.offset_advance, hoffset, List.length_append]
    obtain rfl : trail' = .other := by
      cases pieceOf_of_scanPiece hpiece
      rfl
    rw [← List.append_assoc]
    exact ih hstop (htrail.skip (cur.offset_lt_advance c more) rest) hsplit
  | @token cur trail trail' c more rest kind tokens hpiece hrest ih =>
    cases before with
    | nil =>
      cases hsplit
      rw [List.append_nil]
      exact .piece rfl hoffset htrail hpiece
    | cons b before =>
      rw [List.cons_append, List.cons.injEq] at hsplit
      obtain ⟨rfl, hsplit⟩ := hsplit
      have hstop : (cur.advance (c :: more)).loc.offset = (pre ++ c :: more).length := by
        rw [Cursor.offset_advance, hoffset, List.length_append]
      have hnext := htrail.token
        (t := ⟨kind, String.ofList (c :: more), cur.span (c :: more)⟩) rfl
        (pieceOf_of_scanPiece hpiece) (cur.offset_lt_advance c more)
      rw [← List.append_assoc, List.append_cons front]
      exact ih hstop hnext hsplit

/-! ## Letters -/

section

variable {letter : Char} {op : Operator}

theorem lookup_of_mem_suffixes (h : (letter, op) ∈ Operator.suffixes) :
    Operator.suffixes.lookup letter = some op := by
  simp only [Operator.suffixes, List.mem_cons, Prod.mk.injEq, List.not_mem_nil, or_false] at h
  rcases h with ⟨rfl, rfl⟩ | ⟨rfl, rfl⟩ | ⟨rfl, rfl⟩ | ⟨rfl, rfl⟩ <;> rfl

theorem scanPiece_letter (h : (letter, op) ∈ Operator.suffixes) (cur : Cursor) (trail : Trail)
    (cs : List Char) :
    scanPiece cur trail letter cs =
      match suffix? trail letter cs with
      | some op => .ok ⟨0, some (.operator op), if op = .binary .keep then .keep else .roll⟩
      | none => scanName cur letter cs := by
  simp only [Operator.suffixes, List.mem_cons, Prod.mk.injEq, List.not_mem_nil, or_false] at h
  rcases h with ⟨rfl, -⟩ | ⟨rfl, -⟩ | ⟨rfl, -⟩ | ⟨rfl, -⟩ <;> rfl

/-- A letter is an operator behind the trail of a roll, where it is alone. -/
theorem suffix?_of_letter (h : (letter, op) ∈ Operator.suffixes) (trail : Trail) (cs : List Char) :
    (trail = .roll ∧ Alone letter cs.head?) ∧ suffix? trail letter cs = some op ∨
      ¬ (trail = .roll ∧ Alone letter cs.head?) ∧ suffix? trail letter cs = none := by
  by_cases htrail : trail = .roll
  · subst htrail
    simp only [suffix?, lookup_of_mem_suffixes h, ne_eq, not_true_eq_false, if_false, true_and,
      Alone, beq_iff_eq]
    cases cs.head? with
    | none => exact .inl ⟨by rintro _ ⟨⟩, rfl⟩
    | some follow =>
      simp only [Option.mem_some_iff, forall_eq']
      cases Text.isDigit follow <;> cases Text.isWordChar follow <;> by_cases hd : letter = 'd' <;>
        simp [hd]
  · exact .inr ⟨fun hroll => htrail hroll.1, suffix?_of_ne htrail letter cs⟩

/-- What a letter begins that is no operator. -/
theorem kind_of_scanName {cur : Cursor} {c : Char} {more rest : List Char} {kind : Kind}
    {trail' : Trail}
    (h : scanName cur c (more ++ rest) = .ok ⟨more.length, some kind, trail'⟩) :
    kind = .identifier (String.ofList (c :: more)) ∨ c = 'd' ∧ ∃ die, kind = .roll 1 die := by
  unfold scanName at h
  split at h
  · rename_i hd
    obtain ⟨⟨die, faces⟩, -, h⟩ := bind_eq_ok h
    cases congrArg Piece.kind (Except.ok.inj h)
    rw [Bool.and_eq_true, beq_iff_eq] at hd
    exact .inr ⟨hd.1, die, rfl⟩
  · rw [Except.ok.injEq, Piece.mk.injEq] at h
    obtain ⟨hlength, hkind, -⟩ := h
    have htake : (more ++ rest).takeWhile Text.isWordChar = more := by
      have hprefix := List.takeWhile_prefix Text.isWordChar (l := more ++ rest)
      exact List.IsPrefix.eq_of_length
        (List.prefix_of_prefix_length_le hprefix (List.prefix_append more rest) hlength.le) hlength
    rw [htake, Option.some.injEq] at hkind
    exact .inl hkind.symm

/-- What a letter begins: the operator that it spells, behind the trail of a roll and alone, and a
name or the roll of one die everywhere else. -/
theorem kind_of_letter (hletter : (letter, op) ∈ Operator.suffixes) {cur : Cursor}
    {trail trail' : Trail} {more rest : List Char} {kind : Kind}
    (h : scanPiece cur trail letter (more ++ rest) = .ok ⟨more.length, some kind, trail'⟩) :
    (trail = .roll ∧ Alone letter (more ++ rest).head?) ∧ kind = .operator op ∨
      ¬ (trail = .roll ∧ Alone letter (more ++ rest).head?) ∧
        (kind = .identifier (String.ofList (letter :: more)) ∨
          letter = 'd' ∧ ∃ die, kind = .roll 1 die) := by
  rw [scanPiece_letter hletter] at h
  rcases suffix?_of_letter hletter trail (more ++ rest) with ⟨halone, hsuffix⟩ | ⟨hnot, hsuffix⟩
  · rw [hsuffix] at h
    cases congrArg Piece.kind (Except.ok.inj h)
    exact .inl ⟨halone, rfl⟩
  · rw [hsuffix] at h
    exact .inr ⟨hnot, kind_of_scanName h⟩

end

/-- A token that begins with the letter of an operator. -/
theorem Found.letter {text : List Char} {front : List Token} {t : Token} (h : Found text front t)
    {letter : Char} {op : Operator} (hletter : (letter, op) ∈ Operator.suffixes)
    (hlexeme : t.lexeme.toList.head? = some letter) :
    (t.kind = .operator op ↔ BehindRoll front t.span.start.offset ∧
        StandsAlone text letter t.span.start.offset) ∧
      (t.kind ≠ .operator op → t.kind = .identifier t.lexeme ∨
        letter = 'd' ∧ ∃ die, t.kind = .roll 1 die) := by
  obtain @⟨cur, trail, trail', c, pre, more, rest, kind, htext, hoffset, htrail, hpiece⟩ := h
  rw [String.toList_ofList] at hlexeme
  obtain rfl : c = letter := Option.some.inj hlexeme
  have hfollow : StandsAlone text c cur.loc.offset ↔ Alone c (more ++ rest).head? := by
    rw [StandsAlone, htext, hoffset, List.getElem?_append_right (Nat.le_add_right _ 1),
      Nat.add_sub_cancel_left, List.head?_eq_getElem?]
    rfl
  have hroll : trail = .roll ↔ BehindRoll front cur.loc.offset :=
    ⟨fun h => htrail.behindRoll h (lookup_of_mem_suffixes hletter), htrail.ofRoll⟩
  change (kind = .operator op ↔ BehindRoll front cur.loc.offset ∧
    StandsAlone text c cur.loc.offset) ∧ _
  rw [hfollow, ← hroll]
  rcases kind_of_letter hletter hpiece with ⟨hsuffix, rfl⟩ | ⟨hnot, hkind⟩
  · exact ⟨⟨fun _ => hsuffix, fun _ => rfl⟩, fun hne => absurd rfl hne⟩
  · refine ⟨⟨?_, fun h => absurd h hnot⟩, fun _ => hkind⟩
    rintro rfl
    rcases hkind with hkind | ⟨-, die, hkind⟩ <;> cases hkind

/-- A roll operator stands directly behind a roll or behind the count of a keep. -/
theorem Found.behindRoll {text : List Char} {front : List Token} {t : Token}
    (h : Found text front t) (hsuffix : t.kind.isSuffix = true) :
    BehindRoll front t.span.start.offset := by
  obtain @⟨cur, trail, trail', c, pre, more, rest, kind, -, -, htrail, hpiece⟩ := h
  change BehindRoll front cur.loc.offset
  cases pieceOf_of_scanPiece hpiece with
  | keep hroll hc =>
    subst hc
    exact htrail.behindRoll hroll rfl
  | suffix op hroll _ hc => exact htrail.behindRoll hroll hc
  | roll | natural => cases hsuffix
  | plain _ _ hnot =>
    rw [show kind.isSuffix = true from hsuffix] at hnot
    cases hnot

/-- In the tokens of a text, a token that begins with one of the letters `a`, `d`, `k` and `s` is
the operator of that letter if it stands directly behind a roll, or behind a natural that stands
directly behind a keep, and the character behind the letter is no part of a name, or is a digit and
the letter is not `d`. Otherwise it is a name or, behind a `d`, the roll of one die. So no two roll
operators stand directly behind each other. -/
theorem roll_operator_iff {source : String} {file : Option String} {tokens : List Token}
    (h : scan source file = .ok tokens) :
    (∀ (before : List Token) (t : Token) (after : List Token) (letter : Char) (op : Operator),
      tokens = before ++ t :: after → (letter, op) ∈ Operator.suffixes →
      t.lexeme.toList.head? = some letter →
      (t.kind = .operator op ↔ BehindRoll before t.span.start.offset ∧
        StandsAlone source.toList letter t.span.start.offset) ∧
      (t.kind ≠ .operator op → t.kind = .identifier t.lexeme ∨
        letter = 'd' ∧ ∃ die, t.kind = .roll 1 die)) ∧
    ∀ (before : List Token) (t u : Token) (after : List Token),
      tokens = before ++ t :: u :: after → t.kind.isSuffix = true → u.kind.isSuffix = true →
      t.span.stop.offset ≠ u.span.start.offset := by
  have hfound : ∀ before t after, tokens = before ++ t :: after →
      Found source.toList before t := by
    intro before t after hsplit
    have hcut : Found ([] ++ source.toList) ([] ++ before) t :=
      (cuts_of_scanFrom h).found rfl (trailed_start _) hsplit
    exact hcut
  refine ⟨fun before t after letter op hsplit hletter hlexeme =>
    (hfound before t after hsplit).letter hletter hlexeme, ?_⟩
  intro before t u after hsplit ht hu hadjacent
  rw [List.append_cons] at hsplit
  obtain ⟨p, hp, -, hkind⟩ := (hfound (before ++ [t]) u after hsplit).behindRoll hu
  rw [List.getLast?_concat, Option.some.injEq] at hp
  subst hp
  rcases hkind with ⟨quantity, die, hkind⟩ | ⟨⟨n, hkind⟩, -⟩ <;> rw [hkind] at ht <;> cases ht

theorem roll_operator_iff_count :
    let token (kind : Kind) (lexeme : String) (start stop : Nat) : Token :=
      ⟨kind, lexeme, ⟨⟨1, start + 1, start⟩, ⟨1, stop + 1, stop⟩, none⟩⟩
    let before := [token (.roll 3 6) "3d6" 0 3, token (.operator (.binary .keep)) "k" 3 4,
      token (.natural 1) "1" 4 5]
    let t := token (.operator (.unary .advantage)) "a" 5 6
    scan "3d6k1a" = .ok (before ++ [t]) ∧ BehindRoll before 5 ∧
      StandsAlone "3d6k1a".toList 'a' 5 := by
  intro token before t
  have hscan : scan "3d6k1a" = .ok (before ++ [t]) := scan_of_within rfl
  have hlexeme : t.lexeme.toList.head? = some 'a' := by decide
  have hiff := ((roll_operator_iff hscan).1 before t [] 'a' (.unary .advantage) rfl
    List.mem_cons_self hlexeme).1
  exact ⟨hscan, hiff.mp rfl⟩

end Token

end DiceTome
