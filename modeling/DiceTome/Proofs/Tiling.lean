import DiceTome.Proofs.SoundTokens

/-!
# Tokens tile the text

The scanner drops nothing but separators and comments, and every token says truly where it stands.

* `Token.Cuts` is the scanner as a relation between a text and its tokens, with each piece written
  out as a part of the text.
* `Token.Tiles` says by offsets alone what the tokens have to do with the text.
* `Token.scanWithin` is the scanner's loop with a bound on its rounds, and `Token.scan_tiles` says
  that as many rounds as there are characters are enough and that the tokens tile the text.
-/

namespace DiceTome

/-! ## Places in a text -/

namespace Location

theorem advance_append (loc : Location) (cs ds : List Char) :
    loc.advance (cs ++ ds) = (loc.advance cs).advance ds :=
  List.foldl_append

theorem offset_next (loc : Location) (c : Char) : (loc.next c).offset = loc.offset + 1 := by
  unfold next
  split <;> rfl

theorem offset_advance (loc : Location) (cs : List Char) :
    (loc.advance cs).offset = loc.offset + cs.length := by
  induction cs generalizing loc with
  | nil => rfl
  | cons c cs ih =>
    change ((loc.next c).advance cs).offset = _
    rw [ih, offset_next, List.length_cons, Nat.add_assoc, Nat.add_comm 1]

theorem offset_advance_start (cs : List Char) :
    (({} : Location).advance cs).offset = cs.length := by
  rw [offset_advance, Nat.zero_add]

/-- The line of the given offset starts at `start`: at the beginning of the text or behind a
newline, with no newline in between. -/
structure StartsLine (text : List Char) (offset start : Nat) : Prop where
  le : start ≤ offset
  fresh : start = 0 ∨ text[start - 1]? = some '\n'
  unbroken : '\n' ∉ text.extract start offset

/-- The location stands in the text: its line and its column are those of its offset. -/
structure InText (text : List Char) (loc : Location) : Prop where
  le : loc.offset ≤ text.length
  line : loc.line = 1 + ((text.take loc.offset).count '\n' : Int)
  column : ∃ start, StartsLine text loc.offset start ∧ loc.column = loc.offset - start + 1

/-- What the scanner has counted behind some text: its newlines, and the characters behind the last
of them. -/
theorem advance_lines (pre : List Char) :
    (({} : Location).advance pre).line = 1 + (pre.count '\n' : Int) ∧
      ∃ before line, pre = before ++ line ∧ '\n' ∉ line ∧
        (before = [] ∨ before.getLast? = some '\n') ∧
        (({} : Location).advance pre).column = line.length + 1 := by
  induction pre using List.reverseRecOn with
  | nil => exact ⟨rfl, [], [], rfl, by simp, .inl rfl, rfl⟩
  | append_singleton pre c ih =>
    obtain ⟨hline, before, line, hpre, hnone, hbefore, hcolumn⟩ := ih
    rw [advance_append, advance, List.foldl_cons, List.foldl_nil, next]
    by_cases hc : c = '\n'
    · subst hc
      rw [if_pos rfl]
      refine ⟨?_, pre ++ ['\n'], [], (List.append_nil _).symm, by simp, .inr (by simp), rfl⟩
      simp only [hline, List.count_append, List.count_singleton_self]
      omega
    · rw [if_neg hc]
      refine ⟨?_, before, line ++ [c], ?_, ?_, hbefore, ?_⟩
      · simp [hline, hc]
      · rw [hpre, List.append_assoc]
      · simp [hnone, Ne.symm hc]
      · simp [hcolumn]

/-- Locations that are counted through the text stand in it. -/
theorem inText_advance (pre rest : List Char) :
    (({} : Location).advance pre).InText (pre ++ rest) := by
  obtain ⟨hline, before, line, hpre, hnone, hbefore, hcolumn⟩ := advance_lines pre
  have hoffset := offset_advance_start pre
  have hlength : pre.length = before.length + line.length := by
    rw [hpre, List.length_append]
  refine ⟨?_, ?_, before.length, ⟨?_, ?_, ?_⟩, ?_⟩
  · rw [hoffset, List.length_append]
    omega
  · rw [hoffset, List.take_left, hline]
  · omega
  · refine hbefore.imp (fun h => by rw [h]; rfl) fun h => ?_
    obtain ⟨front, rfl⟩ := List.getLast?_eq_some_iff.mp h
    simp [hpre]
  · rw [hoffset, hpre, List.append_assoc, List.extract_eq_take_drop, List.drop_left,
      List.length_append, Nat.add_sub_cancel_left, List.take_left]
    exact hnone
  · rw [hcolumn, hoffset, hlength]
    omega

end Location

namespace Token

/-! ## Pieces are parts of the text -/

theorem StringEnd.after_eq_closed {end' : StringEnd} {c : Char} {n length : Nat} {text : List Char}
    (h : end'.after c n = .closed text length) :
    ∃ text' length', end' = .closed text' length' ∧ length = length' + n := by
  cases end' with
  | closed text' length' =>
    cases h
    exact ⟨text', length', rfl, rfl⟩
  | unterminated _ | badEscape _ _ => cases h

theorem length_of_readString {cs text : List Char} {length : Nat}
    (h : readString cs = .closed text length) : length ≤ cs.length := by
  fun_induction readString cs generalizing text length with
  | case1 | case3 | case4 | case5 => cases h
  | case2 rest =>
    cases h
    exact Nat.succ_le_succ (Nat.zero_le _)
  | case6 e rest c hsome ih =>
    obtain ⟨text', length', hrest, rfl⟩ := StringEnd.after_eq_closed h
    exact Nat.add_le_add_right (ih hrest) 2
  | case7 c rest _ _ _ _ ih =>
    obtain ⟨text', length', hrest, rfl⟩ := StringEnd.after_eq_closed h
    exact Nat.add_le_add_right (ih hrest) 1

theorem faces_of_readFaces {cur : Cursor} {cs behind : List Char} {p : Nat × List Char}
    (h : readFaces cur cs behind = .ok p) : p.2 = behind.takeWhile Text.isDigit := by
  unfold readFaces at h
  simp only at h
  split at h
  · cases h
  · cases hread : readNatural cur cs (behind.takeWhile Text.isDigit) with
    | error e => rw [hread] at h; cases h
    | ok n =>
      rw [hread] at h
      cases h
      rfl

/-- A number literal is a token within the text. -/
theorem token_of_scanNumber {cur : Cursor} {trail : Trail} {cs : List Char} {piece : Piece}
    (h : scanNumber cur trail cs = .ok piece) :
    piece.kind.isSome = true ∧ piece.extra ≤ cs.length - 1 := by
  have hsplit := congrArg List.length
    (List.takeWhile_append_dropWhile (p := Text.isDigit) (l := cs))
  rw [List.length_append] at hsplit
  unfold scanNumber at h
  simp only at h
  split at h
  · rename_i behind hbehind
    obtain ⟨quantity, -, h⟩ := bind_eq_ok h
    obtain ⟨⟨die, faces⟩, hfaces, h⟩ := bind_eq_ok h
    cases h
    have hle := (List.takeWhile_sublist Text.isDigit (l := behind)).length_le
    rw [← faces_of_readFaces hfaces] at hle
    rw [hbehind, List.length_cons] at hsplit
    refine ⟨rfl, ?_⟩
    dsimp only at hle ⊢
    omega
  · rename_i behind hbehind
    split at h
    · cases h
    · obtain ⟨x, -, h⟩ := bind_eq_ok h
      cases h
      have hle := (List.takeWhile_sublist Text.isDigit (l := behind)).length_le
      rw [hbehind, List.length_cons] at hsplit
      refine ⟨rfl, ?_⟩
      dsimp only
      omega
  · obtain ⟨n, -, h⟩ := bind_eq_ok h
    cases h
    refine ⟨rfl, ?_⟩
    dsimp only
    omega

theorem token_of_scanName {cur : Cursor} {c : Char} {cs : List Char} {piece : Piece}
    (h : scanName cur c cs = .ok piece) :
    piece.kind.isSome = true ∧ piece.extra ≤ cs.length := by
  unfold scanName at h
  split at h
  · obtain ⟨⟨die, faces⟩, hfaces, h⟩ := bind_eq_ok h
    cases h
    have hle := (List.takeWhile_sublist Text.isDigit (l := cs)).length_le
    rw [← faces_of_readFaces hfaces] at hle
    exact ⟨rfl, hle⟩
  · cases h
    exact ⟨rfl, (List.takeWhile_sublist _).length_le⟩

theorem token_of_scanString {cur : Cursor} {cs : List Char} {piece : Piece}
    (h : scanString cur cs = .ok piece) :
    piece.kind.isSome = true ∧ piece.extra ≤ cs.length := by
  unfold scanString at h
  split at h
  · rename_i hread
    cases h
    exact ⟨rfl, length_of_readString hread⟩
  · cases h
  · cases h

theorem length_of_literal? {cs : List Char} {op : Operator} {extra : Nat}
    (h : literal? cs = some (op, extra)) : extra ≤ cs.length - 1 := by
  obtain ⟨p, hp, hpair⟩ := Option.map_eq_some_iff.mp h
  cases hpair
  have hle := (List.isPrefixOf_iff_prefix.mp (List.find?_some hp :)).length_le
  rw [String.length_toList] at hle
  exact Nat.sub_le_sub_right hle 1

/-- A piece is a separator, a comment, or a token within the text. -/
theorem piece_cases {cur : Cursor} {trail : Trail} {c : Char} {cs : List Char} {piece : Piece}
    (h : scanPiece cur trail c cs = .ok piece) :
    (isSeparator c = true ∧ piece.kind = none ∧ piece.extra = 0) ∨
    (c = '#' ∧ piece.kind = none ∧ piece.extra = (cs.takeWhile (· != '\n')).length) ∨
    (piece.kind.isSome = true ∧ piece.extra ≤ cs.length) := by
  unfold scanPiece at h
  split at h
  · rename_i hc
    cases h
    exact .inl ⟨hc, rfl, rfl⟩
  split at h
  · rename_i hc
    cases h
    exact .inr (.inl ⟨eq_of_beq hc, rfl, rfl⟩)
  refine .inr (.inr ?_)
  split at h
  · cases h
    exact ⟨rfl, Nat.zero_le _⟩
  split at h
  · exact token_of_scanNumber h
  split at h
  · exact token_of_scanName h
  split at h
  · exact token_of_scanString h
  split at h
  · cases h
    exact ⟨rfl, Nat.zero_le _⟩
  · rename_i hliteral
    cases h
    exact ⟨rfl, length_of_literal? hliteral⟩
  · cases h

/-- A piece ends within the text. -/
theorem exists_of_scanPiece {cur : Cursor} {trail : Trail} {c : Char} {cs : List Char}
    {piece : Piece} (h : scanPiece cur trail c cs = .ok piece) :
    ∃ more rest, cs = more ++ rest ∧ piece.extra = more.length := by
  have hle : piece.extra ≤ cs.length := by
    rcases piece_cases h with ⟨-, -, hextra⟩ | ⟨-, -, hextra⟩ | ⟨-, hle⟩
    · omega
    · rw [hextra]
      exact (List.takeWhile_sublist _).length_le
    · exact hle
  exact ⟨cs.take piece.extra, cs.drop piece.extra, (List.take_append_drop _ _).symm,
    (List.length_take_of_le hle).symm⟩

/-- How a text is cut from a cursor on, piece by piece. -/
inductive Cuts : Cursor → Trail → List Char → List Token → Prop
  | done (cur : Cursor) (trail : Trail) : Cuts cur trail [] []
  | skip {cur : Cursor} {trail trail' : Trail} {c : Char} {more rest : List Char}
    {tokens : List Token}
    (hpiece : scanPiece cur trail c (more ++ rest) = .ok ⟨more.length, none, trail'⟩)
    (hrest : Cuts (cur.advance (c :: more)) trail' rest tokens) :
    Cuts cur trail (c :: more ++ rest) tokens
  | token {cur : Cursor} {trail trail' : Trail} {c : Char} {more rest : List Char} {kind : Kind}
    {tokens : List Token}
    (hpiece : scanPiece cur trail c (more ++ rest) = .ok ⟨more.length, some kind, trail'⟩)
    (hrest : Cuts (cur.advance (c :: more)) trail' rest tokens) :
    Cuts cur trail (c :: more ++ rest)
      (⟨kind, String.ofList (c :: more), cur.span (c :: more)⟩ :: tokens)

theorem cuts_of_scanFrom {cur : Cursor} {trail : Trail} {cs : List Char} {tokens : List Token}
    (h : scanFrom cur trail cs = .ok tokens) : Cuts cur trail cs tokens := by
  induction hn : cs.length using Nat.strongRecOn generalizing cur trail cs tokens with
  | ind n ih =>
    subst hn
    cases cs with
    | nil =>
      rw [scanFrom] at h
      cases h
      exact .done cur trail
    | cons c cs =>
      rw [scanFrom] at h
      obtain ⟨⟨extra, kind, trail'⟩, hpiece, h⟩ := bind_eq_ok h
      obtain ⟨more, rest, rfl, hextra⟩ := exists_of_scanPiece hpiece
      dsimp only at hextra
      subst hextra
      simp only [List.take_left, List.drop_left] at h
      obtain ⟨later, hlater, h⟩ := bind_eq_ok h
      have hshorter : rest.length < (c :: (more ++ rest)).length := by
        rw [List.length_cons, List.length_append]
        omega
      have hcuts := ih _ hshorter hlater rfl
      cases kind with
      | none =>
        cases h
        exact .skip hpiece hcuts
      | some kind =>
        cases h
        exact .token hpiece hcuts

/-! ## What is skipped -/

/-- Text that stands between tokens, with `rest` behind it: separators, and comments that go on to
the next newline or to the end of the whole text. -/
inductive Skipped (rest : List Char) : List Char → Prop
  | nil : Skipped rest []
  | separator {c : Char} {gap : List Char} (hc : isSeparator c = true) (hgap : Skipped rest gap) :
    Skipped rest (c :: gap)
  | comment {text gap : List Char} (htext : '\n' ∉ text)
    (hend : (gap ++ rest).head? ∈ [none, some '\n']) (hgap : Skipped rest gap) :
    Skipped rest ('#' :: text ++ gap)

theorem Skipped.append {rest gap gap' : List Char} (h : Skipped (gap' ++ rest) gap)
    (h' : Skipped rest gap') : Skipped rest (gap ++ gap') := by
  induction h with
  | nil => exact h'
  | separator hc _ ih => exact .separator hc ih
  | comment htext hend _ ih =>
    rw [List.append_assoc]
    exact .comment htext (by rwa [List.append_assoc]) ih

/-- A piece without a token is a separator or a comment. -/
theorem skipped_of_scanPiece {cur : Cursor} {trail trail' : Trail} {c : Char}
    {more rest : List Char}
    (h : scanPiece cur trail c (more ++ rest) = .ok ⟨more.length, none, trail'⟩) :
    Skipped rest (c :: more) := by
  rcases piece_cases h with ⟨hc, -, hmore⟩ | ⟨rfl, -, hmore⟩ | ⟨hkind, -⟩
  · obtain rfl := List.eq_nil_of_length_eq_zero hmore
    exact .separator hc .nil
  · obtain ⟨htake, hdrop⟩ := List.append_inj
      (List.takeWhile_append_dropWhile (p := (· != '\n')) (l := more ++ rest)) hmore.symm
    have hcomment : Skipped rest ('#' :: more ++ []) := by
      refine .comment ?_ ?_ .nil
      · intro hmem
        rw [← htake] at hmem
        simpa using List.mem_takeWhile_imp hmem
      · have hend := List.head?_dropWhile_not (· != '\n') (more ++ rest)
        rw [hdrop] at hend
        rw [List.nil_append]
        cases hhead : rest.head? with
        | none => simp
        | some c =>
          rw [hhead] at hend
          simpa using hend
    rwa [List.append_nil] at hcomment
  · cases hkind

/-! ## Tokens tile the text -/

/-- The stretches of a text before, between and behind tokens, from an offset to the end. -/
def gaps (start stop : Nat) : List Token → List (Nat × Nat)
  | [] => [(start, stop)]
  | t :: ts => (start, t.span.start.offset) :: gaps t.span.stop.offset stop ts

/-- The tokens tile the text from an offset on. -/
structure TilesFrom (text : List Char) (start : Nat) (tokens : List Token) : Prop where
  behind : ∀ t ∈ tokens, start ≤ t.span.start.offset
  nonempty : ∀ t ∈ tokens, t.span.start.offset < t.span.stop.offset
  lexeme : ∀ t ∈ tokens, t.lexeme.toList = text.extract t.span.start.offset t.span.stop.offset
  ordered : tokens.Pairwise fun t u => t.span.stop.offset ≤ u.span.start.offset
  skipped : ∀ gap ∈ gaps start text.length tokens,
    Skipped (text.drop gap.2) (text.extract gap.1 gap.2)
  located : ∀ t ∈ tokens, t.span.start.InText text ∧ t.span.stop.InText text

/-- The tokens tile the text: each is the part of the text between its offsets, they stand one
behind the other, everything else is skipped, and lines and columns are right. -/
abbrev Tiles (text : List Char) (tokens : List Token) : Prop :=
  TilesFrom text 0 tokens

/-- A token with skipped text before it, and tokens that tile the text behind it. -/
theorem TilesFrom.cons {t : Token} {tokens : List Token} {pre gap lexeme rest : List Char}
    (hstart : t.span.start = ({} : Location).advance (pre ++ gap))
    (hstop : t.span.stop = ({} : Location).advance (pre ++ gap ++ lexeme))
    (hlexeme : t.lexeme.toList = lexeme) (hne : lexeme ≠ []) (hgap : Skipped (lexeme ++ rest) gap)
    (h : TilesFrom (pre ++ gap ++ (lexeme ++ rest)) (pre ++ gap ++ lexeme).length tokens) :
    TilesFrom (pre ++ gap ++ (lexeme ++ rest)) pre.length (t :: tokens) := by
  have hfrom : t.span.start.offset = (pre ++ gap).length := by
    rw [hstart, Location.offset_advance_start]
  have hto : t.span.stop.offset = (pre ++ gap ++ lexeme).length := by
    rw [hstop, Location.offset_advance_start]
  have hlength : (pre ++ gap ++ lexeme).length = (pre ++ gap).length + lexeme.length :=
    List.length_append
  constructor
  · refine List.forall_mem_cons.mpr ⟨?_, fun u hu => ?_⟩
    · rw [hfrom, List.length_append]
      omega
    · have hu := h.behind u hu
      simp only [List.length_append] at hu
      omega
  · refine List.forall_mem_cons.mpr ⟨?_, h.nonempty⟩
    have hpos := List.length_pos_iff.mpr hne
    omega
  · refine List.forall_mem_cons.mpr ⟨?_, h.lexeme⟩
    rw [hfrom, hto, hlength, hlexeme, List.extract_eq_take_drop, List.drop_left,
      Nat.add_sub_cancel_left, List.take_left]
  · refine List.pairwise_cons.mpr ⟨fun u hu => ?_, h.ordered⟩
    rw [hto]
    exact h.behind u hu
  · rw [gaps]
    refine List.forall_mem_cons.mpr ⟨?_, ?_⟩
    · dsimp only
      rw [hfrom, List.drop_left, List.append_assoc, List.extract_eq_take_drop, List.drop_left,
        List.length_append, Nat.add_sub_cancel_left, List.take_left]
      exact hgap
    · rw [hto]
      exact h.skipped
  · refine List.forall_mem_cons.mpr ⟨⟨?_, ?_⟩, h.located⟩
    · rw [hstart]
      exact Location.inText_advance _ _
    · rw [hstop, ← List.append_assoc]
      exact Location.inText_advance _ _

/-- A scan that has skipped everything since some offset. -/
theorem Cuts.tilesFrom {cur : Cursor} {trail : Trail} {cs : List Char} {tokens : List Token}
    (h : Cuts cur trail cs tokens) {pre gap : List Char}
    (hloc : cur.loc = ({} : Location).advance (pre ++ gap)) (hgap : Skipped cs gap) :
    TilesFrom (pre ++ gap ++ cs) pre.length tokens := by
  induction h generalizing pre gap with
  | done cur trail =>
    refine ⟨List.forall_mem_nil _, List.forall_mem_nil _, List.forall_mem_nil _, .nil, ?_,
      List.forall_mem_nil _⟩
    intro stretch hstretch
    obtain rfl := List.mem_singleton.mp hstretch
    simpa using hgap
  | @skip cur trail trail' c more rest tokens hpiece hrest ih =>
    have hmore : Skipped rest (c :: more) := skipped_of_scanPiece hpiece
    have htext : pre ++ gap ++ (c :: more ++ rest) = pre ++ (gap ++ c :: more) ++ rest := by
      simp only [List.append_assoc]
    have hloc' : (cur.advance (c :: more)).loc =
        ({} : Location).advance (pre ++ (gap ++ c :: more)) := by
      rw [Cursor.advance, hloc, ← Location.advance_append, List.append_assoc]
    rw [htext]
    exact ih hloc' (hgap.append hmore)
  | @token cur trail trail' c more rest kind tokens hpiece hrest ih =>
    have hstop : cur.loc.advance (c :: more) =
        ({} : Location).advance (pre ++ gap ++ c :: more) := by
      rw [hloc, ← Location.advance_append]
    have hlater : TilesFrom (pre ++ gap ++ (c :: more ++ rest))
        (pre ++ gap ++ c :: more).length tokens := by
      have hloc' : (cur.advance (c :: more)).loc =
          ({} : Location).advance (pre ++ gap ++ c :: more ++ []) := by
        rw [List.append_nil]
        exact hstop
      have := ih hloc' .nil
      rwa [List.append_nil, List.append_assoc] at this
    exact .cons hloc hstop String.toList_ofList (List.cons_ne_nil c more) hgap hlater

/-! ## The scanner ends -/

/-- The loop of `scanFrom` with a bound on its rounds, and nothing where the bound is too small. -/
def scanWithin (cur : Cursor) (trail : Trail) :
    Nat → List Char → Option (Except ScanError (List Token))
  | _, [] => some (.ok [])
  | 0, _ :: _ => none
  | n + 1, c :: cs =>
    match scanPiece cur trail c cs with
    | .error e => some (.error e)
    | .ok piece =>
      let lexeme := c :: cs.take piece.extra
      (scanWithin (cur.advance lexeme) piece.trail n (cs.drop piece.extra)).map fun later => do
        let tokens ← later
        match piece.kind with
        | none => return tokens
        | some kind => return ⟨kind, String.ofList lexeme, cur.span lexeme⟩ :: tokens

/-- A round takes at least one character. -/
theorem scanWithin_eq {n : Nat} {cs : List Char} (hn : cs.length ≤ n) (cur : Cursor)
    (trail : Trail) : scanWithin cur trail n cs = some (scanFrom cur trail cs) := by
  induction n generalizing cur trail cs with
  | zero =>
    obtain rfl := List.eq_nil_of_length_eq_zero (Nat.le_zero.mp hn)
    rw [scanFrom]
    rfl
  | succ n ih =>
    cases cs with
    | nil =>
      rw [scanFrom]
      rfl
    | cons c cs =>
      rw [scanWithin, scanFrom]
      cases scanPiece cur trail c cs with
      | error e => rfl
      | ok piece =>
        have hle : (cs.drop piece.extra).length ≤ n := by
          rw [List.length_cons] at hn
          rw [List.length_drop]
          omega
        dsimp only
        rw [ih hle]
        rfl

theorem scan_of_within {source : String} {file : Option String}
    {result : Except ScanError (List Token)}
    (h : scanWithin ⟨file, {}⟩ .other source.length source.toList = some result) :
    scan source file = result :=
  Option.some.inj ((scanWithin_eq (Nat.le_of_eq String.length_toList) _ _).symm.trans h)

/-- Scanning a text ends within as many rounds as the text has characters, and if it finds tokens,
they tile the text. -/
theorem scan_tiles (source : String) (file : Option String) :
    scanWithin ⟨file, {}⟩ .other source.length source.toList = some (scan source file) ∧
      ∀ tokens, scan source file = .ok tokens → Tiles source.toList tokens := by
  refine ⟨scanWithin_eq (Nat.le_of_eq String.length_toList) _ _, fun tokens h => ?_⟩
  have hstart : (Cursor.mk file {}).loc = ({} : Location).advance ([] ++ []) := rfl
  exact (cuts_of_scanFrom h).tilesFrom hstart .nil

theorem scan_tiles_comment :
    let token : Token := ⟨.identifier "b", "b", ⟨⟨2, 1, 4⟩, ⟨2, 2, 5⟩, none⟩⟩
    scan "# a\nb" = .ok [token] ∧ Tiles "# a\nb".toList [token] := by
  intro token
  have hscan : scan "# a\nb" = .ok [token] := scan_of_within rfl
  exact ⟨hscan, (scan_tiles "# a\nb" none).2 [token] hscan⟩

end Token

end DiceTome
