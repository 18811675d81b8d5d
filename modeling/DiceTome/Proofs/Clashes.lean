import DiceTome.Proofs.ShortestDigits
import DiceTome.Proofs.SoundTokens

/-!
# Tokens that clash

Behind a closing delimiter no operand can start: no expression goes on like that, so a list of
tokens with such a clash is not parsed as one expression (`Climb.not_clashes_of_parse`). The printer
leads to a clash where a keep or a roll operator stands behind a closing parenthesis, since the
scanner takes its letter for a name there (`Expr.fate`).
-/

namespace DiceTome

open Token

namespace Climb

/-- A token that an operand starts with. -/
def isOperandStart : Kind → Bool
  | .natural _ | .decimal _ | .roll _ _ | .string _ => true
  | .identifier n => n ≠ "then" && n ≠ "else"
  | _ => false

def startsOperand : List Kind → Bool
  | token :: _ => isOperandStart token
  | [] => false

def isCloser : Kind → Bool
  | .delimiter d => d.isCloser
  | _ => false

/-- Whether an operand starts right behind a closing delimiter. -/
def clashes : List Kind → Bool
  | token :: ts => (isCloser token && startsOperand ts) || clashes ts
  | [] => false

theorem clashes_cons {token : Kind} (h : isCloser token = false) (ts : List Kind) :
    clashes (token :: ts) = clashes ts := by
  simp [clashes, h]

theorem clashes_append {ts : List Kind} (h : clashes ts = true) (before : List Kind) :
    clashes (before ++ ts) = true := by
  induction before with
  | nil => exact h
  | cons token before ih => simp [clashes, ih]

/-- No expression could go on with the tokens. -/
def Jams (ts : List Kind) : Prop :=
  clashes ts = true ∨ startsOperand ts = true

theorem clashes_tail {token : Kind} {ts : List Kind} (h : Jams (token :: ts))
    (hcloser : isCloser token = false) (hstart : isOperandStart token = false) :
    clashes ts = true := by
  rcases h with h | h
  · rwa [clashes_cons hcloser] at h
  · rw [startsOperand, hstart] at h
    cases h

theorem Jams.closer {d : Delimiter} {ts : List Kind} (h : Jams (.delimiter d :: ts))
    (hd : isOperandStart (.delimiter d) = false) : Jams ts := by
  rcases h with h | h
  · simp only [clashes, Bool.or_eq_true, Bool.and_eq_true] at h
    exact h.symm.imp_right And.right
  · rw [startsOperand, hd] at h
    cases h

/-- Every level of fewer than `n` tokens leaves a clash behind. -/
def JamsLevels (n : Nat) : Prop :=
  ∀ (ts : List Kind) (m : Nat) (e : Expr) (rest : List Kind), ts.length < n →
    clashes ts = true → level m ts = some (e, rest) → Jams rest

theorem jams_climb {n : Nat} (hlevel : JamsLevels n) {ts : List Kind} {m : Nat} {left e : Expr}
    {rest : List Kind} (hts : ts.length ≤ n) (hjams : Jams ts) (h : ClimbReads m left ts e rest) :
    Jams rest := by
  induction h with
  | stops => exact hjams
  | binary _ hright _ ih =>
    have hlt := length_level hright
    have hmore := hlevel _ _ _ _ hts (clashes_tail hjams rfl rfl) hright
    exact ih (Nat.le_trans (Nat.le_of_lt hlt) (Nat.le_of_lt hts)) hmore
  | postfixOp _ _ _ ih => exact ih (Nat.le_of_lt hts) (.inl (clashes_tail hjams rfl rfl))

theorem jams_series {n : Nat} (hlevel : JamsLevels n) {closer : Delimiter}
    (hcloser : isOperandStart (.delimiter closer) = false) {ts : List Kind} {es : List Expr}
    {rest : List Kind} (hts : ts.length < n) (hclash : clashes ts = true)
    (h : SeriesReads closer ts es rest) : Jams rest := by
  induction h with
  | last he => exact (hlevel _ _ _ _ hts hclash he).closer hcloser
  | more he _ ih =>
    have hlt := length_level he
    exact ih (Nat.lt_trans (Nat.lt_of_succ_lt hlt) hts)
      (clashes_tail (hlevel _ _ _ _ hts hclash he) rfl rfl)

theorem jams_items {n : Nat} (hlevel : JamsLevels n) {closer : Delimiter}
    (hcloser : isOperandStart (.delimiter closer) = false) {ts : List Kind} {es : List Expr}
    {rest : List Kind} (hts : ts.length < n) (hclash : clashes ts = true)
    (h : ItemsReads closer ts es rest) : Jams rest := by
  cases h with
  | none => exact Jams.closer (.inl hclash) hcloser
  | some h => exact jams_series hlevel hcloser hts hclash h

theorem jams_primary {n : Nat} (hlevel : JamsLevels n) {token : Kind} {ts : List Kind} {e : Expr}
    {rest : List Kind} (hts : ts.length < n) (hclash : clashes (token :: ts) = true)
    (h : PrimaryReads token ts e rest) : Jams rest := by
  cases h with
  | natural | decimal | roll | string | yes | no | name => exact .inl hclash
  | call _ hargs => exact jams_items hlevel rfl (Nat.lt_of_succ_lt hts) hclash hargs
  | list hitems => exact jams_items hlevel rfl hts hclash hitems
  | group he => exact (hlevel _ _ _ _ hts hclash he).closer rfl
  | ifThen hc hx =>
    have hlt := Nat.lt_of_succ_lt (length_level hc)
    have hconsequent := clashes_tail (hlevel _ _ _ _ hts hclash hc) rfl rfl
    exact hlevel _ _ _ _ (Nat.lt_trans hlt hts) hconsequent hx
  | ifElse hc hx hy =>
    have hlt := Nat.lt_trans (Nat.lt_of_succ_lt (length_level hc)) hts
    have hlt' := Nat.lt_trans (Nat.lt_of_succ_lt (length_level hx)) hlt
    have hconsequent := clashes_tail (hlevel _ _ _ _ hts hclash hc) rfl rfl
    have halternative := clashes_tail (hlevel _ _ _ _ hlt hconsequent hx) rfl rfl
    exact hlevel _ _ _ _ hlt' halternative hy

theorem jams_level (n : Nat) : JamsLevels n := by
  induction n with
  | zero => exact fun _ _ _ _ hts => absurd hts (Nat.not_lt_zero _)
  | succ n ih =>
    intro ts m e rest hts hclash h
    cases levelReads_of_level h with
    | @prefixOp token op operand _ ts behindOperand _ hop ho hclimb =>
      have hshort : ts.length < n := Nat.lt_of_succ_lt_succ hts
      have hcloser : isCloser token = false := by
        cases token <;> first | rfl | cases hop
      rw [clashes_cons hcloser] at hclash
      have hlt := length_level ho
      exact jams_climb ih (by omega) (ih ts 8 _ _ hshort hclash ho) hclimb
    | @primary token operand _ ts behindOperand _ _ ho hclimb =>
      have hshort : ts.length < n := Nat.lt_of_succ_lt_succ hts
      have hle := ho.length_le
      exact jams_climb ih (by omega) (jams_primary ih hshort hclash ho) hclimb

/-- Tokens that are parsed as one expression do not clash. -/
theorem not_clashes_of_parse {ts : List Kind} {e : Expr} (h : parse ts = some e) :
    clashes ts = false := by
  cases hclash : clashes ts with
  | false => rfl
  | true =>
    unfold parse at h
    split at h
    · rename_i hlevel
      rcases jams_level _ ts 0 _ [] (Nat.lt_succ_self _) hclash hlevel with hnil | hnil <;>
        cases hnil
    · cases h

end Climb

namespace Expr

open Climb

/-! ## Texts that clash -/

/-- The tokens of the text clash, if it has any. -/
def JamText (trail : Trail) (text : List Char) : Prop :=
  ∀ kinds, kindsFrom trail text = some kinds → clashes kinds = true

/-- The tokens of the expression's text clash, whatever follows. -/
def Jammed (e : Expr) : Prop :=
  ∀ rest, JamText .other (e.render.toList ++ rest)

theorem JamText.of_map {trail trail' : Trail} {text text' : List Char} {before : List Kind}
    (h : JamText trail' text')
    (heq : kindsFrom trail text = (kindsFrom trail' text').map (before ++ ·)) :
    JamText trail text := by
  intro kinds hkinds
  rw [heq] at hkinds
  obtain ⟨more, hmore, rfl⟩ := Option.map_eq_some_iff.mp hkinds
  exact clashes_append (h more hmore) before

theorem JamText.of_cons {trail trail' : Trail} {text text' : List Char} {token : Kind}
    (h : JamText trail' text')
    (heq : kindsFrom trail text = (kindsFrom trail' text').map (token :: ·)) :
    JamText trail text := by
  have heq' : kindsFrom trail text = (kindsFrom trail' text').map ([token] ++ ·) := heq
  exact h.of_map heq'

theorem Jammed.parens {e : Expr} (h : e.Jammed) (trail : Trail) (rest : List Char) :
    JamText trail ((wrapped e.render true).toList ++ rest) := by
  have htext : (wrapped e.render true).toList ++ rest = Delimiter.parenOpen.char ::
      (e.render.toList ++ Delimiter.parenClose.char :: rest) := by
    simp [wrapped, Delimiter.char]
  rw [htext]
  exact (h _).of_cons (kindsFrom_delimiter trail .parenOpen _)

theorem Jammed.wrapped {e : Expr} (h : e.Jammed) (wrap : Bool) (rest : List Char) :
    JamText .other ((Expr.wrapped e.render wrap).toList ++ rest) := by
  cases wrap with
  | true => exact h.parens .other rest
  | false => exact h rest

/-- The expression's text is cut into its tokens, or they clash. -/
def Fate (e : Expr) : Prop :=
  e.All Spelled ∨ e.Jammed

/-- The letter of a roll operator starts a name or a roll where no roll stands before it. -/
theorem startsOperand_letter {c : Char} {rest : List Char} {kinds : List Kind}
    (hc : c ∈ ['a', 'd', 'k', 's']) (h : kindsFrom .other (c :: rest) = some kinds) :
    startsOperand kinds = true := by
  have hpiece : scanPiece .start .other c rest = scanName .start c rest := by
    simp only [List.mem_cons, List.not_mem_nil, or_false] at hc
    rcases hc with rfl | rfl | rfl | rfl <;> rfl
  have hname : ∀ more : List Char, isOperandStart (.identifier (String.ofList (c :: more))) := by
    intro more
    have hne : ∀ word : String, word.toList.head? ≠ some c → String.ofList (c :: more) ≠ word := by
      rintro word hword rfl
      simp at hword
    simp only [isOperandStart, Bool.and_eq_true, decide_eq_true_eq]
    refine ⟨hne "then" ?_, hne "else" ?_⟩ <;>
    · simp only [List.mem_cons, List.not_mem_nil, or_false] at hc
      rcases hc with rfl | rfl | rfl | rfl <;> decide
  cases hscan : scanName .start c rest with
  | error e =>
    rw [kindsFrom.eq_def] at h
    simp [hpiece, hscan] at h
  | ok piece =>
    rw [kindsFrom_cons (hpiece.trans hscan)] at h
    obtain ⟨more, hmore, rfl⟩ := Option.map_eq_some_iff.mp h
    unfold scanName at hscan
    split at hscan
    · obtain ⟨⟨die, faces⟩, -, hscan⟩ := bind_eq_ok hscan
      cases hscan
      rfl
    · cases hscan
      exact hname _

theorem moreTokens_closed (closer : Delimiter) (es : List Expr) :
    ∃ before, moreTokens closer es = before ++ [.delimiter closer] := by
  induction es with
  | nil => exact ⟨[], rfl⟩
  | cons e es ih =>
    obtain ⟨before, hbefore⟩ := ih
    exact ⟨.delimiter .comma :: e.tokens ++ before, by simp [moreTokens, hbefore]⟩

theorem itemTokens_closed (closer : Delimiter) (es : List Expr) :
    ∃ before, itemTokens closer es = before ++ [.delimiter closer] := by
  cases es with
  | nil => exact ⟨[], rfl⟩
  | cons e es =>
    obtain ⟨before, hbefore⟩ := moreTokens_closed closer es
    exact ⟨e.tokens ++ before, by simp [itemTokens, hbefore]⟩

/-- The tokens end in a closing delimiter. -/
def Closed (ts : List Kind) : Prop :=
  ∃ before token, ts = before ++ [token] ∧ isCloser token = true

theorem Closed.append {ts : List Kind} (h : Closed ts) (before : List Kind) :
    Closed (before ++ ts) := by
  obtain ⟨more, token, rfl, hcloser⟩ := h
  exact ⟨before ++ more, token, (List.append_assoc ..).symm, hcloser⟩

theorem Closed.cons {ts : List Kind} (h : Closed ts) (token : Kind) : Closed (token :: ts) :=
  h.append [token]

theorem closed_wrappedTokens {e : Expr} {wrap : Bool} (h : wrap = false → Closed e.tokens) :
    Closed (wrappedTokens e.tokens wrap) := by
  cases wrap with
  | false => exact h rfl
  | true => exact ⟨.delimiter .parenOpen :: e.tokens, .delimiter .parenClose, rfl, rfl⟩

/-- The tokens of a text that ends in a closing delimiter end in one. -/
theorem closed_tokens : ∀ {e : Expr}, e.tail = .closed → Closed e.tokens
  | literal l, h => by cases l <;> cases h
  | name _, h => nomatch h
  | list items, _ => by
    obtain ⟨before, hbefore⟩ := itemTokens_closed .bracketClose items
    exact ⟨.delimiter .bracketOpen :: before, _, by rw [tokens, hbefore]; rfl, rfl⟩
  | call callee args, _ => by
    obtain ⟨before, hbefore⟩ := itemTokens_closed .parenClose args
    exact ⟨.identifier callee :: .delimiter .parenOpen :: before, _,
      by rw [tokens, hbefore]; rfl, rfl⟩
  | binary op lhs rhs, h => by
    refine ((closed_wrappedTokens fun hwraps => closed_tokens (e := rhs) ?_).cons _).append _
    rw [tail_binary ?_ lhs, hwraps] at h
    · exact h
    · rintro rfl n rfl
      cases h
  | unary op operand, h => by
    simp only [tail] at h
    split at h
    · cases h
    · rename_i hop
      simp only [tokens, hop]
      refine (closed_wrappedTokens fun hwraps => closed_tokens (e := operand) ?_).cons _
      simpa [hwraps] using h
  | ifThen condition consequent, h => by
    have hbranch : Closed consequent.tokens := closed_tokens (e := consequent) h
    simp only [tokens]
    exact (hbranch.cons _).append _
  | ifElse condition consequent alternative, h => by
    have hbranch : Closed alternative.tokens := closed_tokens (e := alternative) h
    simp only [tokens]
    exact (hbranch.cons _).append _

/-- A roll operator behind a closing delimiter is a clash. -/
theorem jamText_closed {e : Expr} (h : e.All Spelled) (hclosed : e.tail = .closed) {c : Char}
    (hc : c ∈ ['a', 'd', 'k', 's']) (rest : List Char) :
    JamText .other (e.render.toList ++ c :: rest) := by
  intro kinds hkinds
  have hmeets : e.tail.Meets (c :: rest) := by
    rw [hclosed]
    trivial
  rw [scans h _ hmeets, hclosed] at hkinds
  obtain ⟨more, hmore, rfl⟩ := Option.map_eq_some_iff.mp hkinds
  obtain ⟨before, token, htokens, hcloser⟩ := closed_tokens hclosed
  have hstart := startsOperand_letter hc hmore
  rw [htokens, List.append_assoc]
  exact clashes_append (by simp [clashes, hcloser, hstart]) before

/-! ## Every printed text is cut into its tokens or clashes -/

theorem spelled_literal {l : Literal} (h : (literal l).Parsed) : (literal l).Spelled := by
  cases l with
  | bool _ | string _ => trivial
  | decimal x =>
    obtain ⟨hfinite, whole, places, rfl⟩ := h
    exact Decimal.written_nearest hfinite
  | natural n => exact h
  | roll quantity die => exact h

theorem fate_binary {op : BinaryOp} (hop : op ≠ .keep) {lhs rhs : Expr} (hl : lhs.Fate)
    (hr : rhs.Fate) : (binary op lhs rhs).Fate := by
  have htext : ∀ rest, (binary op lhs rhs).render.toList ++ rest =
      (wrapped lhs.render (wrapsLeft op lhs)).toList ++ ((separator op).toList ++
        ((wrapped rhs.render (wrapsRight op rhs)).toList ++ rest)) := by
    simp [render]
  rcases hl with hl | hl
  · rcases hr with hr | hr
    · refine .inl ⟨?_, hl, hr⟩
      cases op <;> trivial
    · refine .inr fun rest => ?_
      rw [htext]
      exact ((hr.wrapped _ rest).of_cons (kindsFrom_between hop .other _)).of_map
        ((scans hl).wrapped_edge (edge_between hop _))
  · refine .inr fun rest => ?_
    rw [htext]
    exact hl.wrapped _ _

theorem fate_keep {lhs rhs : Expr} (hwraps : wrapsLeft .keep lhs = false)
    (hword : lhs.tail ≠ .word) (hrhs : rhs.All Parsed) (hl : lhs.Fate) (hr : rhs.Fate) :
    (binary .keep lhs rhs).Fate := by
  have htext := toList_keep hwraps rhs
  rcases hl with hl | hl
  · cases htail : lhs.tail with
    | word => exact absurd htail hword
    | closed =>
      refine .inr fun rest => ?_
      rw [htext]
      exact jamText_closed hl htail (by decide) _
    | roll | count =>
      have hsuffix : lhs.tail.takesSuffix = true := by rw [htail]; rfl
      rcases hr with hr | hr
      · exact .inl ⟨⟨hwraps, hsuffix⟩, hl, hr⟩
      · cases hright : wrapsRight .keep rhs with
        | true =>
          refine .inr fun rest => ?_
          rw [htext]
          refine JamText.of_map ?_ (kindsFrom_kept (scans hl) hsuffix rhs rest)
          rw [hright]
          exact hr.parens .keep rest
        | false =>
          have hdigit : rhs.startsWithDigit = true := by
            simpa [wrapsRight] using hright
          obtain ⟨l, rfl, -⟩ := exists_literal_of_startsWithDigit hdigit
          exact .inl ⟨⟨hwraps, hsuffix⟩, hl, spelled_literal hrhs⟩
  · refine .inr fun rest => ?_
    rw [htext]
    exact hl _

theorem fate_prefixOp {op : UnaryOp} (hop : op.isPostfix = false) {operand : Expr}
    (h : operand.Fate) : (unary op operand).Fate := by
  rcases h with h | h
  · exact .inl ⟨fun hpost => by simp [hop] at hpost, h⟩
  · refine .inr fun rest => ?_
    simp only [render, hop, Bool.false_eq_true, if_false, String.toList_append, List.append_assoc]
    exact (h.wrapped _ rest).of_cons (kindsFrom_sign_of_prefixOp hop .other _)

theorem fate_postfixOp {op : UnaryOp} (hop : op.isPostfix = true) {operand : Expr}
    (hwraps : wrapsOperand op operand = false) (hword : operand.tail ≠ .word)
    (hcount : op = .disadvantage → operand.tail ≠ .count) (h : operand.Fate) :
    (unary op operand).Fate := by
  obtain ⟨c, hchars, hc⟩ : ∃ c, op.symbol.toList = [c] ∧ c ∈ ['a', 'd', 'k', 's'] := by
    cases op <;> first | exact ⟨_, rfl, by decide⟩ | cases hop
  have htext : ∀ rest, (unary op operand).render.toList ++ rest =
      operand.render.toList ++ c :: rest := by
    simp [render, hop, hwraps, wrapped, hchars]
  rcases h with h | h
  · cases htail : operand.tail with
    | word => exact absurd htail hword
    | closed =>
      refine .inr fun rest => ?_
      rw [htext]
      exact jamText_closed h htail hc rest
    | roll | count =>
      exact .inl ⟨fun _ => ⟨hwraps, by rw [htail]; rfl, hcount⟩, h⟩
  · refine .inr fun rest => ?_
    rw [htext]
    exact h _

theorem jamText_condition {condition : Expr} (h : condition.Jammed) (rest : List Char) :
    JamText .other (("if " ++ wrapped condition.render (condition.strength = .conditional) ++
      " then ").toList ++ rest) := by
  have hedge : Edge (' ' :: ((wrapped condition.render (condition.strength = .conditional)).toList ++
      (" then ".toList ++ rest))) := edge_cons (by decide) (by decide) _
  have htext : ("if " ++ wrapped condition.render (condition.strength = .conditional) ++
        " then ").toList ++ rest = "if".toList ++ ' ' ::
      ((wrapped condition.render (condition.strength = .conditional)).toList ++
        (" then ".toList ++ rest)) := by
    simp
  rw [htext]
  refine JamText.of_cons ?_ (kindsFrom_name (by decide) (by decide) hedge)
  intro kinds hkinds
  rw [kindsFrom_separator (by decide)] at hkinds
  exact h.wrapped _ _ kinds hkinds

theorem fate_ifThen {condition consequent : Expr} (hc : condition.Fate) (hx : consequent.Fate) :
    (ifThen condition consequent).Fate := by
  have htext : ∀ rest, (ifThen condition consequent).render.toList ++ rest =
      ("if " ++ wrapped condition.render (condition.strength = .conditional) ++ " then ").toList ++
        (consequent.render.toList ++ rest) := by
    simp [render]
  rcases hc with hc | hc
  · rcases hx with hx | hx
    · exact .inl ⟨trivial, hc, hx⟩
    · refine .inr fun rest => ?_
      rw [htext]
      exact (hx rest).of_map (kindsFrom_condition (scans hc) _)
  · refine .inr fun rest => ?_
    rw [htext]
    exact jamText_condition hc _

theorem fate_ifElse {condition consequent alternative : Expr} (hc : condition.Fate)
    (hx : consequent.Fate) (he : alternative.Fate) :
    (ifElse condition consequent alternative).Fate := by
  have htext : ∀ rest, (ifElse condition consequent alternative).render.toList ++ rest =
      ("if " ++ wrapped condition.render (condition.strength = .conditional) ++ " then ").toList ++
        ((wrapped consequent.render consequent.isOpenConditional).toList ++
          ' ' :: ("else".toList ++ ' ' :: (alternative.render.toList ++ rest))) := by
    simp [render]
  rcases hc with hc | hc
  · rcases hx with hx | hx
    · rcases he with he | he
      · exact .inl ⟨trivial, hc, hx, he⟩
      · refine .inr fun rest => ?_
        rw [htext]
        exact (((he rest).of_cons (kindsFrom_word (by decide) .other _)).of_map
          ((scans hx).wrapped_edge (edge_cons (by decide) (by decide) _))).of_map
          (kindsFrom_condition (scans hc) _)
    · refine .inr fun rest => ?_
      rw [htext]
      exact (hx.wrapped _ _).of_map (kindsFrom_condition (scans hc) _)
  · refine .inr fun rest => ?_
    rw [htext]
    exact jamText_condition hc _

/-- Items are spelled, or one of them clashes behind items that are spelled. -/
theorem jamText_moreText (closer : Delimiter) {es : List Expr} (h : ∀ e ∈ es, e.Fate) :
    AllItems Spelled es ∨ ∀ trail rest, JamText trail (moreText closer (renderAll es) ++ rest) := by
  induction es with
  | nil => exact .inl trivial
  | cons e es ih =>
    have htext : ∀ rest, moreText closer (renderAll (e :: es)) ++ rest = Delimiter.comma.char ::
        (' ' :: (e.render.toList ++ (moreText closer (renderAll es) ++ rest))) := by
      simp [renderAll, moreText, Delimiter.char]
    have hcomma : ∀ trail rest, JamText .other
        (e.render.toList ++ (moreText closer (renderAll es) ++ rest)) →
        JamText trail (moreText closer (renderAll (e :: es)) ++ rest) := by
      intro trail rest hjam
      rw [htext]
      refine JamText.of_cons ?_ (kindsFrom_delimiter trail .comma _)
      intro kinds hkinds
      rw [kindsFrom_separator (by decide)] at hkinds
      exact hjam kinds hkinds
    rcases h e List.mem_cons_self with he | he
    · rcases ih fun e he => h e (List.mem_cons_of_mem _ he) with hes | hes
      · exact .inl ⟨he, hes⟩
      · refine .inr fun trail rest => hcomma trail rest ?_
        exact (hes _ rest).of_map (scans he _ (Tail.meets_edge _ (edge_moreText closer _ rest)))
    · exact .inr fun trail rest => hcomma trail rest (he _)

theorem jamText_items (closer : Delimiter) {es : List Expr} (h : ∀ e ∈ es, e.Fate) :
    AllItems Spelled es ∨
      ∀ rest, JamText .other ((", ".intercalate (renderAll es)).toList ++ closer.char :: rest) := by
  cases es with
  | nil => exact .inl trivial
  | cons e es =>
    rcases h e List.mem_cons_self with he | he
    · rcases jamText_moreText closer fun e he => h e (List.mem_cons_of_mem _ he) with hes | hes
      · exact .inl ⟨he, hes⟩
      · refine .inr fun rest => ?_
        rw [renderAll, toList_items]
        exact (hes _ rest).of_map (scans he _ (Tail.meets_edge _ (edge_moreText closer _ rest)))
    · refine .inr fun rest => ?_
      rw [renderAll, toList_items]
      exact he _

theorem fate_list {items : List Expr} (h : ∀ e ∈ items, e.Fate) : (list items).Fate := by
  rcases jamText_items .bracketClose h with hitems | hitems
  · exact .inl ⟨trivial, hitems⟩
  · refine .inr fun rest => ?_
    have htext : (list items).render.toList ++ rest = Delimiter.bracketOpen.char ::
        ((", ".intercalate (renderAll items)).toList ++ Delimiter.bracketClose.char :: rest) := by
      simp [render, Delimiter.char]
    rw [htext]
    exact (hitems rest).of_cons (kindsFrom_delimiter .other .bracketOpen _)

theorem fate_call {callee : String} (hcallee : isName callee = true) {args : List Expr}
    (h : ∀ e ∈ args, e.Fate) : (call callee args).Fate := by
  rcases jamText_items .parenClose h with hargs | hargs
  · exact .inl ⟨hcallee, hargs⟩
  · refine .inr fun rest => ?_
    have htext : (call callee args).render.toList ++ rest = callee.toList ++
        Delimiter.parenOpen.char ::
          ((", ".intercalate (renderAll args)).toList ++ Delimiter.parenClose.char :: rest) := by
      simp [render, Delimiter.char]
    rw [htext]
    exact ((hargs rest).of_cons (kindsFrom_delimiter .other .parenOpen _)).of_cons
      (kindsFrom_name hcallee (by decide) (edge_cons (by decide) (by decide) _))

mutual

/-- The text of an expression from a text is cut into its tokens again, or they clash. -/
theorem fate : ∀ {e : Expr}, e.All Parsed → e.Fate
  | literal _, h => .inl (spelled_literal h)
  | name _, h => .inl h.1
  | list _, h => fate_list (fate_items h.2)
  | call _ _, h => fate_call h.1.1 (fate_items h.2)
  | binary op lhs rhs, h => by
    by_cases hop : op = .keep
    · subst hop
      obtain ⟨hwraps, -, hword⟩ := h.1
      exact fate_keep hwraps hword h.2.2 (fate h.2.1) (fate h.2.2)
    · exact fate_binary hop (fate h.2.1) (fate h.2.2)
  | unary op operand, h => by
    cases hop : op.isPostfix with
    | false => exact fate_prefixOp hop (fate h.2)
    | true =>
      obtain ⟨hwraps, hword, hcount⟩ := h.1 hop
      exact fate_postfixOp hop hwraps hword hcount (fate h.2)
  | ifThen _ _, h => fate_ifThen (fate h.2.1) (fate h.2.2)
  | ifElse _ _ _, h => fate_ifElse (fate h.2.1) (fate h.2.2.1) (fate h.2.2.2)

theorem fate_items : ∀ {es : List Expr}, AllItems Parsed es → ∀ e ∈ es, e.Fate
  | [], _, _, he => nomatch he
  | _ :: _, h, _, .head _ => fate h.1
  | _ :: _, h, _, .tail _ he => fate_items h.2 _ he

end

end Expr

end DiceTome
