import DiceTome.Proofs.OpenScopes
import DiceTome.Proofs.StackBalance

/-!
# Failures with a diagnosis

Every failure of a text should be one of the language, with a number and a message. Of the three
stages only parsing keeps to that. The scanner takes digits into numbers that have no decimal value,
such as superscripts, and then cannot read the number. Evaluation rounds numbers that are not finite
and makes floating-point numbers of integers that are too large for them.

* `Token.explained_scan`: a text that cannot be cut into tokens has a diagnosis, unless a digit in it
  has no decimal value.
* `Context.Reachable.evalSource_failure`: a failure of a text in a reachable context has a diagnosis,
  unless it is one of those. In particular no failure is about scopes or about the parser's stacks.
-/

namespace DiceTome

open Step World

/-! ## Texts that cannot be cut -/

/-- A digit that is taken into a number but has no decimal value. -/
def Text.isOddDigit (c : Char) : Bool :=
  isDigit c && (digitValue? c).isNone

theorem Text.exists_of_digitsValue? {cs : List Char} (h : digitsValue? cs = none) :
    ∃ c ∈ cs, digitValue? c = none := by
  unfold digitsValue? at h
  generalize 0 = n at h
  induction cs generalizing n with
  | nil => cases h
  | cons c cs ih =>
    cases hc : digitValue? c with
    | none => exact ⟨c, List.mem_cons_self, hc⟩
    | some v =>
      rw [List.foldlM_cons, hc] at h
      obtain ⟨d, hd, hnone⟩ := ih _ h
      exact ⟨d, List.mem_cons_of_mem _ hd, hnone⟩

/-- Whether the error has a number. -/
def ScanError.isNumbered : ScanError → Bool
  | unreadableNatural _ | unreadableDecimal _ => false
  | _ => true

theorem ScanError.isSome_diagnostic? (source : String) (err : ScanError) :
    (err.diagnostic? source).isSome = err.isNumbered := by
  cases err <;> rfl

namespace Token

/-- A failure has a number, unless a digit in the text has no decimal value. -/
def Explained (cs : List Char) (x : Except ScanError α) : Prop :=
  ∀ err, x = .error err → err.isNumbered = true ∨ ∃ c ∈ cs, Text.isOddDigit c = true

variable {cs cs' : List Char}

theorem explained_ok (a : α) : Explained cs (.ok a) :=
  nofun

theorem explained_error {err : ScanError} (h : err.isNumbered = true) :
    Explained cs (.error err : Except ScanError α) := by
  rintro _ ⟨⟩
  exact .inl h

theorem Explained.mono {x : Except ScanError α} (h : Explained cs x) (hcs : cs ⊆ cs') :
    Explained cs' x := by
  intro err herr
  refine (h err herr).imp_right ?_
  rintro ⟨c, hc, hodd⟩
  exact ⟨c, hcs hc, hodd⟩

theorem Explained.bind {x : Except ScanError α} {f : α → Except ScanError β} (hx : Explained cs x)
    (hf : ∀ a, x = .ok a → Explained cs (f a)) : Explained cs (x >>= f) := by
  cases x with
  | error err =>
    rintro _ ⟨⟩
    exact hx err rfl
  | ok a => exact hf a rfl

/-- Digits that cannot be read. -/
theorem explained_of_digitsValue? {digits : List Char} {err : ScanError}
    (hdigits : ∀ c ∈ digits, Text.isDigit c = true) (h : Text.digitsValue? digits = none) :
    Explained digits (.error err : Except ScanError α) := by
  obtain ⟨c, hc, hnone⟩ := Text.exists_of_digitsValue? h
  exact fun _ _ => .inr ⟨c, hc, by simp [Text.isOddDigit, hdigits c hc, hnone]⟩

theorem explained_readNatural (cur : Cursor) (literal : List Char) {digits : List Char}
    (hdigits : ∀ c ∈ digits, Text.isDigit c = true) :
    Explained digits (readNatural cur literal digits) := by
  have hsub : digits.dropWhile (· == '0') ⊆ digits := (List.dropWhile_sublist _).subset
  unfold readNatural
  dsimp only
  split
  · exact explained_error rfl
  · split
    · rename_i hnone
      exact (explained_of_digitsValue? (fun c hc => hdigits c (hsub hc)) hnone).mono hsub
    · split
      · exact explained_error rfl
      · exact explained_ok _

theorem isDigit_of_mem_takeWhile {c : Char} (h : c ∈ cs.takeWhile Text.isDigit) :
    Text.isDigit c = true :=
  List.all_eq_true.mp List.all_takeWhile c h

theorem explained_readFaces (cur : Cursor) (literal : List Char) (behind : List Char) :
    Explained behind (readFaces cur literal behind) := by
  have hsub : behind.takeWhile Text.isDigit ⊆ behind := (List.takeWhile_sublist _).subset
  unfold readFaces
  dsimp only
  split
  · exact explained_error rfl
  · have hread := (explained_readNatural cur literal fun _ => isDigit_of_mem_takeWhile).mono hsub
    cases hn : readNatural cur literal (behind.takeWhile Text.isDigit) with
    | error err =>
      rw [hn] at hread
      exact fun _ herr => by
        cases herr
        exact hread err rfl
    | ok n => exact explained_ok _

theorem explained_readDecimal (cur : Cursor) (literal : List Char) {whole fraction : List Char}
    (hdigits : ∀ c ∈ whole ++ fraction, Text.isDigit c = true) :
    Explained (whole ++ fraction) (readDecimal cur literal whole fraction) := by
  unfold readDecimal
  split
  · rename_i hnone
    exact explained_of_digitsValue? hdigits hnone
  · dsimp only
    split
    · exact explained_ok _
    · exact explained_error rfl

theorem explained_scanNumber (cur : Cursor) (trail : Trail) (cs : List Char) :
    Explained cs (scanNumber cur trail cs) := by
  have hwhole : cs.takeWhile Text.isDigit ⊆ cs := (List.takeWhile_sublist _).subset
  have hread := (explained_readNatural cur cs fun _ => isDigit_of_mem_takeWhile).mono hwhole
  have hrest : cs.dropWhile Text.isDigit ⊆ cs := (List.dropWhile_sublist _).subset
  unfold scanNumber
  dsimp only
  split
  · rename_i behind hbehind
    rw [hbehind] at hrest
    have hsub : behind ⊆ cs := fun c hc => hrest (List.mem_cons_of_mem _ hc)
    refine hread.bind fun quantity _ => ?_
    exact ((explained_readFaces cur cs behind).mono hsub).bind fun _ _ => explained_ok _
  · rename_i behind hbehind
    rw [hbehind] at hrest
    have hfraction : behind.takeWhile Text.isDigit ⊆ cs := fun c hc =>
      hrest (List.mem_cons_of_mem _ ((List.takeWhile_sublist _).subset hc))
    split
    · exact explained_error rfl
    · refine Explained.bind ?_ fun _ _ => explained_ok _
      refine (explained_readDecimal cur cs fun c hc => ?_).mono
        (List.append_subset.mpr ⟨hwhole, hfraction⟩)
      rcases List.mem_append.mp hc with hc | hc <;> exact isDigit_of_mem_takeWhile hc
  · exact hread.bind fun _ _ => explained_ok _

theorem explained_scanName (cur : Cursor) (c : Char) (cs : List Char) :
    Explained (c :: cs) (scanName cur c cs) := by
  unfold scanName
  split
  · refine Explained.bind ?_ fun _ _ => explained_ok _
    exact (explained_readFaces cur (c :: cs) cs).mono (List.subset_cons_self c cs)
  · exact explained_ok _

theorem explained_scanString (cur : Cursor) (cs : List Char) :
    Explained cs (scanString cur cs) := by
  unfold scanString
  split
  · exact explained_ok _
  · exact explained_error rfl
  · exact explained_error rfl

theorem explained_scanPiece (cur : Cursor) (trail : Trail) (c : Char) (cs : List Char) :
    Explained (c :: cs) (scanPiece cur trail c cs) := by
  unfold scanPiece
  split
  · exact explained_ok _
  · split
    · exact explained_ok _
    · split
      · exact explained_ok _
      · split
        · exact explained_scanNumber cur trail (c :: cs)
        · split
          · exact explained_scanName cur c cs
          · split
            · exact (explained_scanString cur cs).mono (List.subset_cons_self c cs)
            · split
              · exact explained_ok _
              · exact explained_ok _
              · exact explained_error rfl

theorem explained_scanFrom (cur : Cursor) (trail : Trail) (cs : List Char) :
    Explained cs (scanFrom cur trail cs) := by
  induction hn : cs.length using Nat.strongRecOn generalizing cur trail cs with
  | ind n ih =>
    subst hn
    cases cs with
    | nil =>
      rw [scanFrom]
      exact explained_ok _
    | cons c cs =>
      rw [scanFrom]
      refine (explained_scanPiece cur trail c cs).bind fun piece _ => ?_
      have hshorter : (cs.drop piece.extra).length < (c :: cs).length := by
        rw [List.length_drop, List.length_cons]
        omega
      have hsub : cs.drop piece.extra ⊆ c :: cs := fun d hd =>
        List.mem_cons_of_mem _ (List.mem_of_mem_drop hd)
      refine ((ih _ hshorter _ _ _ rfl).mono hsub).bind fun tokens _ => ?_
      split <;> exact explained_ok _

/-- A text that cannot be cut into tokens has a diagnosis, unless a digit in it has no decimal
value. -/
theorem explained_scan (source : String) : Explained source.toList (scan source) :=
  explained_scanFrom _ _ _

end Token

/-! ## Texts that fail -/

/-- The failures that have no diagnosis: a number cannot be read because a digit of the text has no
decimal value, a number that is not finite is rounded, or an integer is too large to be a
floating-point number. -/
inductive Error.Undiagnosed (source : String) : Error → Prop
  | oddDigit {cause : ScanError} {c : Char} (hcause : cause.isNumbered = false)
      (hc : c ∈ source.toList) (hodd : Text.isOddDigit c = true) :
      Undiagnosed source (.scan source cause)
  | infinity : Undiagnosed source (.eval .infinityToInteger)
  | notANumber : Undiagnosed source (.eval .notANumberToInteger)
  | largeInteger : Undiagnosed source (.eval .integerTooLarge)

theorem Error.Undiagnosed.isDiagnosed_eq {source : String} {err : Error}
    (h : err.Undiagnosed source) : err.isDiagnosed = false := by
  cases h with
  | oddDigit hcause => exact (ScanError.isSome_diagnostic? source _).trans hcause
  | _ => rfl

theorem Error.undiagnosed_of_proper {x : Except EvalError α} (h : Proper x) (source : String)
    {err : EvalError} (herr : x = .error err) (hnone : (Error.eval err).isDiagnosed = false) :
    Undiagnosed source (.eval err) := by
  have hscope := h err herr
  cases err with
  | noSuchScope | rootScopePopped | notInnermost => cases hscope
  | infinityToInteger => exact .infinity
  | notANumberToInteger => exact .notANumber
  | integerTooLarge => exact .largeInteger
  | _ => cases hnone

theorem Error.undiagnosed_of_scan {source : String} {cause : ScanError}
    (hscan : Token.scan source = .error cause)
    (hnone : (Error.scan source cause).isDiagnosed = false) :
    Undiagnosed source (.scan source cause) := by
  have hcause : cause.isNumbered = false :=
    (ScanError.isSome_diagnostic? source cause).symm.trans hnone
  rcases Token.explained_scan source cause hscan with hnumbered | ⟨c, hc, hodd⟩
  · rw [hcause] at hnumbered
    cases hnumbered
  · exact .oddDigit hcause hc hodd

/-- What the parser refuses with a number has a diagnosis. -/
theorem Error.not_diagnosed_of_numbered {source : String} {x : Except ParseError α}
    {cause : ParseError} (hnumbered : Parse.Numbered x fun _ => True) (hx : x = .error cause) :
    (Error.parse source cause).isDiagnosed ≠ false := by
  subst hx
  have hcode : cause.code?.isSome = true := hnumbered
  rw [Error.isDiagnosed, Error.diagnostic?, ParseError.diagnostic?, Option.isSome_map, hcode]
  exact Bool.noConfusion

/-- How the evaluation of a text fails: it cannot be cut, what it is cut into is no expression, the
expression fails, or the roll at its top does. -/
theorem World.evalSource_error {σ : Type} [DiceSource σ] {source : String} {scope : Index}
    {w : World σ} {err : Error} (h : ((evalSource source scope).run w).1 = .error err) :
    (∃ cause, err = .scan source cause ∧ Token.scan source = .error cause) ∨
    (∃ cause tokens, err = .parse source cause ∧ Arena.parse tokens = .error cause) ∨
    (∃ cause tree, err = .eval cause ∧ (evalArena tree scope w).1 = .error cause) ∨
    ∃ cause, ∃ (o : Outcome) (dice : σ), err = .eval cause ∧
      ((o.resolved : Step σ Outcome) dice).1 = .error cause := by
  generalize hrun : (evalSource source scope).run w = run at h
  have hruns := sourceRuns_evalSource source scope w
  rw [hrun] at hruns
  obtain ⟨result, w'⟩ := run
  subst h
  cases hruns with
  | uncut hscan => exact .inl ⟨_, rfl, hscan⟩
  | refused _ hparse => exact .inr (.inl ⟨_, _, rfl, hparse⟩)
  | failed _ _ heval => exact .inr (.inr (.inl ⟨_, _, rfl, congrArg Prod.fst heval⟩))
  | @thrown _ _ part between _ last _ _ _ _ _ hlast hresult =>
    cases last with
    | ok o => cases hresult
    | error cause =>
      cases hresult
      exact .inr (.inr (.inr ⟨cause, part, between.dice, rfl, congrArg Prod.fst hlast⟩))

/-- A text that fails in a reachable context has a diagnosis, unless one of its digits has no decimal
value, or it asks for a number that is not finite or too large. -/
theorem Context.Reachable.evalSource_failure {σ : Type} [DiceSource σ] {w : World σ}
    (h : w.context.Reachable) {s : Nat} (hs : s < w.context.scopes.size) (source : String)
    {err : Error} (herr : ((World.evalSource source (s : Index)).run w).1 = .error err) :
    err.isDiagnosed = false ↔ err.Undiagnosed source := by
  refine ⟨fun hnone => ?_, Error.Undiagnosed.isDiagnosed_eq⟩
  rcases World.evalSource_error herr with ⟨cause, rfl, hscan⟩ | ⟨cause, tokens, rfl, hparse⟩ |
    ⟨cause, tree, rfl, heval⟩ | ⟨cause, o, dice, rfl, hroll⟩
  · exact Error.undiagnosed_of_scan hscan hnone
  · exact absurd hnone (Error.not_diagnosed_of_numbered (Arena.numbered_parse tokens) hparse)
  · exact Error.undiagnosed_of_proper (steady_evalArena h.tidy hs tree).2 source heval hnone
  · exact Error.undiagnosed_of_proper (Outcome.spares_resolved o dice trivial).2 source hroll hnone

/-- A superscript is taken into a number but has no decimal value. -/
theorem World.evalSource_superscript {σ : Type} [DiceSource σ] (scope : Index) (w : World σ) :
    ((evalSource "²" scope).run w).1 = .error (.scan "²" (.unreadableNatural "²")) := by
  have hscan : Token.scan "²" = .error (.unreadableNatural "²") := by
    have hchars : "²".toList = ['²'] := by decide
    rw [Token.scan, hchars, Token.scanFrom]
    rfl
  rw [evalSource_eq, hscan]

theorem Context.evalSource_failure_superscript :
    let w : World ScriptedDice := { dice := {} }
    let err : Error := .scan "²" (.unreadableNatural "²")
    ((World.evalSource "²" ((0 : Nat) : Index)).run w).1 = .error err ∧ err.Undiagnosed "²" := by
  intro w err
  have herr := World.evalSource_superscript ((0 : Nat) : Index) w
  exact ⟨herr, (Context.Reachable.evalSource_failure .start (by decide) "²" herr).mp rfl⟩

/-- The text `²` fails without a diagnosis. -/
theorem Context.not_isDiagnosed_of_evalSource :
    ¬ ∀ (w : World ScriptedDice), w.context.Reachable → ∀ source err,
      ((World.evalSource source).run w).1 = .error err → err.isDiagnosed = true := by
  intro h
  let w : World ScriptedDice := { dice := {} }
  cases h w .start "²" _ (World.evalSource_superscript _ w)

end DiceTome
