import DiceTome.Arena.Parse
import DiceTome.EvalError

/-!
# Errors of a source text

Source text fails in one of three stages: it cannot be cut into tokens, the tokens are no
expression, or the expression cannot be evaluated.
-/

namespace DiceTome

/-- What makes a source text fail, with the text to quote from. -/
inductive Error where
  | scan (source : String) (cause : ScanError)
  | parse (source : String) (cause : ParseError)
  | eval (cause : EvalError)
  deriving Repr

namespace Error

/-- The numbered message about the error, for errors of the language. -/
def diagnostic? : Error → Option Diagnostic
  | scan source cause => cause.diagnostic? source
  | parse source cause => cause.diagnostic? (some source)
  | eval cause => cause.diagnostic?

/-- The text of the error: the whole diagnostic if there is one. -/
def text (e : Error) : String :=
  match e.diagnostic?, e with
  | some d, _ => d.format
  | none, scan source cause => cause.text source
  | none, parse _ cause => cause.message
  | none, eval cause => cause.message

/-- Whether the error is one of the language. -/
def isDiagnosed (e : Error) : Bool :=
  e.diagnostic?.isSome

/-- Whether the error is a number that is too large for what is asked of it. -/
def isOverflow : Error → Bool
  | eval .infinityToInteger | eval .integerTooLarge => true
  | _ => false

end Error

end DiceTome
