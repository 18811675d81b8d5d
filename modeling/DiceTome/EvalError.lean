import DiceTome.Decimal.Total
import DiceTome.Diagnostic
import DiceTome.Index
import DiceTome.Operator

/-!
# Errors of evaluation

Every way in which evaluating an expression can fail is a constructor that holds its cause. The
wording is in `EvalError.message`, the numbers of the diagnostics in `EvalError.code?`. The last
group has no number: these failures belong to no rule of the language.
-/

namespace DiceTome

/-- The kinds of values. -/
inductive ValueKind where
  | bool | decimal | natural | roll | outcome | rolls | list | string | empty
  deriving Repr, DecidableEq

/-- The name of a kind in messages. -/
def ValueKind.label : ValueKind → String
  | bool => "bool"
  | decimal => "decimal"
  | natural => "natural"
  | roll => "roll"
  | outcome => "outcome"
  | rolls => "rolls"
  | list => "list"
  | string => "string"
  | empty => "empty"

/-- What cannot be converted: a value of some kind, or one of two special cases of such a value. -/
inductive Unconvertible where
  | kind (k : ValueKind)
  | nonFiniteDecimal
  | emptyList
  deriving Repr, DecidableEq

/-- What is named in the message about a failed conversion. -/
def Unconvertible.label : Unconvertible → String
  | kind k => k.label
  | nonFiniteDecimal => "non-finite decimal"
  | emptyList => "empty list"

/-- What makes an evaluation fail. -/
inductive EvalError where
  | invalidTarget (target : String)
  | invalidParameter (function parameter : String)
  | undefinedVariable (name : String)
  | undefinedFunction (name : String)
  | argumentCount (name : String) (expected got : Nat)
  | notConvertible (source : Unconvertible) (target : ValueKind)
  | expectedRoll (found : ValueKind)
  | tooManyDice (quantity limit : Int)
  | invalidDie (die : Int)
  | indexOutOfRange (index : Int) (length : Nat)
  | divisionByZero
  | noFiniteResult (left : Total) (op : BinaryOp) (right : Total)
  | callDepth (name : String)
  | notANumberToInteger
  | infinityToInteger
  | integerTooLarge
  | noSuchScope
  | rootScopePopped
  | notInnermost (scope : Index)
  deriving Repr, BEq

namespace EvalError

/-- The text of the error. -/
def message : EvalError → String
  | invalidTarget target => s!"cannot assign to '{target}'"
  | invalidParameter function parameter =>
    s!"parameter '{parameter}' of '{function}' must be a name"
  | undefinedVariable name => s!"undefined variable: {name}"
  | undefinedFunction name => s!"undefined function: {name}"
  | argumentCount name expected got =>
    let plural := if expected = 1 then "" else "s"
    s!"{name}() takes {expected} argument{plural}, got {got}"
  | notConvertible source target => s!"cannot convert {source.label} to {target.label}"
  | expectedRoll found => s!"expected a roll, found {found.label}"
  | tooManyDice quantity limit => s!"cannot roll {quantity} dice (limit is {limit})"
  | invalidDie die => s!"a die needs at least one face, got d{die}"
  | indexOutOfRange index length => s!"index {index} out of range for list of length {length}"
  | divisionByZero => "division by zero"
  | noFiniteResult left op right =>
    s!"{left.text} {op.symbol} {right.text} has no finite real result"
  | callDepth name => s!"maximum recursion depth exceeded while calling {name}()"
  | notANumberToInteger => "cannot convert float NaN to integer"
  | infinityToInteger => "cannot convert float infinity to integer"
  | integerTooLarge => "int too large to convert to float"
  | noSuchScope => "list index out of range"
  | rootScopePopped => "the root scope cannot be popped"
  | notInnermost scope => s!"scope {scope} is not the innermost scope"

/-- The number of the diagnostic, if the error has one. -/
def code? : EvalError → Option String
  | invalidTarget _ => some "E106"
  | invalidParameter _ _ => some "E107"
  | undefinedVariable _ => some "E201"
  | undefinedFunction _ => some "E202"
  | argumentCount _ _ _ => some "E203"
  | notConvertible _ _ => some "E301"
  | expectedRoll _ => some "E302"
  | tooManyDice _ _ => some "E401"
  | invalidDie _ => some "E402"
  | indexOutOfRange _ _ => some "E403"
  | divisionByZero => some "E404"
  | noFiniteResult _ _ _ => some "E405"
  | callDepth _ => some "E406"
  | _ => none

/-- What may help with the error. -/
def hints : EvalError → List String
  | invalidTarget _ => ["assign to a name (x = 1) or define a function (f(x) = x + 1)"]
  | expectedRoll _ => ["advantage and disadvantage apply to a roll before it is rolled"]
  | _ => []

/-- The numbered message about the error; evaluation knows no places in the source. -/
def diagnostic? (e : EvalError) : Option Diagnostic :=
  e.code?.map fun code => { code, message := e.message, hints := e.hints }

end EvalError

end DiceTome
