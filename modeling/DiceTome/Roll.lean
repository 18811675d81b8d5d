import DiceTome.Step

/-!
# Rolls

A roll is a number of equal dice that have not been thrown yet. Throwing it draws the faces one by
one from a source of dice.

* `Roll.throw` throws a roll: it refuses a die without faces and too many dice before any draw.
-/

namespace DiceTome

/-- A source of dice: `draw die` gives the next face of a die with faces `1` to `die`. -/
class DiceSource (σ : Type) where
  draw : (die : Int) → σ → Int × σ

/-- Dice that have not been thrown, such as `4d6`. -/
structure Roll where
  quantity : Int
  die : Int
  advantage : Bool := false
  disadvantage : Bool := false
  deriving Repr, DecidableEq

/-- Dice that have been thrown: the faces in the order of the draws, and the result they make. -/
structure Rolled where
  roll : Roll
  faces : List Int
  result : Int
  deriving Repr, DecidableEq

namespace Roll

/-- The most dice that one roll may throw. -/
def maxDice : Int := 100000

/-- Advantage counts unless disadvantage cancels it. -/
def hasAdvantage (r : Roll) : Bool :=
  r.advantage && !r.disadvantage

/-- Disadvantage counts unless advantage cancels it. -/
def hasDisadvantage (r : Roll) : Bool :=
  r.disadvantage && !r.advantage

/-- The number of dice thrown: at least two with advantage or disadvantage. -/
def count (r : Roll) : Int :=
  if r.hasAdvantage || r.hasDisadvantage then max r.quantity 2 else r.quantity

/-- The sum of faces. -/
def sum (faces : List Int) : Int :=
  faces.foldl (fun total face => total + face) 0

/-- The highest of faces. -/
def highest : List Int → Int
  | [] => 0
  | face :: faces => faces.foldl (fun best face => if best < face then face else best) face

/-- The lowest of faces. -/
def lowest : List Int → Int
  | [] => 0
  | face :: faces => faces.foldl (fun best face => if face < best then face else best) face

/-- What the faces make: the highest with advantage, the lowest with disadvantage, else the sum. -/
def resultOf (r : Roll) (faces : List Int) : Int :=
  if r.hasAdvantage then highest faces
  else if r.hasDisadvantage then lowest faces
  else sum faces

/-- The next `n` faces of a die, in front of the faces drawn before, latest first. -/
def drawOnto [DiceSource σ] (die : Int) : Nat → List Int → σ → List Int × σ
  | 0, faces, dice => (faces, dice)
  | n + 1, faces, dice =>
    let (face, dice) := DiceSource.draw die dice
    drawOnto die n (face :: faces) dice

/-- The next `n` faces of a die in the order of the draws. -/
def drawFaces [DiceSource σ] (die : Int) (n : Nat) (dice : σ) : List Int × σ :=
  let (faces, dice) := drawOnto die n [] dice
  (faces.reverse, dice)

/-- Throws the dice. -/
def throw [DiceSource σ] (r : Roll) : Step σ Rolled := do
  if r.die < 1 then MonadExcept.throw (EvalError.invalidDie r.die)
  if maxDice < r.count then MonadExcept.throw (EvalError.tooManyDice r.count maxDice)
  let faces ← modifyGet (drawFaces r.die r.count.toNat)
  return ⟨r, faces, r.resultOf faces⟩

/-- The roll as source text. -/
def text (r : Roll) : String :=
  let quantity := if r.quantity = 1 then "" else toString r.quantity
  let flag := if r.hasAdvantage then "a" else if r.hasDisadvantage then "d" else ""
  s!"{quantity}d{r.die}{flag}"

end Roll

/-- A thrown roll as one line of a log: the roll, the faces and the result, set apart by tabs. -/
def Rolled.text (r : Rolled) : String :=
  let faces := ", ".intercalate (r.faces.map toString)
  s!"{r.roll.text}\tRolls: \t{faces}\tTotal: {r.result}"

end DiceTome
