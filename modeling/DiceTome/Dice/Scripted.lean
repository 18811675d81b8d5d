import DiceTome.Roll

/-!
# Scripted dice

A source of dice for rehearsals: faces given in advance come first, each brought into the range of
the die, and then those of a linear congruential generator. The source counts its draws.
-/

namespace DiceTome

/-- Faces given in advance, the state of the generator, and the number of draws so far. -/
structure ScriptedDice where
  faces : List Int := []
  state : Nat := 1
  draws : Nat := 0
  deriving Repr, DecidableEq

namespace ScriptedDice

/-- The state of the generator after one more draw. -/
def advance (state : Nat) : Nat :=
  (state * 6364136223846793005 + 1442695040888963407) % Nat.pow 2 64

/-- The next face of a die. -/
def next (die : Int) (s : ScriptedDice) : Int × ScriptedDice :=
  match s.faces with
  | face :: faces => ((face - 1) % die + 1, { s with faces, draws := s.draws + 1 })
  | [] =>
    let state := advance s.state
    ((state / Nat.pow 2 33 : Nat) % die + 1, { s with state, draws := s.draws + 1 })

end ScriptedDice

instance : DiceSource ScriptedDice where
  draw := ScriptedDice.next

end DiceTome
