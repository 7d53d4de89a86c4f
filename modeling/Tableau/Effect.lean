import Tableau.Script

/-!
Effects in play: a script together with the choices of its player and the
moves of cards that playing it caused, so that it can be taken back.
-/

namespace Tableau

/-- What the player of an effect chooses. -/
structure Choice where
  targets : List CardId := []
  suit : Option Suit := none
deriving DecidableEq, Repr, Inhabited

/-- A card that changed its zone, with the play number under which it entered
or left the table. -/
structure Move where
  card : CardId
  source : Zone
  dest : Zone
  play : Option PlayId := none
deriving DecidableEq, Repr, Inhabited

/-- The move that takes this one back. -/
def Move.inverse (move : Move) : Move :=
  { move with source := move.dest, dest := move.source }

theorem Move.inverse_inverse (move : Move) : move.inverse.inverse = move := rfl

/-- An effect in play, with the moves made when it was played, in order, and
the strokes paid for it. -/
structure Effect where
  play : PlayId
  script : Script
  choice : Choice := {}
  moves : List Move := []
  paid : UInt32 := 0
deriving DecidableEq, Repr, Inhabited

namespace Effect

def bind (play : PlayId) (script : Script) (choice : Choice) : Effect :=
  { play, script, choice, paid := script.cost }

def name (effect : Effect) : String := effect.script.name

def targets (effect : Effect) : List CardId := effect.choice.targets

/-- The moves that take the effect back, latest first. -/
def undoMoves (effect : Effect) : List Move :=
  effect.moves.reverse.map Move.inverse

end Effect

end Tableau
