import Tableau.Game.Basic

/-!
The actions of a player as data, and runs of a game: sequences of actions, each
accepted or refused.
-/

namespace Tableau

/-- What the player of a game can do. -/
inductive PlayerAction where
  | stockDeck (cards : List Card)
  | playCard (card : Card)
  | playFromDeck (id : CardId)
  | canPlay (script : Script)
  | playEffect (script : Script) (choice : Choice)
  | removeCard (play : PlayId) (dest : Zone)
  | removeEffect (play : PlayId)
  | endTurn
deriving DecidableEq, Repr

inductive Answer where
  | done
  | played (play : PlayId)
  | card (card : Card)
  | effect (effect : Effect)
  | carried (carry : Option CarryOver)
deriving DecidableEq, Repr

namespace Game

def perform (game : Game) :
    PlayerAction → Checked (Except Refusal Answer × Game)
  | .stockDeck cards => pure (.ok .done, game.stockDeck cards)
  | .playCard card => do
      let (result, after) ← game.playCard card
      pure (result.map .played, after)
  | .playFromDeck id => do
      let (result, after) ← game.playFromDeck id
      pure (result.map .played, after)
  | .canPlay script => do
      let result ← game.canPlay script
      pure (result.map (fun _ => .done), game)
  | .playEffect script choice => do
      let (result, after) ← game.playEffect script choice
      pure (result.map .played, after)
  | .removeCard play dest =>
      let (result, after) := game.removeCard play dest
      pure (result.map .card, after)
  | .removeEffect play => do
      let (result, after) ← game.removeEffect play
      pure (result.map .effect, after)
  | .endTurn => do
      let (carry, after) ← game.endTurn
      pure (.ok (.carried carry), after)

/-- Carry out actions one after the other; refused ones change nothing. -/
def run (game : Game) (actions : List PlayerAction) : Checked Game :=
  actions.foldlM (fun current action => do
    let (_, after) ← current.perform action
    pure after) game

end Game

end Tableau
