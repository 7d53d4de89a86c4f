import Tableau.Eligibility
import Tableau.Game.Zones
import Tableau.Score.Report

/-!
A game in progress and what its player can do.  Every action is checked against
the limits and the table first.  A refused action leaves the game as it was; an
action can also break off at a sum that does not fit.
-/

namespace Tableau

inductive Refusal where
  | limit (fault : LimitFault)
  | ineligible (obstacle : Obstacle)
  | target (fault : TargetFault)
  | unknownPlay (play : PlayId)
  | notInDeck (card : CardId)
  | alreadyInPlay (play : PlayId)
deriving DecidableEq, Repr

def Refusal.message : Refusal → String
  | limit fault => fault.message
  | ineligible obstacle => obstacle.message
  | target fault => s!"invalid target: {fault.message}"
  | unknownPlay play => s!"nothing in play with {play.text}"
  | notInDeck card => s!"{card.text} is not in the deck"
  | alreadyInPlay play => s!"{play.text} is already in the play area"

/-- A game in progress.  Retired effects were in play when a turn ended, the
oldest first, and strokes given back are no longer counted as paid. -/
structure Game where
  rules : Rules := {}
  table : Table := {}
  nextPlay : PlayId := ⟨0⟩
  retired : List Effect := []
  strokes : UInt32 := 0
deriving DecidableEq, Repr

namespace Game

/-- Continue from a given table.  Play numbers go on after those in use. -/
def ofTable (rules : Rules) (table : Table) : Checked Game := do
  let nextPlay ← table.nextPlay
  pure { rules, table, nextPlay }

def report (game : Game) : Checked Report := game.table.report game.rules

def stockDeck (game : Game) (cards : List Card) : Game :=
  { game with table := { game.table with deck := game.table.deck ++ cards } }

/-- The carry-over lists the card for a play without a slot, and no such card
is in play yet. -/
def isFreeReplay (game : Game) (id : CardId) : Bool :=
  game.table.carry.any (fun carry => carry.isReplayable id) &&
    !game.table.cards.any (fun seat => seat.free && seat.card.id == id)

/-- Play a card.  It leaves the deck or the discard pile, if it lies there. -/
def playCard (game : Game) (card : Card) :
    Checked (Except Refusal PlayId × Game) := do
  let limits ← Limits.ofTable game.rules game.table
  let free := game.isFreeReplay card.id
  let verdict ←
    if free then pure (limits.checkSuit card.suit)
    else limits.checkCard game.table card.suit
  match verdict with
  | .error fault => pure (.error (.limit fault), game)
  | .ok () => do
      let nextPlay ← game.nextPlay.next
      let table := ((game.table.withdraw card.id).remember card.name).enter
        { play := game.nextPlay, card, free }
      pure (.ok game.nextPlay, { game with table, nextPlay })

def playFromDeck (game : Game) (id : CardId) :
    Checked (Except Refusal PlayId × Game) :=
  match game.table.find? .deck id with
  | none => pure (.error (.notInDeck id), game)
  | some card => game.playCard card

/-- Check whether an effect can be played now.  The effect limit is the one
that would be in force with the effect in play. -/
def canPlay (game : Game) (script : Script) :
    Checked (Except Refusal Unit) := do
  let limits ← Limits.resolve game.rules (game.table.scripts ++ [script])
    game.table.carry
  match limits.checkEffect game.table with
  | .error fault => pure (.error (.limit fault))
  | .ok () => do
      match ← script.check game.rules game.table with
      | .error obstacle => pure (.error (.ineligible obstacle))
      | .ok () => pure (.ok ())

/-- Move the targets of an effect to another zone, one by one, and list the
moves.  Cards that come into play enter the history.  The answer includes the
next play number, for numbers that were handed out stay spent. -/
def moveTargets (source dest : Zone) :
    List CardId → Table → PlayId → List Move →
      Checked (Except TargetFault (Table × List Move) × PlayId)
  | [], table, next, moves => pure (.ok (table, moves), next)
  | card :: rest, table, next, moves => do
      match ← table.carryOut next { card, source, dest } with
      | none => pure (.error (.notInZone card source), next)
      | some (move, moved, later) =>
          let remembered :=
            if dest = .play then
              match moved.cards.getLast? with
              | some seat => moved.remember seat.card.name
              | none => moved
            else moved
          moveTargets source dest rest remembered later (moves ++ [move])

def relocate (script : Script) (choice : Choice) (table : Table)
    (next : PlayId) :
    Checked (Except TargetFault (Table × List Move) × PlayId) :=
  match script.relocation with
  | none => pure (.ok (table, []), next)
  | some relocation =>
      moveTargets script.target.zone relocation.dest choice.targets table next
        []

/-- Play an effect: check the effect limit, then whether it can be played, then
the selection of targets; move the targets if the script says so, and pay. -/
def playEffect (game : Game) (script : Script) (choice : Choice) :
    Checked (Except Refusal PlayId × Game) := do
  match ← game.canPlay script with
  | .error refusal => pure (.error refusal, game)
  | .ok () =>
      match script.target.validate game.table choice.targets with
      | .error fault => pure (.error (.target fault), game)
      | .ok () => do
          let play := game.nextPlay
          let (moved, nextPlay) ←
            relocate script choice game.table (← play.next)
          match moved with
          | .error fault =>
              pure (.error (.target fault), { game with nextPlay })
          | .ok (rest, moves) => do
              let effect := { Effect.bind play script choice with moves }
              let strokes ← addCounts game.strokes effect.paid
              let table := { rest with effects := rest.effects ++ [effect] }
              pure (.ok play, { game with table, nextPlay, strokes })

def removeCard (game : Game) (play : PlayId) (dest : Zone) :
    Except Refusal Card × Game :=
  match game.table.cardAt? play with
  | none => (.error (.unknownPlay play), game)
  | some seat =>
      let rest := { game.table with
        cards := game.table.cards.eraseP (fun other => other.play == play) }
      match dest with
      | .play => (.error (.alreadyInPlay play), game)
      | .deck =>
          (.ok seat.card,
            { game with table := { rest with deck := rest.deck ++ [seat.card] } })
      | .discard =>
          (.ok seat.card,
            { game with
              table := { rest with discard := rest.discard ++ [seat.card] } })

def refund (strokes paid : UInt32) : UInt32 :=
  if paid ≤ strokes then strokes - paid else 0

/-- Take an effect back.  Its moves are reversed, latest first, and its strokes
are given back, unless the script says otherwise.  A move that can no longer be
reversed is left out. -/
def removeEffect (game : Game) (play : PlayId) :
    Checked (Except Refusal Effect × Game) :=
  match game.table.effectAt? play with
  | none => pure (.error (.unknownPlay play), game)
  | some effect => do
      let reversal := effect.script.reversalRule
      let rest := { game.table with
        effects := game.table.effects.eraseP (fun other => other.play == play) }
      let undo := if reversal.restores then effect.undoMoves else []
      let (table, nextPlay) ← rest.carryOutAll game.nextPlay undo
      let strokes :=
        if reversal.refunds then refund game.strokes effect.paid
        else game.strokes
      pure (.ok effect, { game with table, nextPlay, strokes })

/-- End the turn: cards in play go to the discard pile, effects retire, and
what they promise is carried over. -/
def endTurn (game : Game) : Checked (Option CarryOver × Game) := do
  let carry := CarryOver.collect game.table.effects
  let turn ← addCounts game.table.turn 1
  let table := { game.table with
    turn
    cards := []
    effects := []
    discard := game.table.discard ++ game.table.cards.map InPlay.card
    carry }
  pure (carry, { game with
    table
    nextPlay := ⟨0⟩
    retired := game.retired ++ game.table.effects })

end Game

end Tableau
