import Tableau.Snapshot.Packed
import Tableau.Table

/-!
The packed forms of cards, scripts, effects and tables.
-/

namespace Tableau

open Packed

instance : Packed Suit where
  pack suit := packIndex suit.index
  unpack := unpackOneOf Suit.all

/-- The position of a zone among the zones. -/
def Zone.index : Zone → Nat
  | play => 0
  | deck => 1
  | discard => 2

instance : Packed Zone where
  pack zone := packIndex zone.index
  unpack := unpackOneOf [.play, .deck, .discard]

instance : Packed CardId where
  pack id := pack id.number
  unpack := do
    pure { number := ← unpack }

instance : Packed EffectId where
  pack id := pack id.number
  unpack := do
    pure { number := ← unpack }

instance : Packed PlayId where
  pack play := pack play.number
  unpack := do
    pure { number := ← unpack }

instance : Packed Card where
  pack card :=
    pack card.id ++ pack card.name ++ pack card.suit ++ pack card.base
  unpack := do
    let id ← unpack
    let name ← unpack
    let suit ← unpack
    let base ← unpack
    pure { id, name, suit, base }

instance : Packed InPlay where
  pack seat := pack seat.play ++ pack seat.card ++ pack seat.free
  unpack := do
    let play ← unpack
    let card ← unpack
    let free ← unpack
    pure { play, card, free }

instance : Packed TargetCount where
  pack
    | .none => packIndex 0
    | .one => packIndex 1
    | .between least most => packIndex 2 ++ pack least ++ pack most
  unpack := do
    let index ← unpackIndex
    match index with
    | 0 => pure .none
    | 1 => pure .one
    | 2 => do
        let least ← unpack
        let most ← unpack
        pure (.between least most)
    | _ => refuse

instance : Packed TargetRule where
  pack rule :=
    pack rule.count ++ pack rule.suit ++ pack rule.distinct ++ pack rule.zone
  unpack := do
    let count ← unpack
    let suit ← unpack
    let distinct ← unpack
    let zone ← unpack
    pure { count, suit, distinct, zone }

/-- A scope is packed as its tag. -/
instance : Packed Scope where
  pack scope := pack scope.tag
  unpack := do
    pure (Scope.ofTag (← unpack))

/-- An action is packed as its tag. -/
instance : Packed Action where
  pack action := pack action.tag
  unpack := do
    pure (Action.ofTag (← unpack))

/-- The position of a reach among the reaches. -/
def Reach.index : Reach → Nat
  | targets => 0
  | suit => 1

instance : Packed Reach where
  pack reach := packIndex reach.index
  unpack := unpackOneOf [.targets, .suit]

instance : Packed Step where
  pack step :=
    pack step.scope ++ pack step.action ++ pack step.amount ++
      pack step.suit ++ pack step.gate ++ pack step.reach ++
      pack step.factor ++ pack step.soloFactor
  unpack := do
    let scope ← unpack
    let action ← unpack
    let amount ← unpack
    let suit ← unpack
    let gate ← unpack
    let reach ← unpack
    let factor ← unpack
    let soloFactor ← unpack
    pure { scope, action, amount, suit, gate, reach, factor, soloFactor }

instance : Packed Requirement where
  pack
    | .soleCard name => packIndex 0 ++ pack name
    | .discardHolds name => packIndex 1 ++ pack name
    | .discardCount suit least => packIndex 2 ++ pack suit ++ pack least
    | .historyStart start => packIndex 3 ++ pack start
    | .discardBase score => packIndex 4 ++ pack score
  unpack := do
    let index ← unpackIndex
    match index with
    | 0 => do
        let name ← unpack
        pure (.soleCard name)
    | 1 => do
        let name ← unpack
        pure (.discardHolds name)
    | 2 => do
        let suit ← unpack
        let least ← unpack
        pure (.discardCount suit least)
    | 3 => do
        let start ← unpack
        pure (.historyStart start)
    | 4 => do
        let score ← unpack
        pure (.discardBase score)
    | _ => refuse

instance : Packed LimitRule where
  pack
    | .openEffects => packIndex 0
    | .cardFloor least => packIndex 1 ++ pack least
    | .extraPlays cards effects => packIndex 2 ++ pack cards ++ pack effects
    | .effectCap most => packIndex 3 ++ pack most
    | .onlySuit suit => packIndex 4 ++ pack suit
    | .takesSlot => packIndex 5
    | .extraSuit suit slots => packIndex 6 ++ pack suit ++ pack slots
  unpack := do
    let index ← unpackIndex
    match index with
    | 0 => pure .openEffects
    | 1 => do
        let least ← unpack
        pure (.cardFloor least)
    | 2 => do
        let cards ← unpack
        let effects ← unpack
        pure (.extraPlays cards effects)
    | 3 => do
        let most ← unpack
        pure (.effectCap most)
    | 4 => do
        let suit ← unpack
        pure (.onlySuit suit)
    | 5 => pure .takesSlot
    | 6 => do
        let suit ← unpack
        let slots ← unpack
        pure (.extraSuit suit slots)
    | _ => refuse

instance : Packed Promise where
  pack promise :=
    pack promise.add ++ pack promise.mult ++ pack promise.replay ++
      pack promise.targetMult ++ pack promise.openCards
  unpack := do
    let add ← unpack
    let mult ← unpack
    let replay ← unpack
    let targetMult ← unpack
    let openCards ← unpack
    pure { add, mult, replay, targetMult, openCards }

instance : Packed Reversal where
  pack reversal := pack reversal.restores ++ pack reversal.refunds
  unpack := do
    let restores ← unpack
    let refunds ← unpack
    pure { restores, refunds }

instance : Packed Relocation where
  pack relocation := pack relocation.dest
  unpack := do
    pure { dest := ← unpack }

instance : Packed Script where
  pack script :=
    pack script.id ++ pack script.name ++ pack script.target ++
      pack script.steps ++ pack script.requires ++ pack script.limits ++
      pack script.promise ++ pack script.reversal ++ pack script.relocation ++
      pack script.cost
  unpack := do
    let id ← unpack
    let name ← unpack
    let target ← unpack
    let steps ← unpack
    let requires ← unpack
    let limits ← unpack
    let promise ← unpack
    let reversal ← unpack
    let relocation ← unpack
    let cost ← unpack
    pure { id, name, target, steps, requires, limits, promise, reversal,
           relocation, cost }

instance : Packed Choice where
  pack choice := pack choice.targets ++ pack choice.suit
  unpack := do
    let targets ← unpack
    let suit ← unpack
    pure { targets, suit }

instance : Packed Move where
  pack move :=
    pack move.card ++ pack move.source ++ pack move.dest ++ pack move.play
  unpack := do
    let card ← unpack
    let source ← unpack
    let dest ← unpack
    let play ← unpack
    pure { card, source, dest, play }

instance : Packed Effect where
  pack effect :=
    pack effect.play ++ pack effect.script ++ pack effect.choice ++
      pack effect.moves ++ pack effect.paid
  unpack := do
    let play ← unpack
    let script ← unpack
    let choice ← unpack
    let moves ← unpack
    let paid ← unpack
    pure { play, script, choice, moves, paid }

instance : Packed CarryOver where
  pack carry :=
    pack carry.add ++ pack carry.mult ++ pack carry.replays ++
      pack carry.cardMults ++ pack carry.openCards
  unpack := do
    let add ← unpack
    let mult ← unpack
    let replays ← unpack
    let cardMults ← unpack
    let openCards ← unpack
    pure { add, mult, replays, cardMults, openCards }

instance : Packed Table where
  pack table :=
    pack table.turn ++ pack table.cards ++ pack table.effects ++
      pack table.discard ++ pack table.deck ++ pack table.history ++
      pack table.carry
  unpack := do
    let turn ← unpack
    let cards ← unpack
    let effects ← unpack
    let discard ← unpack
    let deck ← unpack
    let history ← unpack
    let carry ← unpack
    pure { turn, cards, effects, discard, deck, history, carry }

end Tableau
