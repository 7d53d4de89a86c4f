import Tableau.CarryOver

/-!
Everything that is scored, limited and checked during a turn: cards and effects
in play, discard pile and deck, the names of all cards played this game, and
the carry-over of the turn before.
-/

namespace Tableau

/-- The state of a turn.  Cards and effects stand in play order, and the
history has the names of the cards played this game, oldest first. -/
structure Table where
  turn : UInt32 := 1
  cards : List InPlay := []
  effects : List Effect := []
  discard : List Card := []
  deck : List Card := []
  history : List String := []
  carry : Option CarryOver := none
deriving DecidableEq, Repr, Inhabited

namespace Table

def cardsIn (table : Table) : Zone → List Card
  | .play => table.cards.map InPlay.card
  | .deck => table.deck
  | .discard => table.discard

/-- The first card of a zone with the given identity. -/
def find? (table : Table) (zone : Zone) (id : CardId) : Option Card :=
  (table.cardsIn zone).find? (fun card => card.id == id)

def cardAt? (table : Table) (play : PlayId) : Option InPlay :=
  table.cards.find? (fun seat => seat.play == play)

def effectAt? (table : Table) (play : PlayId) : Option Effect :=
  table.effects.find? (fun effect => effect.play == play)

/-- The number of cards of a suit in the discard pile. -/
def discardCount (table : Table) (suit : Suit) : Nat :=
  table.discard.countP (fun card => card.suit == suit)

/-- The play numbers in use, those of cards before those of effects. -/
def playIds (table : Table) : List PlayId :=
  table.cards.map InPlay.play ++ table.effects.map Effect.play

/-- The first play number after all those in use. -/
def nextPlay (table : Table) : Checked PlayId :=
  match (table.playIds.map PlayId.number).max? with
  | none => pure ⟨0⟩
  | some last => PlayId.next ⟨last⟩

def scripts (table : Table) : List Script := table.effects.map Effect.script

end Table

end Tableau
