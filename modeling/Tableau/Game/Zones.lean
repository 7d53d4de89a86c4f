import Tableau.Table

/-!
How cards change zones.  A card that leaves a zone is the first one there with
its identity, or the one under a given play number; a card that enters a zone
comes last.  A card that an effect moves into play takes no slot.
-/

namespace Tableau

namespace Table

/-- Take the card of a move out of its zone: the card, the play number under
which it lay on the table, and the table without it. -/
def takeOut? (table : Table) (move : Move) :
    Option (Card × Option PlayId × Table) :=
  match move.source with
  | .play =>
      let wanted := fun (seat : InPlay) =>
        match move.play with
        | some play => seat.play == play
        | none => seat.card.id == move.card
      (table.cards.find? wanted).map fun seat =>
        (seat.card, some seat.play,
          { table with cards := table.cards.eraseP wanted })
  | .deck =>
      let wanted := fun (card : Card) => card.id == move.card
      (table.deck.find? wanted).map fun card =>
        (card, none, { table with deck := table.deck.eraseP wanted })
  | .discard =>
      let wanted := fun (card : Card) => card.id == move.card
      (table.discard.find? wanted).map fun card =>
        (card, none, { table with discard := table.discard.eraseP wanted })

def enter (table : Table) (seat : InPlay) : Table :=
  { table with cards := table.cards ++ [seat] }

def remember (table : Table) (name : String) : Table :=
  { table with history := table.history ++ [name] }

/-- Carry out a move, with `next` as the next play number to hand out.  The
answer is the move as it happened, the table after it and the next play number;
there is none if the card is not where the move takes it from.  A card enters
play under the play number of the move, or else under a new one. -/
def carryOut (table : Table) (next : PlayId) (move : Move) :
    Checked (Option (Move × Table × PlayId)) :=
  match table.takeOut? move with
  | none => pure none
  | some (card, left, rest) =>
      match move.dest, move.play with
      | .play, some play =>
          pure (some (move, rest.enter { play, card, free := true }, next))
      | .play, none => do
          let later ← next.next
          pure (some ({ move with play := some next },
            rest.enter { play := next, card, free := true }, later))
      | .deck, _ =>
          pure (some ({ move with play := left },
            { rest with deck := rest.deck ++ [card] }, next))
      | .discard, _ =>
          pure (some ({ move with play := left },
            { rest with discard := rest.discard ++ [card] }, next))

/-- Carry out moves one after the other and leave out those that are no longer
possible. -/
def carryOutAll (table : Table) (next : PlayId) :
    List Move → Checked (Table × PlayId)
  | [] => pure (table, next)
  | move :: rest => do
      match ← table.carryOut next move with
      | none => table.carryOutAll next rest
      | some (_, moved, later) => moved.carryOutAll later rest

/-- Remove a card that is about to be played from the deck or, if the deck has
none, from the discard pile. -/
def withdraw (table : Table) (id : CardId) : Table :=
  let wanted := fun (card : Card) => card.id == id
  if table.deck.any wanted then
    { table with deck := table.deck.eraseP wanted }
  else { table with discard := table.discard.eraseP wanted }

end Table

end Tableau
