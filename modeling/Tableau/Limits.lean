import Tableau.Table

/-!
The limits of a turn and the slots that the table occupies.  The rules of all
effects in play are folded into one record, afresh after every change, so that
taking an effect away also takes its rules away.  Additions come first; the
card floor and the effect cap are applied to their result, so that the order of
the effects matters for the suit restriction only.
-/

namespace Tableau

/-- The limits of a turn without any effects. -/
structure Rules where
  cards : UInt32 := 2
  effects : UInt32 := 2
deriving DecidableEq, Repr, Inhabited

/-- The limits in force.  Slots are open to cards of any suit or reserved for
one suit, and a carry-over can lift the card limit. -/
structure Limits where
  cards : UInt32
  effects : UInt32
  openEffects : Bool := false
  openCards : Bool := false
  onlySuit : Option Suit := none
  suitSlots : FinMap Suit UInt32 := .empty
deriving DecidableEq, Repr, Inhabited

inductive LimitFault where
  | cards (limit : UInt32)
  | suit (allowed : Suit)
  | effects (limit : UInt32)
deriving DecidableEq, Repr

def LimitFault.message : LimitFault → String
  | cards limit => s!"babe limit reached ({limit.toNat})"
  | suit allowed => s!"only {allowed.tag} babes can be played this turn"
  | effects limit => s!"effect limit reached ({limit.toNat})"

/-- The limits while the rules of the effects are folded in, with the greatest
card floor and the smallest effect cap so far. -/
structure LimitFold where
  limits : Limits
  floor : Option UInt32 := none
  cap : Option UInt32 := none
deriving DecidableEq, Repr

namespace LimitFold

def start (rules : Rules) (carry : Option CarryOver) : LimitFold :=
  { limits :=
      { cards := rules.cards
        effects := rules.effects
        openCards := carry.any CarryOver.openCards } }

def apply (fold : LimitFold) : LimitRule → Checked LimitFold
  | .openEffects =>
      pure { fold with limits := { fold.limits with openEffects := true } }
  | .cardFloor least =>
      pure { fold with floor := some (fold.floor.elim least (max least)) }
  | .extraPlays cards effects => do
      let cards ← addCounts fold.limits.cards cards
      let effects ← addCounts fold.limits.effects effects
      pure { fold with limits := { fold.limits with cards, effects } }
  | .effectCap most =>
      pure { fold with cap := some (fold.cap.elim most (min most)) }
  | .onlySuit suit =>
      pure { fold with limits := { fold.limits with onlySuit := some suit } }
  | .takesSlot => pure fold
  | .extraSuit suit slots => do
      let slots ← addCounts ((fold.limits.suitSlots.get? suit).getD 0) slots
      let suitSlots := fold.limits.suitSlots.insert suit slots
      pure { fold with limits := { fold.limits with suitSlots } }

/-- Apply the card floor and the effect cap. -/
def close (fold : LimitFold) : Limits :=
  { fold.limits with
    cards := fold.floor.elim fold.limits.cards (max fold.limits.cards)
    effects := fold.cap.elim fold.limits.effects (min fold.limits.effects) }

end LimitFold

/-- The slots that a table occupies; slots of one suit are counted for every
suit that needs slots. -/
structure Occupancy where
  general : UInt32 := 0
  bySuit : FinMap Suit UInt32 := .empty
deriving DecidableEq, Repr

namespace Limits

/-- The limits under the rules of some scripts and a carry-over. -/
def resolve (rules : Rules) (scripts : List Script)
    (carry : Option CarryOver) : Checked Limits := do
  let fold ← (scripts.flatMap Script.limits).foldlM LimitFold.apply
    (LimitFold.start rules carry)
  pure fold.close

def ofTable (rules : Rules) (table : Table) : Checked Limits :=
  resolve rules table.scripts table.carry

def slotsOf (limits : Limits) (suit : Suit) : UInt32 :=
  (limits.suitSlots.get? suit).getD 0

/-- Seat one card: in a slot of its suit if one is left, else in a general
slot. -/
def seat (limits : Limits) (used : Occupancy) (card : Card) :
    Checked Occupancy := do
  let own := (used.bySuit.get? card.suit).getD 0
  if own < limits.slotsOf card.suit then
    let own ← addCounts own 1
    pure { used with bySuit := used.bySuit.insert card.suit own }
  else
    let general ← addCounts used.general 1
    pure { general, bySuit := used.bySuit.insert card.suit own }

/-- The slots that cards and effects occupy.  Free cards take none, and an
effect that takes a slot takes a general one. -/
def occupancy (limits : Limits) (cards : List InPlay) (effects : List Effect) :
    Checked Occupancy := do
  let seated := (cards.filter (fun seat => !seat.free)).map InPlay.card
  let used ← seated.foldlM limits.seat {}
  let takers := effects.countP (fun effect => effect.script.takesSlot)
  let general ← addCounts used.general (UInt32.ofNat takers)
  pure { used with general }

def checkSuit (limits : Limits) (suit : Suit) : Except LimitFault Unit :=
  match limits.onlySuit with
  | none => .ok ()
  | some allowed =>
      if allowed = suit then .ok () else .error (.suit allowed)

/-- Check whether one more card of a suit finds a slot. -/
def checkCard (limits : Limits) (table : Table) (suit : Suit) :
    Checked (Except LimitFault Unit) :=
  match limits.checkSuit suit with
  | .error fault => pure (.error fault)
  | .ok () =>
      if limits.openCards then pure (.ok ())
      else do
        let used ← limits.occupancy table.cards table.effects
        let own := (used.bySuit.get? suit).getD 0
        if own < limits.slotsOf suit ∨ used.general < limits.cards then
          pure (.ok ())
        else pure (.error (.cards limits.cards))

def checkEffect (limits : Limits) (table : Table) : Except LimitFault Unit :=
  if limits.openEffects ∨ UInt32.ofNat table.effects.length < limits.effects then
    .ok ()
  else .error (.effects limits.effects)

example : (Limits.resolve {} [] none).map Limits.cards = .ok 2 := rfl

end Limits

end Tableau
