import Tableau.Amount.Basic
import Tableau.Card

/-!
What an effect card says: whom it targets, how it scores, what must hold before
it is played, how it changes the limits of the turn, and what it leaves behind.
A script is data; the other modules interpret it.
-/

namespace Tableau

/-- The number of targets that an effect takes. -/
inductive TargetCount where
  | none
  | one
  | between (least most : UInt64)
deriving DecidableEq, Repr, Inhabited

/-- What an effect may target, and where its targets lie.  Targets may have to
share one suit, or to differ in suit. -/
structure TargetRule where
  count : TargetCount := .none
  suit : Option Suit := none
  distinct : Bool := false
  zone : Zone := .play
deriving DecidableEq, Repr, Inhabited

/-- What a scoring step acts on.  Tags that no rule knows are read as
`unknown`. -/
inductive Scope where
  | final
  | perCard
  | card
  | unknown
deriving DecidableEq, Repr, Inhabited

def Scope.tag : Scope → String
  | final => "final"
  | perCard => "final-per-babe"
  | card => "babe"
  | unknown => "unknown"

def Scope.ofTag (tag : String) : Scope :=
  if tag = "final" then final
  else if tag = "final-per-babe" then perCard
  else if tag = "babe" then card
  else unknown

/-- The arithmetic of a scoring step. -/
inductive Action where
  | add
  | mult
  | addTargetBase
  | unknown
deriving DecidableEq, Repr, Inhabited

def Action.tag : Action → String
  | add => "add"
  | mult => "mult"
  | addTargetBase => "add-target-base"
  | unknown => "unknown"

def Action.ofTag (tag : String) : Action :=
  if tag = "add" then add
  else if tag = "mult" then mult
  else if tag = "add-target-base" then addTargetBase
  else unknown

theorem Scope.ofTag_tag (scope : Scope) : ofTag scope.tag = scope := by
  cases scope <;> decide

theorem Action.ofTag_tag (action : Action) : ofTag action.tag = action := by
  cases action <;> decide

/-- Which cards in play a step on cards applies to: the chosen targets, or all
cards of the suit of the step or, failing that, of the chosen suit. -/
inductive Reach where
  | targets
  | suit
deriving DecidableEq, Repr, Inhabited

/-- One scoring step of an effect.  A step per card counts the cards of its
suit, and only if all cards in play pass the gate; the factors are on the base
scores of the targets, the second while the effect is the only one in play. -/
structure Step where
  scope : Scope
  action : Action
  amount : Amount := .zero
  suit : Option Suit := none
  gate : Option Suit := none
  reach : Reach := .targets
  factor : Option Amount := none
  soloFactor : Option Amount := none
deriving DecidableEq, Repr, Inhabited

namespace Step

def tag (step : Step) : String := step.scope.tag ++ "/" ++ step.action.tag

def finalAdd (amount : Amount) : Step :=
  { scope := .final, action := .add, amount }

def finalMult (amount : Amount) : Step :=
  { scope := .final, action := .mult, amount }

def finalAddTargetBase (factor : Amount) (soloFactor : Option Amount) : Step :=
  { scope := .final, action := .addTargetBase, factor := some factor,
    soloFactor }

def finalPerCard (amount : Amount) (suit : Option Suit) : Step :=
  { scope := .perCard, action := .add, amount, suit }

def cardAdd (amount : Amount) : Step :=
  { scope := .card, action := .add, amount }

def cardMult (amount : Amount) : Step :=
  { scope := .card, action := .mult, amount }

def onSuit (step : Step) (suit : Suit) : Step :=
  { step with reach := .suit, suit := some suit }

/-- Apply a step on cards to all cards of the suit chosen when the effect is
played. -/
def onChosenSuit (step : Step) : Step :=
  { step with reach := .suit, suit := none }

def onlyIfAll (step : Step) (suit : Suit) : Step :=
  { step with gate := some suit }

end Step

/-- What must hold before an effect is played: a name that is alone in play,
lies in the discard pile or begins a name in the history, a count of discarded
cards, or a discarded base score. -/
inductive Requirement where
  | soleCard (name : String)
  | discardHolds (name : String)
  | discardCount (suit : Suit) (least : UInt64)
  | historyStart (start : String)
  | discardBase (score : Int64)
deriving DecidableEq, Repr, Inhabited

/-- Requirements that stand in for the special case of a single card; they are
checked before all others. -/
def Requirement.isBespoke : Requirement → Bool
  | historyStart _ => true
  | discardBase _ => true
  | _ => false

/-- How an effect changes the limits of the turn while it is in play.  A floor
raises the card limit and a cap lowers the effect limit; the effect may itself
occupy a card slot, and extra slots may be open to one suit only. -/
inductive LimitRule where
  | openEffects
  | cardFloor (least : UInt32)
  | extraPlays (cards effects : UInt32)
  | effectCap (most : UInt32)
  | onlySuit (suit : Suit)
  | takesSlot
  | extraSuit (suit : Suit) (slots : UInt32)
deriving DecidableEq, Repr, Inhabited

/-- What an effect leaves for the next turn: changes of the final score,
replays and multipliers of its targets, and an open card limit. -/
structure Promise where
  add : Amount := .zero
  mult : Amount := .one
  replay : Bool := false
  targetMult : Option Amount := none
  openCards : Bool := false
deriving DecidableEq, Repr, Inhabited

structure Reversal where
  restores : Bool := true
  refunds : Bool := true
deriving DecidableEq, Repr, Inhabited

/-- The targets move to this zone when the effect is played. -/
structure Relocation where
  dest : Zone
deriving DecidableEq, Repr, Inhabited

/-- An effect card as the catalog prints it. -/
structure Script where
  id : EffectId
  name : String
  target : TargetRule := {}
  steps : List Step := []
  requires : List Requirement := []
  limits : List LimitRule := []
  promise : Option Promise := none
  reversal : Option Reversal := none
  relocation : Option Relocation := none
  cost : UInt32 := 0
deriving DecidableEq, Repr, Inhabited

namespace TargetRule

def isNone (rule : TargetRule) : Bool :=
  rule.count == .none

def least (rule : TargetRule) : Nat :=
  match rule.count with
  | .none => 0
  | .one => 1
  | .between least _ => least.toNat

def admits (rule : TargetRule) (suit : Suit) : Bool :=
  match rule.suit with
  | none => true
  | some wanted => suit == wanted

end TargetRule

namespace LimitRule

def effectCap? : LimitRule → Option UInt32
  | effectCap most => some most
  | _ => none

def onlySuit? : LimitRule → Option Suit
  | onlySuit suit => some suit
  | _ => none

end LimitRule

namespace Script

/-- The smallest effect cap that the script declares. -/
def effectCap (script : Script) : Option UInt32 :=
  (script.limits.filterMap LimitRule.effectCap?).min?

/-- The last suit restriction that the script declares. -/
def onlySuit (script : Script) : Option Suit :=
  (script.limits.filterMap LimitRule.onlySuit?).getLast?

def takesSlot (script : Script) : Bool :=
  script.limits.contains .takesSlot

/-- What is undone when the effect is taken back; everything, if the script
does not say. -/
def reversalRule (script : Script) : Reversal :=
  script.reversal.getD {}

end Script

example :
    ({ id := ⟨1⟩, name := "Solo", limits :=
        [.effectCap 3, .onlySuit .alt, .effectCap 1, .onlySuit .goth] } :
      Script).effectCap = some 1 := by
  decide

end Tableau
