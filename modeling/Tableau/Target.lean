import Tableau.Table

/-!
Selections of targets.  The player selects; `validate` checks a selection
against the rule of an effect and the zones as they lie, and `hasEnough` tells
whether a legal selection can exist.
-/

namespace Tableau

/-- Why a selection of targets is rejected. -/
inductive TargetFault where
  | noneExpected (got : Nat)
  | exactlyOne (got : Nat)
  | outOfRange (least most : UInt64) (got : Nat)
  | notInZone (card : CardId) (zone : Zone)
  | wrongSuit (name : String) (expected : Suit)
  | duplicate (card : CardId)
  | suitsNotDistinct
deriving DecidableEq, Repr

def TargetFault.message : TargetFault → String
  | noneExpected got => s!"this effect takes no targets, got {got}"
  | exactlyOne got => s!"choose exactly one babe, got {got}"
  | outOfRange least most got =>
      s!"choose between {least.toNat} and {most.toNat} babes, got {got}"
  | notInZone card zone => s!"{card.text} is not in the {zone.title}"
  | wrongSuit name expected => s!"{name} is not a {expected.tag} babe"
  | duplicate card => s!"{card.text} was selected more than once"
  | suitsNotDistinct => "selected babes must all have different types"

/-- The suits that occur in a list, in rule order. -/
def distinctSuits (suits : List Suit) : List Suit :=
  Suit.all.filter suits.contains

namespace TargetRule

/-- The cards of the zone that fit the suit of the rule. -/
def candidates (rule : TargetRule) (table : Table) : List Card :=
  (table.cardsIn rule.zone).filter (fun card => rule.admits card.suit)

/-- Whether the zone holds enough cards for a legal selection.  The deck is not
open to view, so targets in it are left to the player. -/
def hasEnough (rule : TargetRule) (table : Table) : Bool :=
  if rule.zone = .deck then true
  else match rule.count with
    | .none => true
    | .one => !(rule.candidates table).isEmpty
    | .between least _ =>
        if rule.distinct then
          decide (least.toNat ≤
            (distinctSuits ((rule.candidates table).map Card.suit)).length)
        else decide (least.toNat ≤ (rule.candidates table).length)

def checkCount (rule : TargetRule) (got : Nat) : Except TargetFault Unit :=
  match rule.count with
  | .none => if got = 0 then .ok () else .error (.noneExpected got)
  | .one => if got = 1 then .ok () else .error (.exactlyOne got)
  | .between least most =>
      if got < least.toNat ∨ most.toNat < got then
        .error (.outOfRange least most got)
      else .ok ()

/-- The suit of one selected card, given those selected before it. -/
def checkOne (rule : TargetRule) (table : Table) (seen : List CardId)
    (id : CardId) : Except TargetFault Suit :=
  if seen.contains id then .error (.duplicate id)
  else match table.find? rule.zone id with
    | none => .error (.notInZone id rule.zone)
    | some card =>
        match rule.suit with
        | none => .ok card.suit
        | some expected =>
            if card.suit = expected then .ok card.suit
            else .error (.wrongSuit card.name expected)

def checkEach (rule : TargetRule) (table : Table) (seen : List CardId) :
    List CardId → Except TargetFault (List Suit)
  | [] => .ok []
  | id :: rest => do
      let suit ← rule.checkOne table seen id
      let suits ← rule.checkEach table (id :: seen) rest
      pure (suit :: suits)

/-- Check a selection: its number, then every card in order, then that their
suits differ if they have to. -/
def validate (rule : TargetRule) (table : Table) (selected : List CardId) :
    Except TargetFault Unit := do
  rule.checkCount selected.length
  if rule.isNone then pure ()
  else
    let suits ← rule.checkEach table [] selected
    if rule.distinct ∧ (distinctSuits suits).length ≠ selected.length then
      .error .suitsNotDistinct
    else pure ()

end TargetRule

end Tableau
