import Tableau.Limits
import Tableau.Target

/-!
Whether an effect can be played on the table as it lies.  The checks run in a
fixed order and the first failure counts: bespoke requirements, the other
requirements, the effect cap of the script, its suit restriction against the
cards in play, a free card slot if it takes one, and enough targets.  The suit
restriction only stops a restricting effect that comes late; cards in play are
never removed.
-/

namespace Tableau

/-- Why an effect cannot be played. -/
inductive Obstacle where
  | notSoleCard (name : String)
  | missingFromDiscard (name : String)
  | tooFewOfSuit (suit : Suit) (need : UInt64) (found : Nat)
  | neverPlayed (start : String)
  | noBaseInDiscard (score : Int64)
  | effectCapReached (cap : UInt32)
  | wrongSuitInPlay (name : String) (allowed : Suit)
  | noCardSlot (limit : UInt32)
  | noTargets
deriving DecidableEq, Repr

def Obstacle.message : Obstacle → String
  | notSoleCard name => s!"{name} must be the only babe played"
  | missingFromDiscard name => s!"{name} must be in the discard pile"
  | tooFewOfSuit suit need found =>
      s!"needs {need.toNat} {suit.tag} babes in the discard pile, found {found}"
  | neverPlayed start =>
      s!"a babe named {start}... must have been played this game"
  | noBaseInDiscard score =>
      s!"needs a babe worth {score.toInt} in the discard pile"
  | effectCapReached cap =>
      s!"only {cap.toNat} effects may be played with this effect"
  | wrongSuitInPlay name allowed =>
      s!"{name} is already in play and is not {allowed.tag}"
  | noCardSlot limit => s!"no babe slot left ({limit.toNat})"
  | noTargets => "no valid targets"

def beginsWith (name start : String) : Bool :=
  start.toList.isPrefixOf name.toList

namespace Requirement

def check (requirement : Requirement) (table : Table) : Except Obstacle Unit :=
  match requirement with
  | soleCard name =>
      if table.cards.map (fun seat => seat.card.name) = [name] then .ok ()
      else .error (.notSoleCard name)
  | discardHolds name =>
      if table.discard.any (fun card => card.name == name) then .ok ()
      else .error (.missingFromDiscard name)
  | discardCount suit least =>
      if least.toNat ≤ table.discardCount suit then .ok ()
      else .error (.tooFewOfSuit suit least (table.discardCount suit))
  | historyStart start =>
      if table.history.any (fun name => beginsWith name start) then .ok ()
      else .error (.neverPlayed start)
  | discardBase score =>
      if table.discard.any (fun card => card.base == score) then .ok ()
      else .error (.noBaseInDiscard score)

end Requirement

namespace Script

/-- The requirements in the order in which they are checked. -/
def orderedRequirements (script : Script) : List Requirement :=
  script.requires.filter Requirement.isBespoke ++
    script.requires.filter (fun requirement => !requirement.isBespoke)

def checkRequirements (script : Script) (table : Table) :
    Except Obstacle Unit :=
  script.orderedRequirements.forM (fun requirement => requirement.check table)

def checkCap (script : Script) (others : List Effect) : Except Obstacle Unit :=
  match script.effectCap with
  | none => .ok ()
  | some cap =>
      if cap ≤ UInt32.ofNat others.length then .error (.effectCapReached cap)
      else .ok ()

def checkSuits (script : Script) (table : Table) : Except Obstacle Unit :=
  match script.onlySuit with
  | none => .ok ()
  | some allowed =>
      match table.cards.find? (fun seat => seat.card.suit != allowed) with
      | none => .ok ()
      | some wrong => .error (.wrongSuitInPlay wrong.card.name allowed)

/-- Check that a script that takes a slot finds one under the limits of the
other effects.  An effect in play that is checked again gives up one of the
slots in use first. -/
def checkSlot (script : Script) (rules : Rules) (table : Table)
    (others : List Effect) (again : Bool) : Checked (Except Obstacle Unit) :=
  if script.takesSlot then do
    let limits ← Limits.resolve rules (others.map Effect.script) table.carry
    let occupied ← limits.occupancy table.cards table.effects
    let used := if again && occupied.general != 0 then occupied.general - 1
      else occupied.general
    if !limits.openCards && limits.cards ≤ used then
      pure (.error (.noCardSlot limits.cards))
    else pure (.ok ())
  else pure (.ok ())

def checkTargets (script : Script) (table : Table) : Except Obstacle Unit :=
  if script.target.hasEnough table then .ok () else .error .noTargets

/-- Check a script against the table, leaving out of account the effects with
the given play number. -/
def checkWithout (script : Script) (rules : Rules) (table : Table)
    (excluded : Option PlayId) : Checked (Except Obstacle Unit) :=
  let others :=
    table.effects.filter (fun effect => some effect.play != excluded)
  let before : Except Obstacle Unit := do
    script.checkRequirements table
    script.checkCap others
    script.checkSuits table
  match before with
  | .error obstacle => pure (.error obstacle)
  | .ok () => do
      let again := excluded.any (fun play => (table.effectAt? play).isSome)
      match ← script.checkSlot rules table others again with
      | .error obstacle => pure (.error obstacle)
      | .ok () => pure (script.checkTargets table)

def check (script : Script) (rules : Rules) (table : Table) :
    Checked (Except Obstacle Unit) :=
  script.checkWithout rules table none

end Script

/-- Check an effect again, as if it were played now. -/
def Effect.recheck (effect : Effect) (rules : Rules) (table : Table) :
    Checked (Except Obstacle Unit) :=
  effect.script.checkWithout rules table (some effect.play)

end Tableau
