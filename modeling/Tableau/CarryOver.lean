import Tableau.Effect

/-!
What a turn hands to the next one.  At the end of a turn the promises of all
effects in play are gathered; if together they change nothing, nothing is
carried over.
-/

namespace Tableau

/-- What one turn hands to the next.  The final score takes the addition before
the multiplier; cards listed for replay need no slot, and single cards can be
worth a multiple of their scores. -/
structure CarryOver where
  add : Amount := .zero
  mult : Amount := .one
  replays : List CardId := []
  cardMults : FinMap CardId Amount := .empty
  openCards : Bool := false
deriving DecidableEq, Repr, Inhabited

namespace CarryOver

def isIdentity (carry : CarryOver) : Bool :=
  carry.add.isZero && carry.mult.isOne && carry.replays.isEmpty &&
    carry.cardMults.isEmpty && !carry.openCards

theorem isIdentity_iff {carry : CarryOver} : carry.isIdentity = true ↔
    carry.add.isZero = true ∧ carry.mult.isOne = true ∧ carry.replays = [] ∧
      carry.cardMults = .empty ∧ carry.openCards = false := by
  simp [isIdentity, FinMap.isEmpty_iff, and_assoc]

def isReplayable (carry : CarryOver) (card : CardId) : Bool :=
  carry.replays.contains card

def cardMult? (carry : CarryOver) (card : CardId) : Option Amount :=
  carry.cardMults.get? card

def addReplay (replays : List CardId) (card : CardId) : List CardId :=
  if replays.contains card then replays else replays ++ [card]

/-- Multiply the multiplier of a card, which is 1 at first. -/
def compound (factor : Amount) (mults : FinMap CardId Amount) (card : CardId) :
    FinMap CardId Amount :=
  mults.insert card ((mults.get? card).getD .one * factor)

/-- Take in what one effect promises. -/
def gather (carry : CarryOver) (effect : Effect) : CarryOver :=
  match effect.script.promise with
  | none => carry
  | some promise =>
      { add := carry.add + promise.add
        mult := carry.mult * promise.mult
        replays :=
          if promise.replay then effect.targets.foldl addReplay carry.replays
          else carry.replays
        cardMults :=
          match promise.targetMult with
          | none => carry.cardMults
          | some factor => effect.targets.foldl (compound factor) carry.cardMults
        openCards := carry.openCards || promise.openCards }

/-- All that the effects promise together. -/
def total (effects : List Effect) : CarryOver :=
  effects.foldl gather {}

/-- What the effects carry over to the next turn, if anything. -/
def collect (effects : List Effect) : Option CarryOver :=
  if (total effects).isIdentity then none else some (total effects)

end CarryOver

end Tableau
