import Tableau.Score.Tally

/-!
The stages in which a turn is scored: first the multipliers carried over from
the turn before, then every scoring step of every effect, in play order and
then in the order of the script, and last the carried addition and multiplier
of the final score.  A step that the rules do not know, or that finds no card,
is noted and changes nothing.
-/

namespace Tableau

def Step.selects (step : Step) (effect : Effect) (card : Card) : Bool :=
  match step.reach with
  | .targets => effect.targets.contains card.id
  | .suit =>
      match step.suit.or effect.choice.suit with
      | some suit => card.suit == suit
      | none => false

/-- What a step on cards does to the standing of a card. -/
def Step.improve (step : Step) (standing : Standing) : Standing :=
  match step.action with
  | .mult => { standing with mult := standing.mult * step.amount }
  | _ => { standing with delta := standing.delta + step.amount }

def Step.improveLine (step : Step) (effect : Effect) (improved : Standing) :
    String :=
  let total := improved.total.toInt
  match step.action with
  | .mult => s!"{effect.name}: {improved.name} x{step.amount.text} = {total}"
  | _ => s!"{effect.name}: {improved.name} {step.amount.signedText} = {total}"

/-- The base score of a target, in play or else in the discard pile. -/
def Table.baseOf? (table : Table) (id : CardId) : Option Int64 :=
  ((table.find? .play id).or (table.find? .discard id)).map Card.base

/-- The sum of the base scores of targets, and a line for every target that
lies neither in play nor in the discard pile. -/
def Table.targetBase (table : Table) (effect : Effect) :
    List CardId → Int64 → List String → Checked (Int64 × List String)
  | [], base, lines => pure (base, lines)
  | id :: rest, base, lines =>
      match table.baseOf? id with
      | some score => do
          let base ← addScores base score
          table.targetBase effect rest base lines
      | none =>
          table.targetBase effect rest base
            (lines ++ [s!"{effect.name}: {id.text} not found, adds 0"])

/-- The factor on the base scores of the targets, which may be greater while
the effect is the only one in play. -/
def Step.baseFactor (step : Step) (table : Table) : Amount :=
  if table.effects.length = 1 then
    (step.soloFactor.or step.factor).getD .one
  else step.factor.getD .one

namespace Tally

def finalAdd (tally : Tally) (effect : Effect) (amount : Amount) : Tally :=
  let running := tally.running + amount
  tally.final running
    s!"{effect.name}: final {amount.signedText} = {running.text}"

def finalMult (tally : Tally) (effect : Effect) (amount : Amount) : Tally :=
  let running := tally.running * amount
  tally.final running
    s!"{effect.name}: final x{amount.text} = {running.text}"

/-- Add an amount for every card in play that the step counts, unless a card is
not of the suit that the step is restricted to. -/
def finalPerCard (tally : Tally) (table : Table) (effect : Effect)
    (step : Step) : Tally :=
  if step.gate.all
      (fun suit => table.cards.all (fun seat => seat.card.suit == suit)) then
    let count := table.cards.countP
      (fun seat => step.suit.all (fun suit => seat.card.suit == suit))
    let added := step.amount * Amount.ofNat count
    let each := step.amount.signedText
    tally.final (tally.running + added)
      s!"{effect.name}: {each} for each of {count} babes = {added.signedText}"
  else tally

/-- Add the base scores of the targets, times a factor. -/
def addTargetBase (tally : Tally) (table : Table) (effect : Effect)
    (step : Step) : Checked Tally := do
  let (base, lines) ← table.targetBase effect effect.targets 0 []
  let factor := step.baseFactor table
  let added := Amount.ofScore base * factor
  let sum := base.toInt
  pure ((tally.note lines).final (tally.running + added)
    s!"{effect.name}: target base {sum} x{factor.text} = {added.signedText}")

/-- A line for every target that is not in play. -/
def missingLines (table : Table) (effect : Effect) (step : Step) :
    List String :=
  match step.reach with
  | .suit => []
  | .targets =>
      (effect.targets.filter
        (fun id => !table.cards.any (fun seat => seat.card.id == id))).map
        (fun id => s!"{effect.name}: {id.text} not found")

/-- Improve the standings of the selected cards and sum up anew.  A step that
selects no card leaves the running final score as it is. -/
def improveCards (tally : Tally) (table : Table) (effect : Effect)
    (step : Step) : Tally :=
  let noted := tally.note (missingLines table effect step)
  let selected := fun (standing : Standing) =>
    step.selects effect standing.seat.card
  if noted.standings.any selected then
    let standings := noted.standings.map fun standing =>
      if selected standing then step.improve standing else standing
    let lines := (standings.filter selected).map (step.improveLine effect)
    ({ noted with standings }.note lines).resum
  else noted.note [s!"{effect.name}: no babes to {step.action.tag}"]

def applyStep (tally : Tally) (table : Table) (effect : Effect)
    (step : Step) : Checked Tally :=
  match step.scope, step.action with
  | .final, .add => pure (tally.finalAdd effect step.amount)
  | .final, .mult => pure (tally.finalMult effect step.amount)
  | .final, .addTargetBase => tally.addTargetBase table effect step
  | .perCard, .add => pure (tally.finalPerCard table effect step)
  | .card, .add => pure (tally.improveCards table effect step)
  | .card, .mult => pure (tally.improveCards table effect step)
  | _, _ => pure (tally.note [s!"unhandled operation: {step.tag}"])

def carryMult (carry : CarryOver) (standing : Standing) : Standing :=
  match carry.cardMult? standing.seat.card.id with
  | some mult => { standing with mult := standing.mult * mult }
  | none => standing

def carryMultLine? (carry : CarryOver) (standing : Standing) : Option String :=
  (carry.cardMult? standing.seat.card.id).map
    (fun mult => s!"{standing.name} carries x{mult.text} from last turn")

def applyCarriedMults (tally : Tally) (table : Table) : Tally :=
  match table.carry with
  | none => tally
  | some carry =>
      ({ tally with standings := tally.standings.map (carryMult carry) }.note
        (tally.standings.filterMap (carryMultLine? carry))).resum

/-- Apply the carried addition and then the carried multiplier. -/
def applyCarriedFinal (tally : Tally) (table : Table) : Tally :=
  match table.carry with
  | none => tally
  | some carry =>
      let added :=
        if carry.add.isZero then tally
        else
          let running := tally.running + carry.add
          tally.final running
            s!"carry-over: final {carry.add.signedText} = {running.text}"
      if carry.mult.isOne then added
      else
        let running := added.running * carry.mult
        added.final running
          s!"carry-over: final x{carry.mult.text} = {running.text}"

end Tally

inductive Stage where
  | carriedMults
  | step (effect : Effect) (part : Step)
  | carriedFinal
deriving DecidableEq, Repr

def Stage.apply (stage : Stage) (table : Table) (tally : Tally) :
    Checked Tally :=
  match stage with
  | carriedMults => pure (tally.applyCarriedMults table)
  | step effect part => tally.applyStep table effect part
  | carriedFinal => pure (tally.applyCarriedFinal table)

namespace Table

/-- The stages of the scoring steps of all effects. -/
def stepStages (table : Table) : List Stage :=
  table.effects.flatMap
    (fun effect => effect.script.steps.map (Stage.step effect))

def stages (table : Table) : List Stage :=
  .carriedMults :: table.stepStages ++ [.carriedFinal]

/-- The tallies after each of the given stages, in order. -/
def tallies (table : Table) : List Stage → Tally → Checked (List Tally)
  | [], _ => pure []
  | stage :: rest, tally => do
      let next ← stage.apply table tally
      let later ← table.tallies rest next
      pure (next :: later)

def finalTally (table : Table) : Checked Tally :=
  table.stages.foldlM (fun tally stage => stage.apply table tally)
    (Tally.start table.cards)

end Table

end Tableau
