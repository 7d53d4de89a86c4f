import Tableau.Limits
import Tableau.Score.Stage

/-!
The report on a turn: the score of every card and of the turn, the limits in
force, what would be carried over if the turn ended now, and the log of the
scoring.
-/

namespace Tableau

structure CardScore where
  play : PlayId
  card : CardId
  name : String
  base : Int64
  delta : Amount
  mult : Amount
deriving DecidableEq, Repr

/-- The base score with all additions, times all multipliers, rounded. -/
def CardScore.total (score : CardScore) : Int64 :=
  ((Amount.ofScore score.base + score.delta) * score.mult).round

def Standing.score (standing : Standing) : CardScore :=
  { play := standing.seat.play
    card := standing.seat.card.id
    name := standing.seat.card.name
    base := standing.seat.card.base
    delta := standing.delta
    mult := standing.mult }

/-- The scores of the cards in play order, the sum of their totals, and the
final score after all effects and the carry-over, which can be negative. -/
structure Breakdown where
  cards : List CardScore
  before : Int64
  after : Int64
deriving DecidableEq, Repr

def Breakdown.scoreAt? (breakdown : Breakdown) (play : PlayId) :
    Option CardScore :=
  breakdown.cards.find? (fun score => score.play == play)

def Breakdown.totals (breakdown : Breakdown) : List Int64 :=
  breakdown.cards.map CardScore.total

def Tally.breakdown (tally : Tally) : Breakdown :=
  { cards := tally.standings.map Standing.score
    before := tally.cardSum.round
    after := tally.running.round }

/-- The log of a tally after all stages, which ends with the final score. -/
def Tally.fullLog (tally : Tally) : List String :=
  let after := tally.running.round.toInt
  tally.log ++ [s!"final score: {after}"]

def Table.score (table : Table) : Checked (Breakdown × List String) := do
  let tally ← table.finalTally
  pure (tally.breakdown, tally.fullLog)

/-- Everything that is computed anew after a change of the table. -/
structure Report where
  breakdown : Breakdown
  limits : Limits
  carry : Option CarryOver
  log : List String
deriving DecidableEq, Repr

/-- The score on display, never below zero. -/
def Report.finalScore (report : Report) : Int64 :=
  max 0 report.breakdown.after

def Table.report (table : Table) (rules : Rules) : Checked Report := do
  let (breakdown, log) ← table.score
  let limits ← Limits.ofTable rules table
  pure { breakdown, limits, carry := CarryOver.collect table.effects, log }

example :
    ((({} : Table).report {}).map Report.log).toOption =
      some ["final score: 0"] := by
  decide +kernel

end Tableau
