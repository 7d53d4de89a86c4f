import Tableau.Amount.Text
import Tableau.Table

/-!
The running score of a turn.  Every card in play has a standing, its base score
with the additions and multipliers it has met so far; beside the standings runs
the final score, and every change is noted in a log.
-/

namespace Tableau

/-- The working score of one card in play: the sum of the additions and the
product of the multipliers so far. -/
structure Standing where
  seat : InPlay
  delta : Amount := .zero
  mult : Amount := .one
deriving DecidableEq, Repr, Inhabited

namespace Standing

/-- The base score with all additions, times all multipliers, rounded. -/
def total (standing : Standing) : Int64 :=
  ((Amount.ofScore standing.seat.card.base + standing.delta) *
    standing.mult).round

def name (standing : Standing) : String := standing.seat.card.name

end Standing

/-- Standings, running final score and log. -/
structure Tally where
  standings : List Standing
  running : Amount
  log : List String
deriving DecidableEq, Repr

def standingSum (standings : List Standing) : Amount :=
  Amount.sum (standings.map (fun standing => Amount.ofScore standing.total))

namespace Tally

def cardSum (tally : Tally) : Amount := standingSum tally.standings

def start (cards : List InPlay) : Tally :=
  let standings := cards.map (fun seat => ({ seat } : Standing))
  { standings
    running := standingSum standings
    log := cards.map fun seat =>
      let base := seat.card.base.toInt
      s!"{seat.card.name} starts at {base}" }

/-- Forget the running final score and sum up the cards anew. -/
def resum (tally : Tally) : Tally :=
  { tally with running := tally.cardSum }

def note (tally : Tally) (lines : List String) : Tally :=
  { tally with log := tally.log ++ lines }

/-- Change the running final score, and note the change with the text of the
new score. -/
def final (tally : Tally) (running : Amount) (line : String) : Tally :=
  { tally with running, log := tally.log ++ [line] }

end Tally

end Tableau
