import Tableau.Catalog
import Tableau.Form.Report
import Tableau.Game.Run
import Tableau.Game.Snapshot
import Tableau.Json.Printer
import Tableau.Json.Reader
import Tableau.Proofs.Placement
import Tableau.Proofs.Actions
import Tableau.Proofs.Holdings
import Tableau.Proofs.Numbering
import Tableau.Proofs.Slots
import Tableau.Proofs.Unpacking
import Tableau.Proofs.Snapshot
import Tableau.Proofs.LimitTotals
import Tableau.Proofs.Capacity
import Tableau.Proofs.Refusal
import Tableau.Proofs.Replay
import Tableau.Proofs.Scoring
import Tableau.Proofs.CardScores
import Tableau.Proofs.FinalScore
import Tableau.Proofs.Reversals
import Tableau.Proofs.Restoring
import Tableau.Proofs.Reissue
import Tableau.Proofs.Trace
import Tableau.Proofs.Strokes
import Tableau.Proofs.CarryOver
import Tableau.Proofs.Eligibility
import Tableau.Proofs.SuitRule
import Tableau.Proofs.Availability
import Tableau.Proofs.Seating
import Tableau.Proofs.History
import Tableau.Proofs.Verdict
import Tableau.Proofs.EffectCap
import Tableau.Proofs.Recovery
import Tableau.Proofs.Gathering
import Tableau.Proofs.IdentityCarry
import Tableau.Proofs.InertSteps
import Tableau.Proofs.ScoreLog
import Tableau.Proofs.Totality
import Tableau.Proofs.Answering
import Tableau.Proofs.Truncation
import Tableau.Proofs.Respelling
import Tableau.Proofs.Spelling
import Tableau.Proofs.Registration
