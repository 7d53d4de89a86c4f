import Tableau.Form.Table
import Tableau.Score.Report

/-!
The written forms of scores and reports.
-/

namespace Tableau

instance : Form CardScore where
  read? source json := do
    let fields ← Form.fields? source
      ["play_id", "card_id", "name", "base", "delta", "mult"] json
    pure
      { play := ← Form.field? fields "play_id"
        card := ← Form.field? fields "card_id"
        name := ← Form.field? fields "name"
        base := ← Form.field? fields "base"
        delta := ← Form.field? fields "delta"
        mult := ← Form.field? fields "mult" }
  write score := .record
    [("play_id", Form.write score.play), ("card_id", Form.write score.card),
      ("name", Form.write score.name), ("base", Form.write score.base),
      ("delta", Form.write score.delta), ("mult", Form.write score.mult)]

instance : Form Breakdown where
  read? source json := do
    let fields ←
      Form.fields? source ["babes", "final_before", "final_after"] json
    pure
      { cards := ← Form.field? fields "babes"
        before := ← Form.field? fields "final_before"
        after := ← Form.field? fields "final_after" }
  write breakdown := .record
    [("babes", Form.write breakdown.cards),
      ("final_before", Form.write breakdown.before),
      ("final_after", Form.write breakdown.after)]

instance : Form Report where
  read? source json := do
    let fields ← Form.fields? source
      ["breakdown", "limits", "pending_next", "log"] json
    pure
      { breakdown := ← Form.field? fields "breakdown"
        limits := ← Form.field? fields "limits"
        carry := ← Form.fieldOr? fields "pending_next" none
        log := ← Form.field? fields "log" }
  write report := .record
    [("breakdown", Form.write report.breakdown),
      ("limits", Form.write report.limits),
      ("pending_next", Form.write report.carry),
      ("log", Form.write report.log)]

end Tableau
