import Mathlib.Data.List.DropRight
import Tableau.Proofs.CardScores

/-!
What decides the final score.  A step that changes a card in play sums the cards
up anew, so of the steps on the final score only those behind the last such step
count; what stands before it can be changed at will.  Main statement:
`score_deciding`.
-/

namespace Tableau

/-- The steps on the final score behind the last step that sums the cards up
anew. -/
def Table.deciding (table : Table) : List BoundStep :=
  (table.boundSteps.rtakeWhile (fun bound => ¬ bound.Resums table)).filter
    (fun bound => bound.step.scope ≠ .card)

namespace Scoreboard

variable {board : Scoreboard} {table : Table} {bound : BoundStep}

/-- The running score is decided behind the last step that sums up anew. -/
theorem foldl_after_running (hfresh : board.running = standingSum board.standings)
    (bounds : List BoundStep) :
    (bounds.foldl (after table) board).running =
      (bounds.rtakeWhile (fun bound => ¬ bound.Resums table)).foldl
        table.contribute
        (standingSum (bounds.foldl (after table) board).standings) := by
  induction bounds using List.reverseRecOn with
  | nil => exact hfresh
  | append_singleton bounds last ih =>
      rw [List.foldl_append, List.foldl_cons, List.foldl_nil]
      generalize bounds.foldl (after table) board = reached at ih
      by_cases hresums : last.Resums table
      · rw [List.rtakeWhile_concat_neg _ _ _ (by simpa using hresums), after,
          if_pos hresums]
        rfl
      · rw [List.rtakeWhile_concat_pos _ _ _ (by simpa using hresums), after,
          if_neg hresums, List.foldl_append, ← ih]
        rfl

theorem foldl_contribute_filter (bounds : List BoundStep) (running : Amount) :
    (bounds.filter (fun bound => bound.step.scope ≠ .card)).foldl
        table.contribute running =
      bounds.foldl table.contribute running := by
  rw [List.foldl_filter]
  congr 1
  funext running bound
  split
  · rfl
  · rename_i hscope
    exact (Table.contribute_of_scope running (by simpa using hscope)).symm

theorem foldl_after_filter_standings (bounds : List BoundStep) :
    ((bounds.filter (fun bound => bound.Resums table)).foldl (after table)
        board).standings =
      (bounds.foldl (after table) board).standings := by
  induction bounds using List.reverseRecOn with
  | nil => rfl
  | append_singleton bounds last ih =>
      rw [List.filter_append, List.foldl_append, List.foldl_append]
      by_cases hresums : last.Resums table
      · simp [hresums, after, ih]
      · simp [hresums, after, ih]

theorem after_of_resums {left right : Scoreboard}
    (hstandings : left.standings = right.standings)
    (hresums : bound.Resums table) :
    left.after table bound = right.after table bound := by
  rw [after, after, if_pos hresums, if_pos hresums, hstandings]

end Scoreboard

namespace Table

variable {table other : Table} {breakdown : Breakdown} {log : List String}

theorem opening_running (table : Table) :
    table.opening.running = standingSum table.opening.standings := by
  unfold opening Scoreboard.multiplied
  cases table.carry <;> rfl

theorem stepped_congr (hcards : other.cards = table.cards)
    (hdiscard : other.discard = table.discard)
    (hcarry : other.carry = table.carry)
    (heffects : other.effects.length = table.effects.length) :
    other.stepped =
      other.boundSteps.foldl (Scoreboard.after table) table.opening := by
  have hbase (targets : List CardId) :
      other.baseSum targets = table.baseSum targets := by
    simp only [baseSum, baseOf?, find?, cardsIn, hcards, hdiscard]
  have hfactor (step : Step) :
      step.baseFactor other = step.baseFactor table := by
    simp only [Step.baseFactor, heffects]
  have hcontribute (running : Amount) (bound : BoundStep) :
      other.contribute running bound = table.contribute running bound := by
    simp only [contribute, hbase, hfactor, hcards]
  have hafter : Scoreboard.after other = Scoreboard.after table := by
    funext board bound
    have hresums : bound.Resums other ↔ bound.Resums table := by
      rw [BoundStep.Resums, BoundStep.Resums, hcards]
    simp only [Scoreboard.after, hresums, hcontribute]
  simp only [stepped, opening, Scoreboard.multiplied, hafter, hcards, hcarry]

/-- The score of a turn can be read off its breakdown: the deciding steps, in
order, start from the sum of the totals of the cards, and what the turn before adds
comes last.  So steps in front of one that sums up anew can be changed at will, as
long as those that sum up anew stay and scoring does not break off. -/
theorem score_deciding (hscore : table.score = .ok (breakdown, log)) :
    (∃ tally,
      (Stage.carriedMults :: table.stepStages).foldlM
        (fun tally stage => stage.apply table tally)
        (Tally.start table.cards) = .ok tally ∧
      tally.running = table.deciding.foldl table.contribute
        (Amount.sum (breakdown.totals.map Amount.ofScore)) ∧
      breakdown.after = (table.carried tally.running).round) ∧
    ∀ (other : Table) (earlier changed later : List BoundStep)
      (last : BoundStep),
      other.cards = table.cards → other.discard = table.discard →
      other.carry = table.carry →
      other.effects.length = table.effects.length →
      table.boundSteps = earlier ++ last :: later →
      other.boundSteps = changed ++ last :: later →
      last.Resums table →
      changed.filter (fun bound => bound.Resums table) =
        earlier.filter (fun bound => bound.Resums table) →
      other.Scorable →
      ∃ lines, other.score = .ok (breakdown, lines) := by
  obtain ⟨hscorable, rfl⟩ := scorable_of_score hscore
  constructor
  · obtain ⟨tally, htally, hboard⟩ := hscorable.tally
    have hrunning : tally.running = table.stepped.running :=
      congrArg Scoreboard.running hboard
    refine ⟨tally, htally, ?_, by rw [hrunning]; rfl⟩
    rw [hrunning, stepped,
      Scoreboard.foldl_after_running table.opening_running, ← stepped, deciding,
      Scoreboard.foldl_contribute_filter, standingSum_eq]
    rfl
  · intro other earlier changed later last hcards hdiscard hcarry heffects
      htable hother hresums hsame hagain
    have hstandings :
        (changed.foldl (Scoreboard.after table) table.opening).standings =
          (earlier.foldl (Scoreboard.after table) table.opening).standings := by
      rw [← Scoreboard.foldl_after_filter_standings, hsame,
        Scoreboard.foldl_after_filter_standings]
    have hstepped : other.stepped = table.stepped := by
      rw [stepped_congr hcards hdiscard hcarry heffects, stepped, htable,
        hother, List.foldl_append, List.foldl_append, List.foldl_cons,
        List.foldl_cons, Scoreboard.after_of_resums hstandings hresums]
    have hcarried (running : Amount) :
        other.carried running = table.carried running := by
      rw [carried, carried, hcarry]
    rw [← hstepped, ← hcarried]
    exact hagain.score

def finale (early : List Step) : Table :=
  { cards :=
      [⟨⟨0⟩, ⟨⟨1⟩, "Roxy", .goth, 3⟩, false⟩, ⟨⟨1⟩, ⟨⟨2⟩, "Mia", .alt, 4⟩, false⟩]
    effects :=
      [{ play := ⟨2⟩
         script := { id := ⟨1⟩, name := "Spotlight", steps :=
           early ++ [.cardAdd (.ofNat 2), .finalMult (.ofNat 2)] }
         choice := { targets := [⟨2⟩] } }]
    carry := some { add := .ofNat 1 } }

/-- An early addition to the final score is forgotten: with it and without it the
totals 3 and 6 are doubled, and 1 is carried over. -/
theorem score_deciding_finale : ∃ breakdown log lines,
    (finale [.finalAdd (.ofNat 10)]).score = .ok (breakdown, log) ∧
    (finale []).score = .ok (breakdown, lines) ∧ breakdown.after = 19 := by
  have hscorable : (finale [.finalAdd (.ofNat 10)]).Scorable ∧
      (finale []).Scorable := by
    constructor <;> simp [Scorable, boundSteps, finale, Step.finalAdd,
      Step.cardAdd, Step.finalMult]
  obtain ⟨log, hscore⟩ := hscorable.1.score
  obtain ⟨⟨tally, -, hrunning, hafter⟩, hchange⟩ := score_deciding hscore
  obtain ⟨lines, hlines⟩ := hchange (finale [])
    [⟨{ targets := [⟨2⟩] }, .finalAdd (.ofNat 10)⟩] []
    [⟨{ targets := [⟨2⟩] }, .finalMult (.ofNat 2)⟩]
    ⟨{ targets := [⟨2⟩] }, .cardAdd (.ofNat 2)⟩
    rfl rfl rfl rfl rfl rfl (by decide) (by decide) hscorable.2
  refine ⟨_, log, lines, hscore, hlines, ?_⟩
  rw [hafter, hrunning]
  decide +kernel

end Table

end Tableau
