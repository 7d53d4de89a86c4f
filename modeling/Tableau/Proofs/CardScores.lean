import Tableau.Proofs.Scoring

/-!
The scores of the cards in play in closed form: the base score, the sum of the
amounts that the steps of the turn add to the card, and the product of its
carried multiplier with the amounts that they multiply it by, each in the order
of the effects and of their scripts.  Main statement: `score_cards`.
-/

namespace Tableau

/-- The amounts that steps add to a card, or multiply it by, in order. -/
def BoundStep.amounts (action : Action) (bounds : List BoundStep)
    (card : Card) : List Amount :=
  (bounds.filter fun bound =>
      bound.step.scope = .card ∧ bound.step.action = action ∧
        bound.Selects card).map (fun bound => bound.step.amount)

/-- The score of a card in play in closed form. -/
def Table.cardScore (table : Table) (seat : InPlay) : CardScore :=
  { play := seat.play
    card := seat.card.id
    name := seat.card.name
    base := seat.card.base
    delta := (BoundStep.amounts .add table.boundSteps seat.card).foldl
      (fun sum amount => sum + amount) .zero
    mult := ((table.carriedMult? seat.card.id).toList ++
      BoundStep.amounts .mult table.boundSteps seat.card).foldl
      (fun product amount => product * amount) .one }

def Standing.improvedBy (bounds : List BoundStep) (standing : Standing) :
    Standing :=
  { standing with
    delta := (BoundStep.amounts .add bounds standing.seat.card).foldl
      (fun sum amount => sum + amount) standing.delta
    mult := (BoundStep.amounts .mult bounds standing.seat.card).foldl
      (fun product amount => product * amount) standing.mult }

def Step.positions (step : Step) (effect : Effect) (cards : List InPlay) :
    List Nat :=
  (cards.zipIdx.filter (fun entry => step.selects effect entry.1.card)).map
    Prod.snd

theorem map_ite_eq_self {α : Type} {p : α → Prop} [DecidablePred p]
    {change : α → α} {list : List α} (hnone : ∀ x ∈ list, ¬ p x) :
    list.map (fun x => if p x then change x else x) = list := by
  rw [List.map_congr_left fun x hx => if_neg (hnone x hx)]
  exact List.map_id' list

namespace Standing

theorem improvedBy_cons (bound : BoundStep) (rest : List BoundStep)
    (standing : Standing) :
    standing.improvedBy (bound :: rest) =
      (standing.improvedBy [bound]).improvedBy rest := by
  have happend (action : Action) (card : Card) :
      BoundStep.amounts action (bound :: rest) card =
        BoundStep.amounts action [bound] card ++
          BoundStep.amounts action rest card := by
    rw [BoundStep.amounts, ← List.singleton_append, List.filter_append,
      List.map_append]
    rfl
  simp only [improvedBy, happend, List.foldl_append]

theorem improvedBy_singleton (bound : BoundStep) (standing : Standing) :
    standing.improvedBy [bound] =
      if bound.Improves ∧ bound.Selects standing.seat.card then
        bound.step.improve standing
      else standing := by
  by_cases hselects : bound.Selects standing.seat.card
  · by_cases hscope : bound.step.scope = .card
    · cases haction : bound.step.action <;>
        simp [improvedBy, BoundStep.amounts, BoundStep.Improves, Step.improve,
          hselects, hscope, haction]
    · simp [improvedBy, BoundStep.amounts, BoundStep.Improves, hscope]
  · simp [improvedBy, BoundStep.amounts, hselects]

end Standing

namespace Scoreboard

variable {board : Scoreboard} {table : Table}

theorem after_standings (hseated : board.Seated table) (bound : BoundStep) :
    (board.after table bound).standings =
      board.standings.map (Standing.improvedBy [bound]) := by
  rw [funext (Standing.improvedBy_singleton bound)]
  unfold after
  split
  · rename_i hresums
    simp only [summedUp, hresums.1, true_and]
  · rename_i hrests
    have hnone : ∀ standing ∈ board.standings,
        ¬ (bound.Improves ∧ bound.Selects standing.seat.card) := by
      rintro standing hmem ⟨himproves, hselects⟩
      apply hrests
      refine ⟨himproves, standing.seat, ?_, hselects⟩
      rw [← hseated]
      exact List.mem_map_of_mem hmem
    exact (map_ite_eq_self hnone).symm

/-- What the steps of a turn do to the standings. -/
theorem foldl_after_standings (hseated : board.Seated table)
    (bounds : List BoundStep) :
    (bounds.foldl (after table) board).standings =
      board.standings.map (Standing.improvedBy bounds) := by
  induction bounds generalizing board with
  | nil => exact (List.map_id _).symm
  | cons bound rest ih =>
      rw [List.foldl_cons, ih (hseated.after bound), after_standings hseated,
        List.map_map]
      apply List.map_congr_left
      intro standing _
      exact (standing.improvedBy_cons bound rest).symm

end Scoreboard

/-- Changing the selected positions of a list one by one is changing its selected
elements. -/
theorem foldl_modify_positions {α : Type} (selected : α → Bool) (change : α → α)
    (front rest : List α) :
    (((rest.zipIdx front.length).filter (fun entry => selected entry.1)).map
        Prod.snd).foldl (fun all position => all.modify position change)
        (front ++ rest) =
      front ++ rest.map (fun x => if selected x then change x else x) := by
  induction rest generalizing front with
  | nil => simp
  | cons x rest ih =>
      have hmodify : (front ++ x :: rest).modify front.length change =
          (front ++ [change x]) ++ rest := by
        rw [List.append_assoc]
        exact List.modifyTailIdx_add _ 0 front (x :: rest)
      by_cases hx : selected x
      · have hlater := ih (front ++ [change x])
        rw [List.length_append, List.length_singleton] at hlater
        simpa [List.zipIdx_cons, hx, hmodify] using hlater
      · have hlater := ih (front ++ [x])
        rw [List.length_append, List.length_singleton, List.append_assoc] at hlater
        simpa [List.zipIdx_cons, hx] using hlater

namespace Tally

variable {tally : Tally} {table : Table}

theorem improveCards_standings (tally : Tally) (table : Table)
    (effect : Effect) (step : Step) :
    (tally.improveCards table effect step).standings =
      tally.standings.map fun standing =>
        if step.selects effect standing.seat.card then step.improve standing
        else standing := by
  by_cases hany : tally.standings.any
      (fun standing => step.selects effect standing.seat.card)
  · simp [improveCards, note, resum, hany]
  · have hnone := List.any_eq_false.mp (Bool.eq_false_iff.mpr hany)
    simp only [improveCards, note, hany]
    exact (map_ite_eq_self hnone).symm

/-- The positions that a step selects among the cards in play are positions of
their standings, and those are the standings that it improves. -/
theorem improveCards_positions (hseated : tally.board.Seated table)
    (effect : Effect) (step : Step) :
    (∀ position ∈ step.positions effect table.cards,
      position < tally.standings.length) ∧
    (tally.improveCards table effect step).standings =
      (step.positions effect table.cards).foldl
        (fun standings position => standings.modify position step.improve)
        tally.standings := by
  have hcards : tally.standings.map Standing.seat = table.cards := hseated
  have hpositions : step.positions effect table.cards =
      (tally.standings.zipIdx.filter (fun entry =>
        step.selects effect entry.1.seat.card)).map Prod.snd := by
    rw [Step.positions, ← hcards, List.zipIdx_map, List.filter_map,
      List.map_map]
    rfl
  rw [hpositions]
  constructor
  · intro position hposition
    obtain ⟨entry, hentry, rfl⟩ := List.mem_map.mp hposition
    have hmem := List.mem_of_mem_filter hentry
    simpa using List.snd_lt_of_mem_zipIdx hmem
  · rw [improveCards_standings]
    exact (foldl_modify_positions
      (fun standing => step.selects effect standing.seat.card) step.improve []
      tally.standings).symm

end Tally

namespace Table

variable {table : Table} {breakdown : Breakdown} {log : List String}

theorem opening_standings (table : Table) : table.opening.standings =
    table.cards.map fun seat =>
      { seat, mult := (table.carriedMult? seat.card.id).toList.foldl
          (fun product amount => product * amount) .one } := by
  unfold opening Scoreboard.multiplied carriedMult?
  cases table.carry with
  | none => rfl
  | some carry =>
      simp only [Scoreboard.summedUp, Tally.board, Tally.start, List.map_map]
      apply List.map_congr_left
      intro seat _
      simp only [Function.comp_apply, Tally.carryMult, Option.bind_some]
      cases carry.cardMult? seat.card.id <;> rfl

theorem stepped_scores (table : Table) :
    table.stepped.standings.map Standing.score =
      table.cards.map table.cardScore := by
  rw [stepped, Scoreboard.foldl_after_standings table.opening_seated,
    opening_standings, List.map_map, List.map_map]
  apply List.map_congr_left
  intro seat _
  simp only [Function.comp_apply, Standing.score, Standing.improvedBy, cardScore,
    List.foldl_append]

theorem standingSum_eq (standings : List Standing) :
    standingSum standings = Amount.sum
      (((standings.map Standing.score).map CardScore.total).map
        Amount.ofScore) := by
  rw [standingSum, List.map_map, List.map_map]
  rfl

theorem cardScore_congr {other : Table} {seat : InPlay}
    (hsteps : other.boundSteps.filter (fun bound => bound.Improves) =
      table.boundSteps.filter (fun bound => bound.Improves))
    (hcarried : other.carriedMult? seat.card.id =
      table.carriedMult? seat.card.id) :
    other.cardScore seat = table.cardScore seat := by
  have hamounts (action : Action) (bounds : List BoundStep) (card : Card)
      (haction : action = .add ∨ action = .mult) :
      BoundStep.amounts action bounds card =
        BoundStep.amounts action
          (bounds.filter (fun bound => bound.Improves)) card := by
    unfold BoundStep.amounts
    rw [List.filter_filter]
    congr 1
    apply List.filter_congr
    intro bound _
    rw [Bool.eq_iff_iff, Bool.and_eq_true, decide_eq_true_iff,
      decide_eq_true_iff]
    constructor
    · rintro ⟨hscope, rfl, hselects⟩
      exact ⟨⟨hscope, rfl, hselects⟩, hscope, haction⟩
    · exact And.left
  unfold cardScore
  rw [hcarried, hamounts .add other.boundSteps, hamounts .mult other.boundSteps,
    hsteps, ← hamounts .add, ← hamounts .mult] <;> simp

/-- Every card in play has its score in closed form, and the sum of the totals is
rounded into the score before the effects on it.  Nothing else about the effects and
the carry-over decides these scores.  Whatever stages lie behind a step on cards, its
positions are those of standings. -/
theorem score_cards (hscore : table.score = .ok (breakdown, log)) :
    breakdown.cards = table.cards.map table.cardScore ∧
    breakdown.before =
      (Amount.sum (breakdown.totals.map Amount.ofScore)).round ∧
    (∀ (other : Table) (scores : Breakdown) (lines : List String),
      other.cards = table.cards →
      other.boundSteps.filter (fun bound => bound.Improves) =
        table.boundSteps.filter (fun bound => bound.Improves) →
      (∀ seat ∈ table.cards, other.carriedMult? seat.card.id =
        table.carriedMult? seat.card.id) →
      other.score = .ok (scores, lines) →
      scores.cards = breakdown.cards ∧ scores.before = breakdown.before) ∧
    ∀ (behind : List Stage) (tally : Tally) (effect : Effect) (step : Step),
      behind.foldlM (fun tally stage => stage.apply table tally)
        (Tally.start table.cards) = .ok tally →
      (∀ position ∈ step.positions effect table.cards,
        position < tally.standings.length) ∧
      (tally.improveCards table effect step).standings =
        (step.positions effect table.cards).foldl
          (fun standings position => standings.modify position step.improve)
          tally.standings := by
  have hclosed (other : Table) (scores : Breakdown) (lines : List String)
      (hother : other.score = .ok (scores, lines)) :
      scores.cards = other.cards.map other.cardScore ∧
        scores.before =
          (Amount.sum (scores.totals.map Amount.ofScore)).round := by
    obtain ⟨-, rfl⟩ := scorable_of_score hother
    exact ⟨other.stepped_scores, congrArg Amount.round (standingSum_eq _)⟩
  refine ⟨(hclosed _ _ _ hscore).1, (hclosed _ _ _ hscore).2, ?_, ?_⟩
  · intro other scores lines hcards hsteps hcarried hother
    obtain ⟨hscores, hbefore⟩ := hclosed _ _ _ hother
    have hsame : scores.cards = breakdown.cards := by
      rw [hscores, (hclosed _ _ _ hscore).1, hcards]
      apply List.map_congr_left
      intro seat hseat
      exact cardScore_congr hsteps (hcarried seat hseat)
    refine ⟨hsame, ?_⟩
    rw [hbefore, (hclosed _ _ _ hscore).2, Breakdown.totals, hsame,
      Breakdown.totals]
  · intro behind tally effect step hbehind
    exact Tally.improveCards_positions
      (Stage.seated_of_foldlM table.start_seated hbehind) effect step

/-- Two cards, one with a promise from the turn before, and two effects: one on a
target and on the final score, one on a suit. -/
def recital (carriedAdd : Amount) : Table :=
  { cards :=
      [⟨⟨0⟩, ⟨⟨1⟩, "Roxy", .goth, 3⟩, false⟩, ⟨⟨1⟩, ⟨⟨2⟩, "Mia", .alt, 4⟩, false⟩]
    effects :=
      [{ play := ⟨2⟩
         script := { id := ⟨1⟩, name := "Spotlight", steps :=
           [.cardAdd (.ofNat 2), .finalAdd (.ofNat 10)] }
         choice := { targets := [⟨2⟩] } },
        { play := ⟨3⟩
          script := { id := ⟨2⟩, name := "Gloom", steps :=
            [(Step.cardMult (.ofNat 3)).onChosenSuit] }
          choice := { suit := some .goth } }]
    carry := some
      { add := carriedAdd, cardMults := .ofList [(⟨1⟩, .ofNat 2)] } }

/-- The carried and the chosen multiplier meet on one card, the addition is on the
other; what the turn before adds to the final score does not count. -/
theorem score_cards_recital : ∃ breakdown log later lines,
    (recital (.ofNat 5)).score = .ok (breakdown, log) ∧
    breakdown.totals = [18, 6] ∧ breakdown.before = 24 ∧
    (recital .zero).score = .ok (later, lines) ∧ later.before = 24 := by
  have hok (carriedAdd : Amount) :
      ∃ breakdown log, (recital carriedAdd).score = .ok (breakdown, log) := by
    have hscorable : (recital carriedAdd).Scorable := by
      simp [Scorable, boundSteps, recital, Step.cardAdd, Step.finalAdd,
        Step.cardMult, Step.onChosenSuit]
    exact ⟨_, hscorable.score⟩
  obtain ⟨breakdown, log, hscore⟩ := hok (.ofNat 5)
  obtain ⟨later, lines, hlater⟩ := hok .zero
  obtain ⟨hcards, hbefore, hsame, -⟩ := score_cards hscore
  have htotals : breakdown.totals = [18, 6] := by
    rw [Breakdown.totals, hcards]
    decide +kernel
  have hsum : breakdown.before = 24 := by
    rw [hbefore, htotals]
    decide +kernel
  have hsteps (carriedAdd : Amount) :
      (recital carriedAdd).boundSteps = (recital .zero).boundSteps := rfl
  have hcarried (carriedAdd : Amount) (id : CardId) :
      (recital carriedAdd).carriedMult? id = (recital .zero).carriedMult? id :=
    rfl
  obtain ⟨-, hagain⟩ := hsame (recital .zero) later lines rfl
    (by rw [hsteps (.ofNat 5)]) (fun seat _ => (hcarried (.ofNat 5) _).symm)
    hlater
  exact ⟨breakdown, log, later, lines, hscore, htotals, hsum, hlater,
    hagain.trans hsum⟩

end Table

end Tableau
