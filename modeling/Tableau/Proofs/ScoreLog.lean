import Tableau.Proofs.Scoring

/-!
The log of scoring as an audit trail.  Every stage appends lines and never takes any
back, a stage without a line has changed nothing, and a step that changes cards has a
line for each of them.  Main statement: `score_log`.
-/

namespace Tableau

/-- Lines were appended to the log, and without any nothing was changed. -/
structure Tally.Noted (before : Tally) (lines : List String) (after : Tally) :
    Prop where
  log : after.log = before.log ++ lines
  silent : lines = [] → after = before

namespace Tally

variable {tally middle after : Tally} {table : Table} {effect : Effect} {step : Step}
  {lines later : List String}

theorem Noted.refl (tally : Tally) : tally.Noted [] tally :=
  ⟨(List.append_nil _).symm, fun _ => rfl⟩

theorem Noted.trans (hfirst : tally.Noted lines middle)
    (hlater : middle.Noted later after) : tally.Noted (lines ++ later) after := by
  constructor
  · rw [hlater.log, hfirst.log, List.append_assoc]
  · intro hnone
    obtain ⟨hlines, hmore⟩ := List.append_eq_nil_iff.mp hnone
    rw [hlater.silent hmore, hfirst.silent hlines]

theorem noted_note (tally : Tally) (lines : List String) :
    tally.Noted lines (tally.note lines) :=
  ⟨rfl, by rintro rfl; simp [note]⟩

theorem noted_final (tally : Tally) (running : Amount) (line : String) :
    tally.Noted [line] (tally.final running line) :=
  ⟨rfl, nofun⟩

theorem exists_noted_finalPerCard (tally : Tally) (table : Table) (effect : Effect)
    (step : Step) :
    ∃ lines, tally.Noted lines (tally.finalPerCard table effect step) := by
  unfold finalPerCard
  split
  · exact ⟨_, tally.noted_final _ _⟩
  · exact ⟨[], .refl tally⟩

theorem exists_noted_addTargetBase
    (hadd : tally.addTargetBase table effect step = .ok after) :
    ∃ lines, tally.Noted lines after := by
  simp only [addTargetBase, bind_eq_ok_iff, pure_eq_ok_iff] at hadd
  obtain ⟨⟨base, lines⟩, -, rfl⟩ := hadd
  exact ⟨_, (tally.noted_note lines).trans (noted_final _ _ _)⟩

/-- Carried multipliers that are not noted change nothing, as long as the cards are
summed up already. -/
theorem exists_noted_applyCarriedMults (hfresh : tally.running = tally.cardSum) :
    ∃ lines, tally.Noted lines (tally.applyCarriedMults table) := by
  unfold applyCarriedMults
  cases table.carry with
  | none => exact ⟨[], .refl tally⟩
  | some carry =>
      refine ⟨tally.standings.filterMap (carryMultLine? carry), rfl, fun hnone => ?_⟩
      have hkeeps : tally.standings.map (carryMult carry) = tally.standings := by
        conv_rhs => rw [← List.map_id tally.standings]
        refine List.map_congr_left fun standing hmem => ?_
        have hsilent := List.filterMap_eq_nil_iff.mp hnone standing hmem
        rw [carryMultLine?, Option.map_eq_none_iff] at hsilent
        rw [carryMult, hsilent, id]
      simp only [hnone, hkeeps]
      cases tally
      simp_all [note, resum, cardSum]

theorem exists_noted_applyCarriedFinal (tally : Tally) (table : Table) :
    ∃ lines, tally.Noted lines (tally.applyCarriedFinal table) := by
  unfold applyCarriedFinal
  cases table.carry with
  | none => exact ⟨[], .refl tally⟩
  | some carry =>
      simp only
      split <;> split
      · exact ⟨[], .refl tally⟩
      · exact ⟨_, tally.noted_final _ _⟩
      · exact ⟨_, tally.noted_final _ _⟩
      · exact ⟨_, (tally.noted_final _ _).trans (noted_final _ _ _)⟩

end Tally

/-- What the log tells of one stage that was carried out: a silent stage has
changed neither a standing nor the running score, and a step that changes cards
has a line for every target that is not in play, and then one for every card
that it has changed. -/
structure Stage.Entry (stage : Stage) (table : Table) (before : Tally)
    (lines : List String) (after : Tally) : Prop where
  applied : stage.apply table before = .ok after
  noted : before.Noted lines after
  improved : ∀ effect step, stage = .step effect step →
    BoundStep.Resums ⟨effect.choice, step⟩ table →
    ∃ improved : List Standing, improved.Sublist after.standings ∧
      improved.map Standing.seat = table.cards.filter
        (fun seat => BoundStep.Selects ⟨effect.choice, step⟩ seat.card) ∧
      lines = (effect.targets.filter (fun id => step.reach = .targets ∧
          ∀ seat ∈ table.cards, seat.card.id ≠ id)).map
          (fun id => s!"{effect.name}: {id.text} not found") ++
        improved.map (step.improveLine effect)

/-- Stages carried out one after the other, with the lines of each. -/
inductive Table.Logged (table : Table) :
    List Stage → Tally → List (List String) → Tally → Prop where
  | nil {tally : Tally} : Logged table [] tally [] tally
  | cons {stage : Stage} {rest : List Stage} {before middle after : Tally}
      {lines : List String} {later : List (List String)}
      (hentry : stage.Entry table before lines middle)
      (hrest : Logged table rest middle later after) :
      Logged table (stage :: rest) before (lines :: later) after

namespace Tally

variable {tally : Tally} {table : Table} {effect : Effect} {step : Step}

theorem missingLines_eq (table : Table) (effect : Effect) (step : Step) :
    missingLines table effect step =
      (effect.targets.filter (fun id => step.reach = .targets ∧
        ∀ seat ∈ table.cards, seat.card.id ≠ id)).map
        (fun id => s!"{effect.name}: {id.text} not found") := by
  unfold missingLines
  cases step.reach with
  | suit => simp
  | targets =>
      refine congrArg (List.map _) (List.filter_congr fun id _ => ?_)
      rw [Bool.eq_iff_iff]
      simp

theorem improveCards_lines (hseated : tally.board.Seated table)
    (hresums : BoundStep.Resums ⟨effect.choice, step⟩ table) :
    ∃ improved : List Standing,
      improved.Sublist (tally.improveCards table effect step).standings ∧
      improved.map Standing.seat = table.cards.filter
        (fun seat => BoundStep.Selects ⟨effect.choice, step⟩ seat.card) ∧
      (tally.improveCards table effect step).log = tally.log ++
        (missingLines table effect step ++ improved.map (step.improveLine effect)) := by
  have hany := (any_selects_iff hseated hresums.1).mpr hresums
  have hseats : (tally.standings.map fun standing =>
      if step.selects effect standing.seat.card then step.improve standing
      else standing).map Standing.seat = table.cards := by
    rw [← hseated, board, List.map_map]
    refine List.map_congr_left fun standing _ => ?_
    rw [Function.comp_apply]
    split
    · exact step.improve_seat standing
    · rfl
  have hselected (standings : List Standing) :
      (standings.filter fun standing =>
        step.selects effect standing.seat.card).map Standing.seat =
      (standings.map Standing.seat).filter
        (fun seat => BoundStep.Selects ⟨effect.choice, step⟩ seat.card) := by
    rw [List.filter_map]
    refine congrArg (List.map _) (List.filter_congr fun standing _ => ?_)
    rw [Bool.eq_iff_iff]
    simp [Step.selects_iff]
  simp only [improveCards, note, resum, hany, ↓reduceIte]
  exact ⟨_, List.filter_sublist, by rw [hselected, hseats], List.append_assoc _ _ _⟩

theorem exists_noted_improveCards (hseated : tally.board.Seated table)
    (himproves : BoundStep.Improves ⟨effect.choice, step⟩) :
    ∃ lines, tally.Noted lines (tally.improveCards table effect step) := by
  by_cases hresums : BoundStep.Resums ⟨effect.choice, step⟩ table
  · obtain ⟨improved, -, hseats, hlog⟩ := improveCards_lines hseated hresums
    refine ⟨_, hlog, fun hnone => ?_⟩
    obtain ⟨-, seat, hseat, hselects⟩ := hresums
    have hmem : seat ∈ improved.map Standing.seat := by
      rw [hseats]
      simpa [hselects] using hseat
    simp_all
  · have hany := mt (any_selects_iff hseated himproves).mp hresums
    simp only [improveCards, note, hany]
    exact ⟨_, (tally.noted_note _).trans (noted_note _ _)⟩

theorem applyStep_of_improves (tally : Tally) (table : Table)
    (himproves : BoundStep.Improves ⟨effect.choice, step⟩) :
    tally.applyStep table effect step =
      .ok (tally.improveCards table effect step) := by
  have hscope : step.scope = .card := himproves.1
  have haction : step.action = .add ∨ step.action = .mult := himproves.2
  rcases haction with haction | haction
  · simp only [applyStep, hscope, haction]
    rfl
  · simp only [applyStep, hscope, haction]
    rfl

theorem exists_noted_applyStep (hseated : tally.board.Seated table)
    (happlied : tally.applyStep table effect step = .ok after) :
    ∃ lines, tally.Noted lines after := by
  unfold applyStep at happlied
  split at happlied
  · cases happlied
    exact ⟨_, tally.noted_final _ _⟩
  · cases happlied
    exact ⟨_, tally.noted_final _ _⟩
  · exact exists_noted_addTargetBase happlied
  · cases happlied
    exact tally.exists_noted_finalPerCard table effect step
  · rename_i hscope haction
    cases happlied
    exact exists_noted_improveCards hseated ⟨hscope, .inl haction⟩
  · rename_i hscope haction
    cases happlied
    exact exists_noted_improveCards hseated ⟨hscope, .inr haction⟩
  · cases happlied
    exact ⟨_, tally.noted_note _⟩

end Tally

namespace Stage

variable {stage : Stage} {table : Table} {before after : Tally}

/-- Every stage writes its entry into the log; the carried multipliers find the cards
summed up. -/
theorem exists_entry (hseated : before.board.Seated table)
    (hfresh : stage = .carriedMults → before.running = before.cardSum)
    (happlied : stage.apply table before = .ok after) :
    ∃ lines, stage.Entry table before lines after := by
  have hnoted : ∃ lines, before.Noted lines after := by
    cases stage with
    | carriedMults =>
        cases happlied
        exact Tally.exists_noted_applyCarriedMults (hfresh rfl)
    | step effect part => exact Tally.exists_noted_applyStep hseated happlied
    | carriedFinal =>
        cases happlied
        exact before.exists_noted_applyCarriedFinal table
  obtain ⟨lines, hnoted⟩ := hnoted
  refine ⟨lines, happlied, hnoted, ?_⟩
  rintro effect step rfl hresums
  have hafter : after = before.improveCards table effect step :=
    Except.ok.inj (happlied.symm.trans
      (before.applyStep_of_improves table hresums.1))
  obtain ⟨improved, hsublist, hseats, hlog⟩ :=
    Tally.improveCards_lines hseated hresums
  refine ⟨improved, hafter ▸ hsublist, hseats, ?_⟩
  rw [← hafter, hnoted.log] at hlog
  rw [List.append_cancel_left hlog, Tally.missingLines_eq]

end Stage

namespace Table

variable {table : Table}

/-- Stages that are carried out are logged.  The carried multipliers come before
them. -/
theorem exists_logged {stages : List Stage} {before last : Tally}
    (hseated : before.board.Seated table) (hstages : .carriedMults ∉ stages)
    (hrun : stages.foldlM (fun tally stage => stage.apply table tally) before =
      .ok last) : ∃ entries, table.Logged stages before entries last := by
  induction stages generalizing before with
  | nil =>
      cases hrun
      exact ⟨[], .nil⟩
  | cons stage rest ih =>
      rw [List.foldlM_cons, bind_eq_ok_iff] at hrun
      obtain ⟨middle, happlied, hrest⟩ := hrun
      obtain ⟨hfirst, hlater⟩ := not_or.mp (mt List.mem_cons.mpr hstages)
      obtain ⟨lines, hentry⟩ :=
        Stage.exists_entry hseated (fun heq => absurd heq.symm hfirst) happlied
      obtain ⟨entries, hlogged⟩ :=
        ih (Stage.seated_of_apply hseated happlied) hlater hrest
      exact ⟨lines :: entries, .cons hentry hlogged⟩

theorem Logged.log {stages : List Stage} {before last : Tally}
    {entries : List (List String)}
    (hlogged : table.Logged stages before entries last) :
    last.log = before.log ++ entries.flatten := by
  induction hlogged with
  | nil => exact (List.append_nil _).symm
  | cons hentry _ ih =>
      rw [ih, hentry.noted.log, List.flatten_cons, List.append_assoc]

/-- The log of a turn holds the lines of its start and of all stages in their order,
each stage with its entry, and then one line with the final score. -/
theorem score_log {breakdown : Breakdown} {log : List String}
    (hscore : table.score = .ok (breakdown, log)) :
    ∃ entries last,
      table.Logged table.stages (Tally.start table.cards) entries last ∧
      breakdown = last.breakdown ∧
      log = (Tally.start table.cards).log ++ entries.flatten ++
        [s!"final score: {breakdown.after.toInt}"] := by
  simp only [score, bind_eq_ok_iff, pure_eq_ok_iff, Prod.mk.injEq] at hscore
  obtain ⟨last, hlast, rfl, rfl⟩ := hscore
  rw [finalTally, stages, List.cons_append, List.foldlM_cons, bind_eq_ok_iff] at hlast
  obtain ⟨opened, hopened, hrest⟩ := hlast
  obtain ⟨lines, hentry⟩ :=
    Stage.exists_entry table.start_seated (fun _ => rfl) hopened
  obtain ⟨entries, hlogged⟩ := exists_logged
    (Stage.seated_of_apply table.start_seated hopened) (by simp [stepStages]) hrest
  have hall : table.Logged table.stages (Tally.start table.cards)
      (lines :: entries) last := .cons hentry hlogged
  refine ⟨lines :: entries, last, hall, rfl, ?_⟩
  rw [← hall.log]
  rfl

/-- Two cards, a step on one of them and on a card that is not in play, and a step
behind a suit that only one of the cards has. -/
def lateCall : Table :=
  let steps : List Step :=
    [.cardAdd (.ofNat 2), (Step.finalPerCard (.ofNat 7) none).onlyIfAll .goth]
  { cards :=
      [⟨⟨0⟩, ⟨⟨1⟩, "Roxy", .goth, 3⟩, false⟩, ⟨⟨1⟩, ⟨⟨2⟩, "Mia", .alt, 4⟩, false⟩]
    effects :=
      [{ play := ⟨2⟩, script := { id := ⟨1⟩, name := "Spotlight", steps }
         choice := { targets := [⟨9⟩, ⟨2⟩] } }] }

/-- Nothing is carried over and the gate is closed, so of the four stages only the step
on cards writes lines. -/
theorem score_log_lateCall : ∃ breakdown log entries last,
    lateCall.score = .ok (breakdown, log) ∧
    lateCall.Logged lateCall.stages (Tally.start lateCall.cards) entries last ∧
    entries.flatten = ["Spotlight: Babe(9) not found", "Spotlight: Mia +2 = 6"] ∧
    breakdown.after = 9 := by
  have hscored : lateCall.score.map (fun scored => (scored.1.after, scored.2)) =
      .ok (9, ["Roxy starts at 3", "Mia starts at 4"] ++
        ["Spotlight: Babe(9) not found", "Spotlight: Mia +2 = 6"] ++
        ["final score: 9"]) := by decide +kernel
  have hstart : (Tally.start lateCall.cards).log =
      ["Roxy starts at 3", "Mia starts at 4"] := by decide +kernel
  have hfinal : s!"final score: {(9 : Int64).toInt}" = "final score: 9" := by
    decide +kernel
  have hscorable : lateCall.Scorable := by
    simp [Scorable, boundSteps, lateCall, Step.cardAdd, Step.finalPerCard,
      Step.onlyIfAll]
  obtain ⟨log, hscore⟩ := hscorable.score
  obtain ⟨entries, last, hlogged, -, hlog⟩ := score_log hscore
  rw [hscore] at hscored
  obtain ⟨hafter, rfl⟩ := Prod.mk.inj (Except.ok.inj hscored)
  rw [hstart, hafter, hfinal] at hlog
  have hlines := List.append_cancel_left (List.append_cancel_right hlog)
  exact ⟨_, _, entries, last, hscore, hlogged, hlines.symm, hafter⟩

end Table

end Tableau
