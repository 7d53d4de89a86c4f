import Mathlib.Algebra.Ring.Int.Defs
import Mathlib.Data.List.Basic
import Tableau.Score.Report

/-!
Scoring without its log.  What the log is written from is a board: the standings
and the running final score.  Every stage of scoring takes a board to a board,
and scoring breaks off exactly if the base scores of some targets do not sum up
in their word.  Main statement: `score_cases`.
-/

namespace Tableau

/-- A scoring step with the choices made for its effect. -/
structure BoundStep where
  choice : Choice
  step : Step
deriving DecidableEq, Repr

namespace BoundStep

/-- The step is one that changes cards: it adds to them or multiplies them. -/
def Improves (bound : BoundStep) : Prop :=
  bound.step.scope = .card ∧
    (bound.step.action = .add ∨ bound.step.action = .mult)

def Selects (bound : BoundStep) (card : Card) : Prop :=
  bound.step.reach = .targets ∧ card.id ∈ bound.choice.targets ∨
    bound.step.reach = .suit ∧
      bound.step.suit.or bound.choice.suit = some card.suit

/-- The step changes a card in play, so that the cards are summed up anew. -/
def Resums (bound : BoundStep) (table : Table) : Prop :=
  bound.Improves ∧ ∃ seat ∈ table.cards, bound.Selects seat.card

variable {bound : BoundStep} {card : Card} {table : Table}

instance : Decidable bound.Improves :=
  inferInstanceAs (Decidable (_ ∧ _))

instance : Decidable (bound.Selects card) :=
  inferInstanceAs (Decidable (_ ∨ _))

instance : Decidable (bound.Resums table) :=
  inferInstanceAs (Decidable (_ ∧ _))

end BoundStep

theorem Step.selects_iff {step : Step} {effect : Effect} {card : Card} :
    step.selects effect card ↔
      BoundStep.Selects ⟨effect.choice, step⟩ card := by
  simp only [Step.selects, BoundStep.Selects, Effect.targets]
  cases step.reach with
  | targets => simp
  | suit =>
      cases step.suit.or effect.choice.suit with
      | none => simp
      | some suit => simp [eq_comm (a := suit)]

/-- A signed 64-bit word holds the sum. -/
def IsScore (sum : Int) : Prop :=
  Int64.minValue.toInt ≤ sum ∧ sum ≤ Int64.maxValue.toInt

instance (sum : Int) : Decidable (IsScore sum) :=
  inferInstanceAs (Decidable (_ ∧ _))

theorem isScore_toInt (score : Int64) : IsScore score.toInt :=
  ⟨Int64.minValue_le_toInt score, Int64.toInt_le score⟩

theorem addScores_cases (left right : Int64) :
    (∃ sum, addScores left right = .ok sum ∧
      sum.toInt = left.toInt + right.toInt) ∨
    ¬ IsScore (left.toInt + right.toInt) ∧
      addScores left right = .error .addition := by
  unfold addScores IsScore
  split
  · rename_i hfits
    refine .inl ⟨_, rfl, ?_⟩
    rw [Int64.toInt_add, Int.bmod_eq_of_le]
    · exact hfits.1
    · exact Int.lt_add_one_of_le hfits.2
  · rename_i hlarge
    exact .inr ⟨hlarge, rfl⟩

namespace Table

variable {table : Table}

/-- All scoring steps of a turn, in order. -/
def boundSteps (table : Table) : List BoundStep :=
  table.effects.flatMap
    (fun effect => effect.script.steps.map (BoundStep.mk effect.choice))

/-- The sum of the base scores of targets, where one that cannot be found counts
nothing. -/
def baseSum (table : Table) (targets : List CardId) : Int :=
  (targets.map (fun id => ((table.baseOf? id).map Int64.toInt).getD 0)).sum

/-- The base scores of targets sum up in their word, from the first to the
last. -/
def SumsUp (table : Table) (targets : List CardId) : Prop :=
  ∀ first, first <+: targets → IsScore (table.baseSum first)

/-- What a step that changes no card does to the running final score. -/
def contribute (table : Table) (running : Amount) (bound : BoundStep) :
    Amount :=
  match bound.step.scope, bound.step.action with
  | .final, .add => running + bound.step.amount
  | .final, .mult => running * bound.step.amount
  | .final, .addTargetBase =>
      let sum := Int64.ofInt (table.baseSum bound.choice.targets)
      running + Amount.ofScore sum * bound.step.baseFactor table
  | .perCard, .add =>
      if bound.step.gate.all
          (fun suit => table.cards.all (fun seat => seat.card.suit == suit)) then
        let count := table.cards.countP
          (fun seat => bound.step.suit.all (fun suit => seat.card.suit == suit))
        running + bound.step.amount * Amount.ofNat count
      else running
  | _, _ => running

/-- A step on cards does not change the running score by itself. -/
theorem contribute_of_scope {bound : BoundStep} (running : Amount)
    (hscope : bound.step.scope = .card) :
    table.contribute running bound = running := by
  simp [contribute, hscope]

/-- The multiplier that the turn before promised to a card. -/
def carriedMult? (table : Table) (id : CardId) : Option Amount :=
  table.carry.bind (fun carry => carry.cardMult? id)

/-- What the turn before adds to the final score, and then multiplies it by. -/
def carried (table : Table) (running : Amount) : Amount :=
  match table.carry with
  | none => running
  | some carry =>
      let added := if carry.add.isZero then running else running + carry.add
      if carry.mult.isOne then added else added * carry.mult

end Table

/-- Standings and running final score. -/
structure Scoreboard where
  standings : List Standing
  running : Amount
deriving DecidableEq, Repr

namespace Scoreboard

variable {board : Scoreboard} {table : Table} {bound : BoundStep}

/-- Other standings, summed up anew. -/
def summedUp (standings : List Standing) : Scoreboard :=
  { standings, running := standingSum standings }

/-- The board after the carried multipliers of single cards. -/
def multiplied (board : Scoreboard) (table : Table) : Scoreboard :=
  match table.carry with
  | none => board
  | some carry => summedUp (board.standings.map (Tally.carryMult carry))

def after (table : Table) (board : Scoreboard) (bound : BoundStep) :
    Scoreboard :=
  if bound.Resums table then
    summedUp (board.standings.map fun standing =>
      if bound.Selects standing.seat.card then bound.step.improve standing
      else standing)
  else { board with running := table.contribute board.running bound }

/-- There is one standing for every card in play, in play order. -/
def Seated (board : Scoreboard) (table : Table) : Prop :=
  board.standings.map Standing.seat = table.cards

def breakdown (board : Scoreboard) : Breakdown :=
  { cards := board.standings.map Standing.score
    before := (standingSum board.standings).round
    after := board.running.round }

end Scoreboard

theorem Step.improve_seat (step : Step) (standing : Standing) :
    (step.improve standing).seat = standing.seat := by
  unfold Step.improve
  split <;> rfl

theorem Tally.carryMult_seat (carry : CarryOver) (standing : Standing) :
    (carryMult carry standing).seat = standing.seat := by
  unfold carryMult
  split <;> rfl

def Tally.board (tally : Tally) : Scoreboard :=
  { standings := tally.standings, running := tally.running }

namespace Stage

def after (stage : Stage) (table : Table) (board : Scoreboard) : Scoreboard :=
  match stage with
  | carriedMults => board.multiplied table
  | step effect part => board.after table ⟨effect.choice, part⟩
  | carriedFinal => { board with running := table.carried board.running }

/-- What must hold for the stage not to break off. -/
def Countable (stage : Stage) (table : Table) : Prop :=
  match stage with
  | step effect part =>
      part.scope = .final → part.action = .addTargetBase →
        table.SumsUp effect.targets
  | _ => True

end Stage

namespace Table

variable {table : Table}

theorem baseSum_cons (id : CardId) (rest : List CardId) :
    table.baseSum (id :: rest) =
      ((table.baseOf? id).map Int64.toInt).getD 0 + table.baseSum rest := by
  simp [baseSum]

/-- The base scores of the targets are summed up, or some first of them do not
fit their word. -/
theorem targetBase_cases (table : Table) (effect : Effect)
    (targets : List CardId) (base : Int64) (lines : List String) :
    ((∀ first, first <+: targets → IsScore (base.toInt + table.baseSum first)) ∧
      ∃ sum later, table.targetBase effect targets base lines =
        .ok (sum, later) ∧ sum.toInt = base.toInt + table.baseSum targets) ∨
    (¬ ∀ first, first <+: targets →
        IsScore (base.toInt + table.baseSum first)) ∧
      table.targetBase effect targets base lines = .error .addition := by
  induction targets generalizing base lines with
  | nil =>
      refine .inl ⟨?_, base, lines, rfl, by simp [baseSum]⟩
      intro first hfirst
      rw [List.prefix_nil.mp hfirst]
      simpa [baseSum] using isScore_toInt base
  | cons id rest ih =>
      have hfirsts (start : Int) :
          (∀ first, first <+: id :: rest →
            IsScore (start + table.baseSum first)) ↔
          IsScore start ∧ ∀ first, first <+: rest → IsScore (start +
            (((table.baseOf? id).map Int64.toInt).getD 0 +
              table.baseSum first)) := by
        constructor
        · intro hall
          refine ⟨by simpa [baseSum] using hall [] List.nil_prefix, ?_⟩
          intro first hfirst
          rw [← baseSum_cons]
          exact hall (id :: first) (List.prefix_cons_inj id |>.mpr hfirst)
        · rintro ⟨hstart, hrest⟩ first hfirst
          rcases List.prefix_cons_iff.mp hfirst with rfl | ⟨tail, rfl, htail⟩
          · simpa [baseSum] using hstart
          · rw [baseSum_cons]
            exact hrest tail htail
      rw [hfirsts, baseSum_cons]
      simp only [isScore_toInt, true_and]
      rw [targetBase]
      cases hbase : table.baseOf? id with
      | none =>
          simpa using ih base _
      | some score =>
          simp only [Option.map_some, Option.getD_some]
          rcases addScores_cases base score with ⟨sum, hsum, htrue⟩ |
            ⟨hlarge, hbreaks⟩
          · simp only [hsum, ← Int.add_assoc, ← htrue]
            exact ih sum lines
          · refine .inr ⟨?_, by rw [hbreaks]; rfl⟩
            intro hall
            apply hlarge
            simpa [baseSum] using hall [] List.nil_prefix

end Table

namespace Tally

variable {tally next : Tally} {table : Table}

theorem addTargetBase_cases (tally : Tally) (table : Table) (effect : Effect)
    (step : Step) :
    (table.SumsUp effect.targets ∧ ∃ next,
      tally.addTargetBase table effect step = .ok next ∧
      next.standings = tally.standings ∧
      next.running = tally.running +
        Amount.ofScore (Int64.ofInt (table.baseSum effect.targets)) *
          step.baseFactor table) ∨
    ¬ table.SumsUp effect.targets ∧
      tally.addTargetBase table effect step = .error .addition := by
  have hsum := table.targetBase_cases effect effect.targets 0 []
  simp only [Int64.toInt_zero, Int.zero_add] at hsum
  rcases hsum with ⟨hfits, sum, lines, hsum, htrue⟩ | ⟨hlarge, hbreaks⟩
  · rw [← htrue, Int64.ofInt_toInt, addTargetBase, hsum]
    exact .inl ⟨hfits, _, rfl, rfl, rfl⟩
  · rw [addTargetBase, hbreaks]
    exact .inr ⟨hlarge, rfl⟩

/-- A step on cards finds a standing to improve exactly if it selects a card in
play. -/
theorem any_selects_iff {effect : Effect} {step : Step}
    (hseated : tally.board.Seated table)
    (himproves : BoundStep.Improves ⟨effect.choice, step⟩) :
    tally.standings.any (fun standing => step.selects effect standing.seat.card) ↔
      BoundStep.Resums ⟨effect.choice, step⟩ table := by
  rw [List.any_eq_true, BoundStep.Resums, ← hseated]
  simp [himproves, Step.selects_iff, board]

theorem improveCards_board {effect : Effect} {step : Step}
    (hseated : tally.board.Seated table)
    (himproves : BoundStep.Improves ⟨effect.choice, step⟩) :
    (tally.improveCards table effect step).board =
      tally.board.after table ⟨effect.choice, step⟩ := by
  have hany := any_selects_iff hseated himproves
  have hcontribute (running : Amount) :
      table.contribute running ⟨effect.choice, step⟩ = running :=
    Table.contribute_of_scope running himproves.1
  by_cases hresums : BoundStep.Resums ⟨effect.choice, step⟩ table
  · simp [improveCards, Scoreboard.after, note, hany, hresums, Step.selects_iff, board,
      Scoreboard.summedUp, resum, cardSum]
  · simp [improveCards, Scoreboard.after, note, hany, hresums, hcontribute, board]

theorem applyStep_cases {effect : Effect} {step : Step}
    (hseated : tally.board.Seated table) :
    ((Stage.step effect step).Countable table ∧ ∃ next,
      tally.applyStep table effect step = .ok next ∧
      next.board = tally.board.after table ⟨effect.choice, step⟩) ∨
    ¬ (Stage.step effect step).Countable table ∧
      tally.applyStep table effect step = .error .addition := by
  have hplain (himproves : ¬ BoundStep.Improves ⟨effect.choice, step⟩) :
      tally.board.after table ⟨effect.choice, step⟩ = { tally.board with
        running := table.contribute tally.running ⟨effect.choice, step⟩ } :=
    if_neg fun hresums => himproves hresums.1
  have hcounts (haction : step.action ≠ .addTargetBase) :
      (Stage.step effect step).Countable table :=
    fun _ heq => absurd heq haction
  cases hscope : step.scope with
  | final =>
      rw [hplain (by simp [BoundStep.Improves, hscope])]
      cases haction : step.action with
      | addTargetBase =>
          simp only [applyStep, Stage.Countable, hscope, haction, forall_const]
          rcases tally.addTargetBase_cases table effect step with
            ⟨hfits, next, hnext, hstandings, hrunning⟩ | hbreaks
          · refine .inl ⟨hfits, next, hnext, ?_⟩
            simp [Table.contribute, hscope, haction, board, hstandings,
              hrunning, Effect.targets]
          · exact .inr hbreaks
      | _ =>
          simp only [applyStep, Table.contribute, hscope, haction]
          exact .inl ⟨hcounts (by simp [haction]), _, rfl, rfl⟩
  | perCard =>
      rw [hplain (by simp [BoundStep.Improves, hscope])]
      simp only [applyStep, Table.contribute, hscope]
      refine .inl ⟨fun heq => absurd heq (by simp [hscope]), ?_⟩
      cases haction : step.action with
      | add =>
          refine ⟨_, rfl, ?_⟩
          simp only [finalPerCard]
          split <;> rfl
      | _ => exact ⟨_, rfl, rfl⟩
  | card =>
      refine .inl ⟨fun heq => absurd heq (by simp [hscope]), ?_⟩
      simp only [applyStep, hscope]
      cases haction : step.action with
      | add =>
          exact ⟨_, rfl, improveCards_board hseated ⟨hscope, .inl haction⟩⟩
      | mult =>
          exact ⟨_, rfl, improveCards_board hseated ⟨hscope, .inr haction⟩⟩
      | _ =>
          rw [hplain (by simp [BoundStep.Improves, haction])]
          simp only [Table.contribute, hscope]
          exact ⟨_, rfl, rfl⟩
  | unknown =>
      rw [hplain (by simp [BoundStep.Improves, hscope])]
      simp only [applyStep, Table.contribute, hscope]
      exact .inl ⟨fun heq => absurd heq (by simp [hscope]), _, rfl, rfl⟩

theorem applyCarriedMults_board (tally : Tally) (table : Table) :
    (tally.applyCarriedMults table).board = tally.board.multiplied table := by
  unfold applyCarriedMults Scoreboard.multiplied
  cases table.carry with
  | none => rfl
  | some carry => rfl

theorem applyCarriedFinal_board (tally : Tally) (table : Table) :
    (tally.applyCarriedFinal table).board =
      { tally.board with running := table.carried tally.running } := by
  unfold applyCarriedFinal Table.carried
  cases table.carry with
  | none => rfl
  | some carry =>
      simp only
      split <;> split <;> rfl

end Tally

namespace Scoreboard

variable {board : Scoreboard} {table : Table} {bound : BoundStep}

theorem Seated.after (hseated : board.Seated table) (bound : BoundStep) :
    (board.after table bound).Seated table := by
  unfold Scoreboard.after
  split
  · rw [Seated, ← hseated, summedUp, List.map_map]
    apply List.map_congr_left
    intro standing _
    rw [Function.comp_apply]
    split
    · exact bound.step.improve_seat standing
    · rfl
  · exact hseated

theorem Seated.multiplied (hseated : board.Seated table) :
    (board.multiplied table).Seated table := by
  unfold Scoreboard.multiplied
  split
  · exact hseated
  · rename_i carry _
    rw [Seated, ← hseated, summedUp, List.map_map]
    exact List.map_congr_left fun standing _ =>
      Tally.carryMult_seat carry standing

end Scoreboard

namespace Stage

variable {stage : Stage} {table : Table} {board : Scoreboard} {tally : Tally}

theorem seated_after (hseated : board.Seated table) (stage : Stage) :
    (stage.after table board).Seated table := by
  cases stage with
  | carriedMults => exact hseated.multiplied
  | step effect part => exact hseated.after ⟨effect.choice, part⟩
  | carriedFinal => exact hseated

/-- What one stage does to the board, if it does not break off. -/
theorem apply_cases (hseated : tally.board.Seated table) (stage : Stage) :
    (stage.Countable table ∧ ∃ next, stage.apply table tally = .ok next ∧
      next.board = stage.after table tally.board) ∨
    ¬ stage.Countable table ∧ stage.apply table tally = .error .addition := by
  cases stage with
  | carriedMults =>
      exact .inl ⟨trivial, _, rfl, tally.applyCarriedMults_board table⟩
  | step effect part => exact Tally.applyStep_cases hseated
  | carriedFinal =>
      exact .inl ⟨trivial, _, rfl, tally.applyCarriedFinal_board table⟩

theorem seated_of_apply {next : Tally} (hseated : tally.board.Seated table)
    (happlied : stage.apply table tally = .ok next) : next.board.Seated table := by
  rcases apply_cases hseated stage with ⟨-, after, hok, hboard⟩ | ⟨-, herror⟩
  · cases happlied.symm.trans hok
    exact hboard ▸ seated_after hseated stage
  · cases happlied.symm.trans herror

/-- What a run of stages does to the board, if none breaks off. -/
theorem foldlM_cases (hseated : tally.board.Seated table)
    (stages : List Stage) :
    ((∀ stage ∈ stages, stage.Countable table) ∧ ∃ last,
      stages.foldlM (fun tally stage => stage.apply table tally) tally =
        .ok last ∧
      last.board.Seated table ∧
      last.board =
        stages.foldl (fun board stage => stage.after table board)
          tally.board) ∨
    (¬ ∀ stage ∈ stages, stage.Countable table) ∧
      stages.foldlM (fun tally stage => stage.apply table tally) tally =
        .error .addition := by
  induction stages generalizing tally with
  | nil => exact .inl ⟨by simp, tally, rfl, hseated, rfl⟩
  | cons stage rest ih =>
      rw [List.foldlM_cons, List.foldl_cons, List.forall_mem_cons]
      rcases apply_cases hseated stage with
        ⟨hcounts, next, hnext, hboard⟩ | ⟨hbreaks, herror⟩
      · rw [hnext, ← hboard]
        simp only [hcounts, true_and]
        exact ih (hboard ▸ seated_after hseated stage)
      · rw [herror]
        exact .inr ⟨fun hall => hbreaks hall.1, rfl⟩

theorem seated_of_foldlM {stages : List Stage} {last : Tally}
    (hseated : tally.board.Seated table)
    (hrun : stages.foldlM (fun tally stage => stage.apply table tally) tally =
      .ok last) : last.board.Seated table := by
  rcases foldlM_cases hseated stages with ⟨-, tally, hok, hlast, -⟩ | ⟨-, herror⟩
  · cases hrun.symm.trans hok
    exact hlast
  · cases hrun.symm.trans herror

end Stage

namespace Table

variable {table : Table}

/-- The board before any scoring step: every card in play at its base score, with
its carried multiplier. -/
def opening (table : Table) : Scoreboard :=
  Scoreboard.multiplied (Tally.start table.cards).board table

def stepped (table : Table) : Scoreboard :=
  table.boundSteps.foldl (Scoreboard.after table) table.opening

/-- No step breaks scoring off. -/
def Scorable (table : Table) : Prop :=
  ∀ bound ∈ table.boundSteps, bound.step.scope = .final →
    bound.step.action = .addTargetBase → table.SumsUp bound.choice.targets

theorem start_seated (table : Table) :
    (Tally.start table.cards).board.Seated table := by
  simp [Scoreboard.Seated, Tally.board, Tally.start, Function.comp_def]

theorem opening_seated (table : Table) : table.opening.Seated table :=
  table.start_seated.multiplied

theorem foldl_stepStages (table : Table) (board : Scoreboard) :
    table.stepStages.foldl (fun board stage => stage.after table board) board =
      table.boundSteps.foldl (Scoreboard.after table) board := by
  simp [stepStages, boundSteps, List.foldl_flatMap, List.foldl_map, Stage.after]

theorem scorable_iff (table : Table) : table.Scorable ↔
    ∀ stage ∈ table.stepStages, stage.Countable table := by
  simp only [Scorable, stepStages, boundSteps, List.mem_flatMap, List.mem_map]
  constructor
  · rintro hall stage ⟨effect, heffect, step, hstep, rfl⟩
    exact hall ⟨effect.choice, step⟩ ⟨effect, heffect, step, hstep, rfl⟩
  · rintro hall bound ⟨effect, heffect, step, hstep, rfl⟩
    exact hall (.step effect step) ⟨effect, heffect, step, hstep, rfl⟩

/-- The tally after the scoring steps and the tally at the end, or else scoring
breaks off. -/
theorem stages_cases (table : Table) :
    (table.Scorable ∧ ∃ tally,
      (Stage.carriedMults :: table.stepStages).foldlM
        (fun tally stage => stage.apply table tally)
        (Tally.start table.cards) = .ok tally ∧
      tally.board = table.stepped ∧
      table.finalTally = .ok (tally.applyCarriedFinal table)) ∨
    ¬ table.Scorable ∧ table.finalTally = .error .addition := by
  have hsteps := Stage.foldlM_cases table.start_seated
    (.carriedMults :: table.stepStages)
  simp only [List.forall_mem_cons, ← scorable_iff, List.foldl_cons,
    foldl_stepStages] at hsteps
  rw [finalTally, stages, List.foldlM_append]
  rcases hsteps with ⟨⟨-, hscorable⟩, tally, htally, -, hboard⟩ |
    ⟨hbreaks, herror⟩
  · rw [htally]
    exact .inl ⟨hscorable, tally, rfl, hboard, rfl⟩
  · rw [herror]
    exact .inr ⟨fun hscorable => hbreaks ⟨trivial, hscorable⟩, rfl⟩

/-- The breakdown of a turn is read off the board after all scoring steps, with
what the turn before adds to its running score; or else scoring breaks off. -/
theorem score_cases (table : Table) :
    (table.Scorable ∧ ∃ log, table.score =
      .ok (({ table.stepped with
        running := table.carried table.stepped.running } : Scoreboard).breakdown,
        log)) ∨
    ¬ table.Scorable ∧ table.score = .error .addition := by
  rcases table.stages_cases with ⟨hscorable, tally, -, hboard, hfinal⟩ |
    ⟨hbreaks, hfinal⟩
  · refine .inl ⟨hscorable, (tally.applyCarriedFinal table).fullLog, ?_⟩
    have hlast : (tally.applyCarriedFinal table).breakdown =
        ({ tally.board with
          running := table.carried tally.board.running } :
            Scoreboard).breakdown :=
      congrArg Scoreboard.breakdown (tally.applyCarriedFinal_board table)
    rw [score, hfinal, ← hboard, ← hlast]
    rfl
  · refine .inr ⟨hbreaks, ?_⟩
    rw [score, hfinal]
    rfl

theorem scorable_of_score {breakdown : Breakdown} {log : List String}
    (hscore : table.score = .ok (breakdown, log)) :
    table.Scorable ∧ breakdown = ({ table.stepped with
      running := table.carried table.stepped.running } :
        Scoreboard).breakdown := by
  rcases table.score_cases with ⟨hscorable, lines, hok⟩ | ⟨-, herror⟩
  · cases hscore.symm.trans hok
    exact ⟨hscorable, rfl⟩
  · cases hscore.symm.trans herror

theorem Scorable.score (hscorable : table.Scorable) : ∃ log, table.score =
    .ok (({ table.stepped with
      running := table.carried table.stepped.running } : Scoreboard).breakdown,
      log) := by
  rcases table.score_cases with ⟨-, hok⟩ | ⟨hbreaks, -⟩
  · exact hok
  · exact absurd hscorable hbreaks

theorem Scorable.tally (hscorable : table.Scorable) : ∃ tally,
    (Stage.carriedMults :: table.stepStages).foldlM
      (fun tally stage => stage.apply table tally)
      (Tally.start table.cards) = .ok tally ∧
    tally.board = table.stepped := by
  rcases table.stages_cases with ⟨-, tally, htally, hboard, -⟩ | ⟨hbreaks, -⟩
  · exact ⟨tally, htally, hboard⟩
  · exact absurd hscorable hbreaks

end Table

end Tableau
