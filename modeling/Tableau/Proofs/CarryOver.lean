import Tableau.Proofs.Trace

/-!
The carry-over of a game.  The end of a turn gathers it afresh from the effects
that were put into play in this turn and are still there, and no other action
touches it until the next turn ends.  Main statement: `run_carry`.
-/

namespace Tableau

/-- One of the steps put the effect into play, and no turn has ended since. -/
def BoundThisTurn (steps : List Performed) (effect : Effect) : Prop :=
  ∃ earlier step later, steps = earlier ++ step :: later ∧
    step.bound? = some effect ∧ ∀ other ∈ later, other.action ≠ .endTurn

theorem BoundThisTurn.append {steps : List Performed} {effect : Effect}
    {step : Performed} (hbound : BoundThisTurn steps effect)
    (hstays : step.action ≠ .endTurn) :
    BoundThisTurn (steps ++ [step]) effect := by
  obtain ⟨earlier, first, later, rfl, hfirst, hlater⟩ := hbound
  refine ⟨earlier, first, later ++ [step], by simp, hfirst, ?_⟩
  intro other hother
  rcases List.mem_append.mp hother with hother | hother
  · exact hlater other hother
  · rw [List.mem_singleton.mp hother]
    exact hstays

namespace Game

variable {game after : Game} {action : PlayerAction}
  {result : Except Refusal Answer} {effect : Effect}

theorem perform_carry_eq (hstays : action ≠ .endTurn)
    (hperform : game.perform action = .ok (result, after)) :
    after.table.carry = game.table.carry ∧ after.retired = game.retired := by
  rcases perform_eq_ok hperform with ⟨-, -, rfl⟩ | ⟨answer, -, haccepted⟩
  · exact ⟨rfl, rfl⟩
  · cases haccepted with
    | deckStocked cards => exact ⟨rfl, rfl⟩
    | cardPlayed hplayed => exact ⟨hplayed.carry_eq, by rw [hplayed.frame]⟩
    | deckPlayed _ hplayed => exact ⟨hplayed.carry_eq, by rw [hplayed.frame]⟩
    | effectAllowed _ => exact ⟨rfl, rfl⟩
    | effectPlayed hplayed =>
        exact ⟨by rw [hplayed.table_frame], by rw [hplayed.frame]⟩
    | cardRemoved hremoved =>
        exact ⟨by rw [hremoved.frame], by rw [hremoved.frame]⟩
    | effectRemoved hremoved =>
        exact ⟨by rw [hremoved.table_frame], by rw [hremoved.frame]⟩
    | turnEnded _ => exact absurd rfl hstays

theorem run_carry_eq {turn : List PlayerAction} (hturn : .endTurn ∉ turn)
    (hrun : game.run turn = .ok after) :
    after.table.carry = game.table.carry ∧ after.retired = game.retired := by
  refine run_induction_mem (motive := fun current =>
    current.table.carry = game.table.carry ∧ current.retired = game.retired)
    ?_ ⟨rfl, rfl⟩ hrun
  rintro current next action hmem result ⟨hcarry, hretired⟩ hperform
  obtain ⟨hsame, hkept⟩ :=
    perform_carry_eq (fun heq => hturn (heq ▸ hmem)) hperform
  exact ⟨hsame.trans hcarry, hkept.trans hretired⟩

theorem perform_effects (hperform : game.perform action = .ok (result, after))
    (heffect : effect ∈ after.table.effects) :
    (effect ∈ game.table.effects ∧ action ≠ .endTurn) ∨
      Performed.bound? ⟨game, action, result, after⟩ = some effect := by
  rcases mem_effects_of_perform hperform heffect with
    hold | ⟨script, choice, first, moves, rest, rfl, rfl, hplayed, rfl⟩
  · exact .inl hold
  · right
    rw [Performed.bound?, hplayed.effects, List.getLast?_concat]

/-- The effects in play are those of this turn. -/
theorem boundThisTurn_of_trace {rules : Rules} {actions : List PlayerAction}
    {steps : List Performed}
    (htrace : trace { rules } actions = .ok (steps, game))
    (heffect : effect ∈ game.table.effects) : BoundThisTurn steps effect := by
  revert effect
  refine trace_induction (motive := fun done current =>
    ∀ {effect}, effect ∈ current.table.effects → BoundThisTurn done effect)
    ?_ ?_ htrace
  · intro done step _ hgenuine hbound effect heffect
    rcases perform_effects hgenuine heffect with ⟨hold, hstays⟩ | hnew
    · exact (hbound hold).append hstays
    · exact ⟨done, step, [], rfl, hnew, by simp⟩
  · intro effect heffect
    cases heffect

/-- What a report announces is what the effects in play promise. -/
theorem report_carry {report : Report} (hreport : game.report = .ok report) :
    report.carry = CarryOver.collect game.table.effects := by
  simp only [Game.report, Table.report, bind_eq_ok_iff, pure_eq_ok_iff] at hreport
  obtain ⟨⟨breakdown, log⟩, -, limits, -, rfl⟩ := hreport
  rfl

/-- In the first turn there is no carry-over.  In every later one it is what the
end of the turn before has answered: what the effects promise that were in play
then, all put into play in that turn, and what the report announced last.  The
turn before is that of the last retired effects. -/
theorem run_carry {rules : Rules} {actions : List PlayerAction}
    (hrun : run { rules } actions = .ok game) :
    (.endTurn ∉ actions → game.table.carry = none) ∧
      ∀ earlier turn, actions = earlier ++ .endTurn :: turn →
        .endTurn ∉ turn →
        ∃ steps ended began, trace { rules } earlier = .ok (steps, ended) ∧
          ended.perform .endTurn =
            .ok (.ok (.carried game.table.carry), began) ∧
          began.run turn = .ok game ∧
          game.retired = ended.retired ++ ended.table.effects ∧
          game.table.carry = CarryOver.collect ended.table.effects ∧
          (∀ report, ended.report = .ok report →
            report.carry = game.table.carry) ∧
          ∀ effect ∈ ended.table.effects, BoundThisTurn steps effect := by
  refine ⟨fun hfirst => (run_carry_eq hfirst hrun).1, ?_⟩
  rintro earlier turn rfl hturn
  obtain ⟨ended, hearlier, hlast⟩ := run_append_eq_ok_iff.mp hrun
  obtain ⟨result, began, hend, hrest⟩ := run_cons_eq_ok_iff.mp hlast
  obtain ⟨rfl, hended⟩ := perform_endTurn_eq_ok hend
  obtain ⟨hcarry, hretired⟩ := run_carry_eq hturn hrest
  have hcollect : game.table.carry = CarryOver.collect ended.table.effects := by
    rw [hcarry, hended.frame]
  have hblock : game.retired = ended.retired ++ ended.table.effects := by
    rw [hretired, hended.frame]
  obtain ⟨steps, htrace⟩ := exists_trace hearlier
  refine ⟨steps, ended, began, htrace, ?_, hrest, hblock, hcollect, ?_, ?_⟩
  · rw [hcollect]
    exact hend
  · intro report hreport
    rw [report_carry hreport, hcollect]
  · exact fun effect heffect => boundThisTurn_of_trace htrace heffect

def playPromise (promise : Promise) : PlayerAction :=
  .playEffect { id := ⟨0⟩, name := "Promise", promise := some promise } {}

/-- The first turn promises to double the score of the second one, and the second
turn that all cards of the third one are free; another promise of the second turn
is taken back. -/
def promises : List PlayerAction :=
  [playPromise { mult := ⟨0x4000000000000000⟩ }, .endTurn,
    playPromise { openCards := true },
    playPromise { mult := ⟨0x4000000000000000⟩ }, .removeEffect ⟨1⟩]

/-- In the third turn all cards are free, and nothing is doubled. -/
theorem run_carry_promises :
    ∃ game, run {} (promises ++ [.endTurn, .stockDeck []]) = .ok game ∧
      game.table.carry = some { openCards := true } ∧
      ∃ steps ended began, trace {} promises = .ok (steps, ended) ∧
        ended.perform .endTurn =
          .ok (.ok (.carried game.table.carry), began) ∧
        began.run [.stockDeck []] = .ok game ∧
        game.retired = ended.retired ++ ended.table.effects ∧
        game.table.carry = CarryOver.collect ended.table.effects ∧
        (∀ report, ended.report = .ok report →
          report.carry = game.table.carry) ∧
        ∀ effect ∈ ended.table.effects, BoundThisTurn steps effect := by
  obtain ⟨game, hrun, hcarry⟩ : ∃ game,
      run {} (promises ++ [.endTurn, .stockDeck []]) = .ok game ∧
        game.table.carry = some { openCards := true } := ⟨_, rfl, rfl⟩
  obtain ⟨-, hlater⟩ := run_carry hrun
  exact ⟨game, hrun, hcarry, hlater promises _ rfl (by simp)⟩

end Game

end Tableau
