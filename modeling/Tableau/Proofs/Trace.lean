import Tableau.Proofs.Actions

/-!
Runs step by step.  Every action of a run is written down with its answer and the
games before and after it, so that a statement can speak of what happened in a
run, and in which order.  Main statements: `exists_trace` and `trace_induction`.
-/

namespace Tableau

/-- An action of a run, with its answer and the games before and after it. -/
structure Performed where
  before : Game
  action : PlayerAction
  result : Except Refusal Answer
  after : Game

namespace Performed

/-- The step is what its action does. -/
def Genuine (step : Performed) : Prop :=
  step.before.perform step.action = .ok (step.result, step.after)

def bound? (step : Performed) : Option Effect :=
  match step.action, step.result with
  | .playEffect _ _, .ok _ => step.after.table.effects.getLast?
  | _, _ => none

end Performed

namespace Game

/-- Carry out actions one after the other, and write down every step. -/
def trace : Game → List PlayerAction → Checked (List Performed × Game)
  | game, [] => pure ([], game)
  | game, action :: rest => do
      let (result, after) ← game.perform action
      let (steps, final) ← after.trace rest
      pure (⟨game, action, result, after⟩ :: steps, final)

variable {game after : Game} {actions : List PlayerAction}
  {steps : List Performed}

theorem exists_trace (hrun : game.run actions = .ok after) :
    ∃ steps, game.trace actions = .ok (steps, after) := by
  induction actions generalizing game with
  | nil =>
      obtain rfl := run_nil_eq_ok_iff.mp hrun
      exact ⟨[], rfl⟩
  | cons action rest ih =>
      obtain ⟨result, middle, hperform, hrest⟩ := run_cons_eq_ok_iff.mp hrun
      obtain ⟨steps, hsteps⟩ := ih hrest
      refine ⟨⟨game, action, result, middle⟩ :: steps, ?_⟩
      simp only [trace, hperform, bind_eq_ok_iff]
      exact ⟨_, rfl, _, hsteps, rfl⟩

/-- A fact about the steps so far and the game that they led to, which every step
of a run keeps, holds of all steps of the run and the game in the end. -/
theorem trace_induction {motive : List Performed → Game → Prop}
    (hstep : ∀ (done : List Performed), ∀ step ∈ steps, step.Genuine →
      motive done step.before → motive (done ++ [step]) step.after)
    (hstart : motive [] game)
    (htrace : game.trace actions = .ok (steps, after)) : motive steps after := by
  -- The steps so far grow along the run, so the induction is for any of them.
  suffices hall : ∀ done, motive done game → motive (done ++ steps) after from
    hall [] hstart
  clear hstart
  induction actions generalizing game steps with
  | nil =>
      simp only [trace, pure_eq_ok_iff, Prod.mk.injEq] at htrace
      obtain ⟨rfl, rfl⟩ := htrace
      intro done hdone
      simpa using hdone
  | cons action rest ih =>
      simp only [trace, bind_eq_ok_iff, pure_eq_ok_iff, Prod.mk.injEq] at htrace
      obtain ⟨⟨result, middle⟩, hperform, ⟨later, final⟩, hlater, rfl, rfl⟩ :=
        htrace
      intro done hdone
      have hfirst := hstep done ⟨game, action, result, middle⟩
        List.mem_cons_self hperform hdone
      have hrest := ih (fun done step hmem =>
        hstep done step (List.mem_cons_of_mem _ hmem)) hlater _ hfirst
      rwa [List.append_assoc, List.singleton_append] at hrest

end Game

end Tableau
