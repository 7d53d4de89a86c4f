import Mathlib.Algebra.BigOperators.Group.Multiset.Basic
import Mathlib.Algebra.GroupWithZero.Nat
import Tableau.Proofs.Trace

/-!
The strokes of a game as a balance.  What was paid for an effect counts as long as
the effect is in play or retired, and stays spent if the effect is taken back
under a rule that gives nothing back.  So a refund never asks for more strokes
than were paid.  Main statement: `run_strokes`.
-/

namespace Tableau

def paidTotal (effects : List Effect) : Nat :=
  (effects.map fun effect => effect.paid.toNat).sum

section paidTotal

variable {effects others : List Effect} {effect : Effect}
  {wanted : Effect → Bool}

@[simp] theorem paidTotal_nil : paidTotal [] = 0 := rfl

@[simp] theorem paidTotal_append :
    paidTotal (effects ++ others) = paidTotal effects + paidTotal others := by
  simp [paidTotal]

@[simp] theorem paidTotal_singleton : paidTotal [effect] = effect.paid.toNat := by
  simp [paidTotal]

theorem paidTotal_eraseP (hfound : effects.find? wanted = some effect) :
    paidTotal effects = effect.paid.toNat + paidTotal (effects.eraseP wanted) := by
  have hsum := congrArg Multiset.sum
    (coe_map_eq_cons (fun effect : Effect => effect.paid.toNat) hfound)
  rwa [Multiset.sum_cons, Multiset.sum_coe, Multiset.sum_coe] at hsum

end paidTotal

namespace Performed

/-- The effect that the step has taken back without giving back its strokes. -/
def forfeited (step : Performed) : List Effect :=
  match step.action, step.result with
  | .removeEffect _, .ok (.effect effect) =>
      if effect.script.reversalRule.refunds then [] else [effect]
  | _, _ => []

end Performed

namespace Game

variable {game after : Game} {lost : List Effect}

/-- The strokes of the game are those paid for the effects in play, for the
retired ones, and for those lost. -/
def Balanced (game : Game) (lost : List Effect) : Prop :=
  game.strokes.toNat =
    paidTotal game.table.effects + paidTotal game.retired + paidTotal lost

/-- What was paid for an effect in play has not been given back yet. -/
theorem Balanced.paid_le (hbalanced : game.Balanced lost) {play : PlayId}
    {effect : Effect} (hfound : game.table.effectAt? play = some effect) :
    effect.paid ≤ game.strokes := by
  have htotal := paidTotal_eraseP hfound
  rw [Balanced] at hbalanced
  rw [UInt32.le_iff_toNat_le]
  omega

theorem CardPlayed.balanced {card : Card} (hplayed : game.CardPlayed card after)
    (hbalanced : game.Balanced lost) : after.Balanced lost := by
  rw [Balanced, hplayed.frame, hplayed.table_frame]
  exact hbalanced

theorem CardRemoved.balanced {play : PlayId} {dest : Zone} {seat : InPlay}
    {rest : Multiset Placement}
    (hremoved : game.CardRemoved play dest seat rest after)
    (hbalanced : game.Balanced lost) : after.Balanced lost := by
  rw [Balanced, hremoved.frame]
  exact hbalanced

theorem EffectPlayed.balanced {script : Script} {choice : Choice}
    {first : PlayId} {moves : List Move} {rest : Table}
    (hplayed : game.EffectPlayed script choice first moves rest after)
    (hbalanced : game.Balanced lost) : after.Balanced lost := by
  have hpaid := addCounts_eq_ok_iff.mp hplayed.paid
  have hretired : after.retired = game.retired := by rw [hplayed.frame]
  rw [Balanced] at hbalanced ⊢
  rw [hplayed.effects, hretired, hpaid, paidTotal_append, paidTotal_singleton]
  dsimp only [Effect.bind]
  omega

theorem EffectRemoved.balanced {play : PlayId} {effect : Effect}
    (hremoved : game.EffectRemoved play effect after)
    (hbalanced : game.Balanced lost) :
    after.Balanced
      (lost ++ if effect.script.reversalRule.refunds then [] else [effect]) := by
  have htotal := paidTotal_eraseP hremoved.found
  have hrefund := refund_toNat (hbalanced.paid_le hremoved.found)
  have hretired : after.retired = game.retired := by rw [hremoved.frame]
  rw [Balanced] at hbalanced ⊢
  rw [hremoved.effects, hretired, hremoved.refunded, paidTotal_append]
  split
  · rw [paidTotal_nil]
    omega
  · rw [paidTotal_singleton]
    omega

theorem TurnEnded.balanced (hended : game.TurnEnded after)
    (hbalanced : game.Balanced lost) : after.Balanced lost := by
  rw [Balanced] at hbalanced ⊢
  rw [hended.frame]
  dsimp only
  rw [paidTotal_append, paidTotal_nil]
  omega

/-- Every action keeps the balance, with what it forfeits among the lost. -/
theorem Balanced.perform {action : PlayerAction}
    {result : Except Refusal Answer} (hbalanced : game.Balanced lost)
    (hperform : game.perform action = .ok (result, after)) :
    after.Balanced
      (lost ++ Performed.forfeited ⟨game, action, result, after⟩) := by
  rcases perform_eq_ok hperform with
    ⟨refusal, rfl, rfl⟩ | ⟨answer, rfl, haccepted⟩
  · have hnone : Performed.forfeited ⟨after, action, .error refusal, after⟩ =
        [] := by
      cases action <;> rfl
    rw [hnone, List.append_nil]
    exact hbalanced
  · cases haccepted with
    | effectRemoved hremoved => exact hremoved.balanced hbalanced
    | deckStocked cards =>
        rw [Performed.forfeited, List.append_nil]
        exact hbalanced
    | cardPlayed hplayed =>
        simpa [Performed.forfeited] using hplayed.balanced hbalanced
    | deckPlayed _ hplayed =>
        simpa [Performed.forfeited] using hplayed.balanced hbalanced
    | effectAllowed _ => simpa [Performed.forfeited] using hbalanced
    | effectPlayed hplayed =>
        simpa [Performed.forfeited] using hplayed.balanced hbalanced
    | cardRemoved hremoved =>
        simpa [Performed.forfeited] using hremoved.balanced hbalanced
    | turnEnded hended =>
        simpa [Performed.forfeited] using hended.balanced hbalanced

theorem balanced_run {rules : Rules} {actions : List PlayerAction}
    {steps : List Performed}
    (htrace : trace { rules } actions = .ok (steps, game)) :
    game.Balanced (steps.flatMap Performed.forfeited) := by
  have hstart : Balanced { rules } [] := rfl
  refine trace_induction (motive := fun done current =>
    current.Balanced (done.flatMap Performed.forfeited)) ?_ hstart htrace
  intro done step _ hgenuine hbalanced
  rw [List.flatMap_append, List.flatMap_singleton]
  exact hbalanced.perform hgenuine

/-- In every game that a run leads to, the strokes are those paid for the effects
in play, for the retired effects, and for the effects that were taken back in the
run without giving them back.  Taking an effect back asks for no more strokes
than there are, and the refund is exact. -/
theorem run_strokes {rules : Rules} {actions : List PlayerAction}
    (hrun : run { rules } actions = .ok game) :
    ∃ steps, trace { rules } actions = .ok (steps, game) ∧
      game.strokes.toNat = paidTotal game.table.effects +
        paidTotal game.retired + paidTotal (steps.flatMap Performed.forfeited) ∧
      ∀ play effect after, game.removeEffect play = .ok (.ok effect, after) →
        effect.paid ≤ game.strokes ∧
        (effect.script.reversalRule.refunds = true →
          after.strokes.toNat + effect.paid.toNat = game.strokes.toNat) := by
  obtain ⟨steps, htrace⟩ := exists_trace hrun
  have hbalanced := balanced_run htrace
  refine ⟨steps, htrace, hbalanced, ?_⟩
  intro play effect after hremove
  rcases removeEffect_eq_ok.mp hremove with
    ⟨-, hrefused, -⟩ | ⟨other, hsame, hremoved⟩
  · cases hrefused
  · cases hsame
    have hpaid := hbalanced.paid_le hremoved.found
    refine ⟨hpaid, fun hrefunds => ?_⟩
    rw [hremoved.refunded, if_pos hrefunds]
    exact refund_toNat hpaid

/-- One effect retires, one is taken back without its price and one with it, so
that a single one of four is left in play. -/
def fourPrices : List PlayerAction :=
  [.playEffect { id := ⟨1⟩, name := "Sitting", cost := 2 } {},
    .playEffect
      { id := ⟨2⟩, name := "Wager", cost := 3
        reversal := some { refunds := false } } {},
    .removeEffect ⟨1⟩, .endTurn,
    .playEffect { id := ⟨3⟩, name := "Session", cost := 1 } {},
    .playEffect { id := ⟨4⟩, name := "Touch-up", cost := 4 } {},
    .removeEffect ⟨1⟩]

/-- The strokes are those of the effect in play, the retired one and the one
that was lost: 1 + 2 + 3. -/
theorem run_strokes_fourPrices :
    ∃ game steps, run {} fourPrices = .ok game ∧ game.strokes = 6 ∧
      trace {} fourPrices = .ok (steps, game) ∧
      game.strokes.toNat = paidTotal game.table.effects +
        paidTotal game.retired + paidTotal (steps.flatMap Performed.forfeited) ∧
      ∀ play effect after, game.removeEffect play = .ok (.ok effect, after) →
        effect.paid ≤ game.strokes ∧
        (effect.script.reversalRule.refunds = true →
          after.strokes.toNat + effect.paid.toNat = game.strokes.toNat) := by
  obtain ⟨game, hrun, hstrokes⟩ : ∃ game, run {} fourPrices = .ok game ∧
      game.strokes = 6 := ⟨_, rfl, rfl⟩
  obtain ⟨steps, hbalance⟩ := run_strokes hrun
  exact ⟨game, steps, hrun, hstrokes, hbalance⟩

end Game

end Tableau
