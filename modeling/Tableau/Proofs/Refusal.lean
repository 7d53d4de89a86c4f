import Tableau.Proofs.Actions

/-!
Refused actions.  Nothing of a refused action remains, although playing an effect
hands out play numbers before its targets are moved: a selection that has passed
its check can be moved to the last target.  Main statement:
`perform_refused`.
-/

namespace Tableau

namespace Game

variable {game : Game} {script : Script} {choice : Choice}

/-- A legal selection is moved to the last target, unless the play numbers run
out. -/
theorem relocate_of_valid {table : Table} {next later : PlayId}
    {outcome : Except TargetFault (Table × List Move)}
    (hvalid : script.target.validate table choice.targets = .ok ())
    (hmoved : relocate script choice table next = .ok (outcome, later)) :
    ∃ after moves, outcome = .ok (after, moves) ∧
      moves.map Move.card = movedTargets script choice := by
  cases outcome with
  | error fault => exact absurd hmoved (relocate_ne_error hvalid)
  | ok made =>
      obtain ⟨after, moves⟩ := made
      obtain ⟨dest, -, hrelocated⟩ := relocate_eq_ok hmoved
      exact ⟨after, moves, rfl, hrelocated.map_card⟩

theorem playEffect_refused_iff {refusal : Refusal} :
    (∃ after, game.playEffect script choice = .ok (.error refusal, after)) ↔
      game.Refuses script choice refusal := by
  constructor
  · rintro ⟨after, hplay⟩
    rcases playEffect_eq_ok hplay with
      ⟨other, hresult, -, hrefuses⟩ | ⟨hresult, -⟩
    · rw [Except.error.inj hresult]
      exact hrefuses
    · cases hresult
  · rintro (hbarred | ⟨hallowed, fault, hvalid, rfl⟩)
    · refine ⟨game, ?_⟩
      rw [playEffect, bind_eq_ok_iff]
      exact ⟨_, hbarred, rfl⟩
    · refine ⟨game, ?_⟩
      rw [playEffect, bind_eq_ok_iff]
      refine ⟨_, hallowed, ?_⟩
      simp only [hvalid]
      rfl

/-- A refused action leaves every part of the game as it was.  The play of an
effect is refused exactly if the check without playing it refuses it or, where
that passes, the selection has a fault, and then for the same reason.  The
targets of a selection without a fault are all moved. -/
theorem perform_refused (game : Game) :
    (∀ action refusal after,
      game.perform action = .ok (.error refusal, after) → after = game) ∧
    (∀ script choice refusal,
      (∃ after, game.playEffect script choice = .ok (.error refusal, after)) ↔
        game.Refuses script choice refusal) ∧
    ∀ script choice next outcome later,
      script.target.validate game.table choice.targets = .ok () →
      relocate script choice game.table next = .ok (outcome, later) →
      ∃ after moves, outcome = .ok (after, moves) ∧
        moves.map Move.card = movedTargets script choice := by
  refine ⟨?_, ?_, ?_⟩
  · intro action refusal after hperform
    rcases perform_eq_ok hperform with ⟨-, -, hafter⟩ | ⟨answer, haccepted, -⟩
    · exact hafter
    · cases haccepted
  · intro script choice refusal
    exact playEffect_refused_iff
  · intro script choice next outcome later hvalid hmoved
    exact relocate_of_valid hvalid hmoved

def twoPrints : Game :=
  { table :=
      { cards := [⟨⟨0⟩, ⟨⟨2⟩, "Mia", .alt, 4⟩, false⟩]
        deck := [⟨⟨1⟩, "Roxy", .goth, 3⟩, ⟨⟨1⟩, "Roxy", .goth, 5⟩] }
    nextPlay := ⟨1⟩ }

/-- The card in play cannot be called from the deck, but one of those in the deck
can be. -/
theorem perform_refused_twoPrints :
    (∃ after,
      twoPrints.playEffect (.mover "Call" .deck .play) { targets := [⟨2⟩] } =
        .ok (.error (.target (.notInZone ⟨2⟩ .deck)), after) ∧
      after = twoPrints) ∧
    ∃ after moves later,
      relocate (.mover "Call" .deck .play) { targets := [⟨1⟩] }
        twoPrints.table ⟨2⟩ = .ok (.ok (after, moves), later) ∧
      moves.map Move.card = [⟨1⟩] := by
  obtain ⟨hkept, hrefused, hmovable⟩ := perform_refused twoPrints
  constructor
  · have hrefuses : twoPrints.Refuses (.mover "Call" .deck .play)
        { targets := [⟨2⟩] } (.target (.notInZone ⟨2⟩ .deck)) :=
      .inr ⟨rfl, _, rfl, rfl⟩
    obtain ⟨after, hplay⟩ := (hrefused _ _ _).mpr hrefuses
    refine ⟨after, hplay, ?_⟩
    apply hkept (.playEffect _ _)
    rw [perform, hplay]
    rfl
  · obtain ⟨outcome, later, hmoved⟩ : ∃ outcome later,
        relocate (.mover "Call" .deck .play) { targets := [⟨1⟩] }
          twoPrints.table ⟨2⟩ = .ok (outcome, later) := ⟨_, _, rfl⟩
    obtain ⟨after, moves, rfl, hcards⟩ := hmovable _ _ _ _ _ rfl hmoved
    exact ⟨after, moves, later, hmoved, hcards⟩

end Game

end Tableau
