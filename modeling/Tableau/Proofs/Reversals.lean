import Tableau.Proofs.Numbering

/-!
What taking effects back moves.  A run is recorded with every move that it
reverses and the card that the reverse moves.  As long as the play numbers are in
order, with respect to the moves that can still be reversed, that card is the one
of the recorded move.  Main statement: `recordReversals_own`.
-/

namespace Tableau

/-- The reverse of a recorded move, and the card that it has moved. -/
structure Reversed where
  move : Move
  card : Card
deriving DecidableEq, Repr

def Reversed.Own (reversed : Reversed) : Prop :=
  reversed.card.id = reversed.move.card

/-- Those of the moves that are made when they are carried out one after the
other, each with its card. -/
def Table.reversed (table : Table) (next : PlayId) :
    List Move → Checked (List Reversed)
  | [] => pure []
  | move :: rest => do
      match ← table.carryOut next move with
      | none => table.reversed next rest
      | some (_, moved, later) => do
          let others ← moved.reversed later rest
          pure ((table.takeOut? move).toList.map
            (fun taken => ⟨move, taken.1⟩) ++ others)

def Effect.undoable (effect : Effect) : List Move :=
  effect.reversedMoves.map Move.inverse

section Table

variable {table after : Table} {next later : PlayId}
  {effects : Multiset PlayId} {records : Multiset Move} {moves : List Move}

/-- With the play numbers in order, taking moves back moves their own cards. -/
theorem Ledger.Numbered.reversed_own
    (hnumbered : Ledger.Numbered
      ⟨table.placements, effects, records + (moves.map Move.inverse)⟩ next)
    (hcarry : table.carryOutAll next moves = .ok (after, later)) :
    ∃ all, table.reversed next moves = .ok all ∧
      ∀ reversed ∈ all, reversed.Own := by
  induction moves generalizing table next with
  | nil => exact ⟨[], rfl, by simp⟩
  | cons move rest ih =>
      rw [List.map_cons, ← Multiset.cons_coe, Multiset.add_cons] at hnumbered
      rw [Table.carryOutAll, bind_eq_ok_iff] at hcarry
      obtain ⟨answer, hone, hrest⟩ := hcarry
      rw [Table.reversed, hone]
      cases answer with
      | none =>
          exact ih (hnumbered.mono le_rfl le_rfl (Multiset.le_cons_self _ _))
            hrest
      | some made =>
          obtain ⟨done, moved, middle⟩ := made
          obtain ⟨taken, others, hspec⟩ := Table.carryOut_eq_some hone
          obtain ⟨all, hall, hown⟩ := ih (hnumbered.undone hspec) hrest
          obtain ⟨card, left, rest, htaken, -⟩ := Table.carryOut_cards hone
          have hout := Table.takeOut?_eq_some htaken
          have hmem : ⟨move.source, left, card⟩ ∈ table.placements :=
            hout.placements ▸ Multiset.mem_cons_self _ _
          have hcard : card.id = move.card :=
            hnumbered.picks_card (Multiset.mem_cons_self _ _) hmem hout.picks
          refine ⟨⟨move, card⟩ :: all, ?_, ?_⟩
          · change ((moved.reversed middle _) >>= _) = _
            rw [hall, htaken]
            rfl
          · intro reversed hreversed
            rcases List.mem_cons.mp hreversed with rfl | hreversed
            · exact hcard
            · exact hown reversed hreversed

end Table

namespace Game

def reversals (game : Game) : PlayerAction → Checked (List Reversed)
  | .removeEffect play =>
      match game.table.effectAt? play with
      | none => pure []
      | some effect =>
          (game.table.withoutEffect play).reversed game.nextPlay
            effect.reversedMoves
  | _ => pure []

/-- Carry out actions one after the other, and list all that they take back. -/
def recordReversals : Game → List PlayerAction → Checked (List Reversed × Game)
  | game, [] => pure ([], game)
  | game, action :: rest => do
      let taken ← game.reversals action
      let (_, after) ← game.perform action
      let (later, final) ← recordReversals after rest
      pure (taken ++ later, final)

variable {game after : Game}

theorem recalls_undoable : Recalls Effect.undoable :=
  ⟨fun _ => le_rfl, reversedMoves_le⟩

theorem reversals_own {action : PlayerAction}
    {result : Except Refusal Answer}
    (hnumbered : (game.ledgerOf Effect.undoable).Numbered game.nextPlay)
    (hperform : game.perform action = .ok (result, after)) :
    ∃ all, game.reversals action = .ok all ∧
      ∀ reversed ∈ all, reversed.Own := by
  cases action with
  | removeEffect play =>
      simp only [perform, bind_eq_ok_iff] at hperform
      obtain ⟨⟨outcome, moved⟩, hremove, -⟩ := hperform
      rcases removeEffect_eq_ok.mp hremove with
        ⟨hnone, -, -⟩ | ⟨effect, -, hremoved⟩
      · exact ⟨[], by rw [reversals, hnone]; rfl, by simp⟩
      · rw [reversals, hremoved.found]
        exact (hremoved.numbered_rest recalls_undoable hnumbered).reversed_own
          hremoved.undone
  | _ => exact ⟨[], rfl, by simp⟩

/-- With the play numbers in order, a run moves no card but the recorded one when
it takes an effect back. -/
theorem recordReversals_own {actions : List PlayerAction}
    (hnumbered : (game.ledgerOf Effect.undoable).Numbered game.nextPlay)
    (hrun : game.run actions = .ok after) :
    ∃ all, recordReversals game actions = .ok (all, after) ∧
      ∀ reversed ∈ all, reversed.Own := by
  induction actions generalizing game with
  | nil =>
      obtain rfl := run_nil_eq_ok_iff.mp hrun
      exact ⟨[], rfl, by simp⟩
  | cons action rest ih =>
      obtain ⟨result, middle, hperform, hrest⟩ := run_cons_eq_ok_iff.mp hrun
      obtain ⟨taken, htaken, hown⟩ := reversals_own hnumbered hperform
      obtain ⟨others, hothers, hlater⟩ :=
        ih (perform_ledgerOf_numbered recalls_undoable hnumbered hperform) hrest
      refine ⟨taken ++ others, ?_, ?_⟩
      · rw [recordReversals, htaken, hperform]
        simp only [bind_eq_ok_iff]
        exact ⟨_, rfl, _, rfl, _, hothers, rfl⟩
      · intro reversed hreversed
        rcases List.mem_append.mp hreversed with hhead | htail
        · exact hown reversed hhead
        · exact hlater reversed htail

end Game

end Tableau
