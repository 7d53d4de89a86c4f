import Tableau.Proofs.Actions

/-!
Cards are conserved: every action keeps the cards of the table, wherever they
lie, but for those that it openly adds or replaces.  Main statement:
`perform_holdings`.
-/

namespace Tableau

namespace Table

def holdings (table : Table) : Multiset Card :=
  ↑table.deck + ↑table.discard + ↑(table.cards.map InPlay.card)

theorem holdings_eq (table : Table) :
    table.holdings = table.placements.map Placement.card := by
  rw [map_card_placements, holdings, Multiset.add_comm, ← Multiset.coe_add,
    ← Multiset.coe_add, Multiset.add_assoc]

/-- A move that is made keeps the cards. -/
theorem Carried.holdings {table after : Table} {next later : PlayId}
    {move done : Move} {taken : Placement} {rest : Multiset Placement}
    (hspec : table.Carried next move done after later taken rest) :
    after.holdings = table.holdings := by
  rw [holdings_eq, holdings_eq, hspec.before, hspec.placed, Multiset.map_cons,
    Multiset.map_cons]
  rfl

theorem holdings_carryOutAll {table after : Table} {next later : PlayId}
    {moves : List Move}
    (hcarry : table.carryOutAll next moves = .ok (after, later)) :
    after.holdings = table.holdings := by
  refine carryOutAll_induction
    (motive := fun current _ _ => current.holdings = table.holdings)
    (fun _ _ _ _ hkept _ => hkept) ?_ rfl hcarry
  intro current moved number middle move done rest hkept hone
  obtain ⟨taken, others, hspec⟩ := carryOut_eq_some hone
  exact hspec.holdings.trans hkept

theorem Relocated.holdings {source dest : Zone} {targets : List CardId}
    {table after : Table} {next later : PlayId} {moves : List Move}
    (hmoved : Relocated source dest targets table next moves after later) :
    after.holdings = table.holdings := by
  induction hmoved with
  | nil => rfl
  | @cons card rest table moved after next middle later move moves hcarry htail
      ih =>
      obtain ⟨taken, others, hspec⟩ := carryOut_eq_some hcarry
      rw [ih, ← hspec.holdings, holdings_eq, holdings_eq, placements_welcome]

end Table

namespace PlayerAction

/-- The cards that an action brings into the game. -/
def gained : PlayerAction → Except Refusal Answer → List Card
  | .stockDeck cards, .ok _ => cards
  | .playCard card, .ok _ => [card]
  | _, _ => []

/-- The cards that leave the game with an action: a card that is played takes the
place of one with the same identity in the deck or the discard pile. -/
def replaced (table : Table) :
    PlayerAction → Except Refusal Answer → List Card
  | .playCard card, .ok _ => (table.withdrawn? card.id).toList
  | _, _ => []

end PlayerAction

namespace Game

theorem CardPlayed.holdings {game after : Game} {card : Card}
    (hplayed : game.CardPlayed card after) :
    after.table.holdings + (game.table.withdrawn? card.id).toList =
      game.table.holdings + [card] := by
  rw [Table.holdings_eq, Table.holdings_eq, hplayed.table,
    Table.placements_enter, Table.placements_remember, Multiset.map_cons]
  rcases game.table.placements_withdraw card.id with
    ⟨hnone, hsame⟩ | ⟨old, zone, hsome, -, htaken⟩
  · rw [hnone, hsame]
    simp [InPlay.placement, Multiset.add_comm]
  · rw [hsome, htaken, Multiset.map_cons]
    simp [InPlay.placement, Multiset.add_comm, Multiset.cons_swap]

/-- The first card of the deck with an identity is the one that playing it
takes. -/
theorem withdrawn?_of_find?_deck {table : Table} {id : CardId} {card : Card}
    (hfind : table.find? .deck id = some card) :
    card.id = id ∧ table.withdrawn? id = some card := by
  refine ⟨by simpa using List.find?_some hfind, ?_⟩
  simp [Table.withdrawn?, hfind]

theorem EffectPlayed.holdings {game after : Game} {script : Script}
    {choice : Choice} {first : PlayId} {moves : List Move} {rest : Table}
    (hplayed : game.EffectPlayed script choice first moves rest after) :
    after.table.holdings = game.table.holdings := by
  obtain ⟨dest, -, hmoved⟩ := relocate_eq_ok hplayed.moved
  rw [← hmoved.holdings, hplayed.table]
  rfl

theorem EffectRemoved.holdings {game after : Game} {play : PlayId}
    {effect : Effect} (hremoved : game.EffectRemoved play effect after) :
    after.table.holdings = game.table.holdings := by
  rw [Table.holdings_carryOutAll hremoved.undone]
  rfl

/-- Cards are conserved.  What an action leaves of the cards of a table is what
was there with the cards gained and without the cards replaced; only stocking
the deck and the accepted play of a card change the cards at all. -/
theorem perform_holdings {game after : Game} {action : PlayerAction}
    {result : Except Refusal Answer}
    (hperform : game.perform action = .ok (result, after)) :
    after.table.holdings + action.replaced game.table result =
      game.table.holdings + action.gained result := by
  rcases perform_eq_ok hperform with
    ⟨refusal, rfl, rfl⟩ | ⟨answer, rfl, haccepted⟩
  · cases action <;> rfl
  · cases haccepted with
    | deckStocked cards =>
        simp only [PlayerAction.replaced, PlayerAction.gained, stockDeck,
          Table.holdings, ← Multiset.coe_add, Multiset.coe_nil]
        ac_rfl
    | cardPlayed hplayed => exact hplayed.holdings
    | deckPlayed hfind hplayed =>
        -- The card that is played is the one that it replaces.
        obtain ⟨hid, hwithdrawn⟩ := withdrawn?_of_find?_deck hfind
        have hholdings := hplayed.holdings
        rw [hid, hwithdrawn] at hholdings
        simpa [PlayerAction.replaced, PlayerAction.gained] using hholdings
    | effectAllowed hallowed => rfl
    | effectPlayed hplayed =>
        simp [PlayerAction.replaced, PlayerAction.gained, hplayed.holdings]
    | cardRemoved hremoved =>
        simp [PlayerAction.replaced, PlayerAction.gained, Table.holdings_eq,
          hremoved.before, hremoved.placed, InPlay.placement]
    | effectRemoved hremoved =>
        simp [PlayerAction.replaced, PlayerAction.gained, hremoved.holdings]
    | turnEnded hended =>
        rw [hended.frame]
        simp [PlayerAction.replaced, PlayerAction.gained, Table.holdings]

/-- A card that is played in a new print takes the place of the old one. -/
theorem perform_holdings_of_reprint :
    ∃ after, perform { table := { deck := [⟨⟨1⟩, "Roxy", .goth, 3⟩] } }
        (.playCard ⟨⟨1⟩, "Roxy", .goth, 5⟩) = .ok (.ok (.played ⟨0⟩), after) ∧
      after.table.holdings + {⟨⟨1⟩, "Roxy", .goth, 3⟩} =
        {⟨⟨1⟩, "Roxy", .goth, 3⟩} + {⟨⟨1⟩, "Roxy", .goth, 5⟩} := by
  obtain ⟨after, hperform⟩ :
      ∃ after, perform { table := { deck := [⟨⟨1⟩, "Roxy", .goth, 3⟩] } }
        (.playCard ⟨⟨1⟩, "Roxy", .goth, 5⟩) = .ok (.ok (.played ⟨0⟩), after) :=
    ⟨_, rfl⟩
  exact ⟨after, hperform, perform_holdings hperform⟩

end Game

end Tableau
