import Tableau.Game.Run
import Tableau.Proofs.Placement
import Tableau.Proofs.Selection

/-!
What each action of a game does when it does not break off, the refusals
included, and how a fact about runs follows from its steps.  Statements about
games go through these and do not open the actions again.  Main statements:
`perform_eq_ok` and `run_induction`.
-/

namespace Tableau

namespace Table

/-- The name of a card that has just come into play enters the history. -/
def welcome (table : Table) (dest : Zone) : Table :=
  if dest = .play then
    match table.cards.getLast? with
    | some seat => table.remember seat.card.name
    | none => table
  else table

theorem welcome_eq (table : Table) (dest : Zone) :
    ∃ history, table.welcome dest = { table with history } := by
  unfold welcome
  split
  · split
    · exact ⟨_, rfl⟩
    · exact ⟨_, rfl⟩
  · exact ⟨_, rfl⟩

@[simp] theorem placements_welcome (table : Table) (dest : Zone) :
    (table.welcome dest).placements = table.placements := by
  obtain ⟨history, heq⟩ := table.welcome_eq dest
  rw [heq]
  rfl

@[simp] theorem cardsIn_welcome (table : Table) (dest zone : Zone) :
    (table.welcome dest).cardsIn zone = table.cardsIn zone := by
  obtain ⟨history, heq⟩ := table.welcome_eq dest
  rw [heq]
  cases zone <;> rfl

@[simp] theorem cards_welcome (table : Table) (dest : Zone) :
    (table.welcome dest).cards = table.cards := by
  obtain ⟨history, heq⟩ := table.welcome_eq dest
  rw [heq]

/-- Targets are moved one after the other, and the moves are listed as they are
made. -/
inductive Relocated (source dest : Zone) :
    List CardId → Table → PlayId → List Move → Table → PlayId → Prop where
  | nil {table : Table} {next : PlayId} :
      Relocated source dest [] table next [] table next
  | cons {card : CardId} {rest : List CardId} {table moved after : Table}
      {next middle later : PlayId} {move : Move} {moves : List Move}
      (hcarry : table.carryOut next { card, source, dest } =
        .ok (some (move, moved, middle)))
      (htail : Relocated source dest rest (moved.welcome dest) middle moves
        after later) :
      Relocated source dest (card :: rest) table next (move :: moves) after later

theorem Relocated.frame {source dest : Zone} {targets : List CardId}
    {table after : Table} {next later : PlayId} {moves : List Move}
    (hmoved : Relocated source dest targets table next moves after later) :
    after = { table with
      cards := after.cards, deck := after.deck, discard := after.discard,
      history := after.history } := by
  induction hmoved with
  | nil => rfl
  | @cons card rest table moved after next middle later move moves hcarry htail
      ih =>
      obtain ⟨taken, others, hspec⟩ := carryOut_eq_some hcarry
      obtain ⟨history, heq⟩ := moved.welcome_eq dest
      rw [heq] at ih
      rw [ih, hspec.frame]

theorem Relocated.map_card {source dest : Zone} {targets : List CardId}
    {table after : Table} {next later : PlayId} {moves : List Move}
    (hmoved : Relocated source dest targets table next moves after later) :
    moves.map Move.card = targets := by
  induction hmoved with
  | nil => rfl
  | cons hcarry htail ih =>
      obtain ⟨taken, others, hspec⟩ := carryOut_eq_some hcarry
      rw [List.map_cons, ih, hspec.card_eq]

theorem Relocated.zones {source dest : Zone} {targets : List CardId}
    {table after : Table} {next later : PlayId} {moves : List Move}
    (hmoved : Relocated source dest targets table next moves after later) :
    ∀ move ∈ moves, move.source = source ∧ move.dest = dest := by
  induction hmoved with
  | nil => simp
  | cons hcarry htail ih =>
      obtain ⟨taken, others, hspec⟩ := carryOut_eq_some hcarry
      exact List.forall_mem_cons.mpr ⟨⟨hspec.source_eq, hspec.dest_eq⟩, ih⟩

theorem Relocated.mem_cardsIn {source dest : Zone} {targets : List CardId}
    {table after : Table} {next later : PlayId} {moves : List Move}
    (hmoved : Relocated source dest targets table next moves after later)
    {zone : Zone} (hzone : zone ≠ dest) {card : Card}
    (hcard : card ∈ after.cardsIn zone) : card ∈ table.cardsIn zone := by
  induction hmoved with
  | nil => exact hcard
  | @cons id rest table moved after next middle later move moves hcarry htail
      ih =>
      obtain ⟨taken, others, hspec⟩ := carryOut_eq_some hcarry
      have hback := ih hcard
      rw [cardsIn_welcome] at hback
      exact (hspec.mem_cardsIn hback).resolve_right fun hboth => hzone hboth.1

/-- Targets that are moved into play take no slot. -/
theorem Relocated.slotted_sublist {source dest : Zone} {targets : List CardId}
    {table after : Table} {next later : PlayId} {moves : List Move}
    (hmoved : Relocated source dest targets table next moves after later) :
    after.slotted.Sublist table.slotted := by
  induction hmoved with
  | nil => exact List.Sublist.refl _
  | @cons card rest table moved after next middle later move moves hcarry htail
      ih =>
      have hwelcome : (moved.welcome dest).slotted = moved.slotted := by
        simp [slotted]
      rw [hwelcome] at ih
      exact ih.trans (carryOut_slotted_sublist hcarry)

/-- What the moves of a played effect have made of the table. -/
theorem moveTargets_eq_ok {source dest : Zone} {targets : List CardId}
    {table after : Table} {next later : PlayId} {before all : List Move}
    (hmoved : Game.moveTargets source dest targets table next before =
      .ok (.ok (after, all), later)) :
    ∃ moves, all = before ++ moves ∧
      Relocated source dest targets table next moves after later := by
  induction targets generalizing table next before with
  | nil =>
      simp only [Game.moveTargets, pure_eq_ok_iff, Prod.mk.injEq,
        Except.ok.injEq] at hmoved
      obtain ⟨⟨rfl, rfl⟩, rfl⟩ := hmoved
      exact ⟨[], by simp, .nil⟩
  | cons card rest ih =>
      rw [Game.moveTargets, bind_eq_ok_iff] at hmoved
      obtain ⟨answer, hcarry, hrest⟩ := hmoved
      cases answer with
      | none => simp [pure_eq_ok_iff] at hrest
      | some made =>
          obtain ⟨move, moved, middle⟩ := made
          change Game.moveTargets source dest rest (moved.welcome dest) middle
            (before ++ [move]) = .ok (.ok (after, all), later) at hrest
          obtain ⟨moves, hall, htail⟩ := ih hrest
          exact ⟨move :: moves, by simp [hall], .cons hcarry htail⟩

/-- The targets differ and lie in their zone, so that they can all be moved. -/
structure Movable (table : Table) (source : Zone) (targets : List CardId) :
    Prop where
  nodup : targets.Nodup
  found : ∀ id ∈ targets, ∃ placement ∈ table.placements,
    placement.zone = source ∧ placement.card.id = id

theorem Movable.rest {source dest : Zone} {card : CardId} {rest : List CardId}
    {table moved : Table} {next later : PlayId} {move : Move}
    (hmovable : table.Movable source (card :: rest))
    (hcarry : table.carryOut next { card, source, dest } =
      .ok (some (move, moved, later))) :
    (moved.welcome dest).Movable source rest := by
  obtain ⟨hhead, htail⟩ := List.nodup_cons.mp hmovable.nodup
  obtain ⟨taken, others, hspec⟩ := carryOut_eq_some hcarry
  refine ⟨htail, ?_⟩
  intro id hid
  obtain ⟨placement, hmem, hzone, hcard⟩ :=
    hmovable.found id (List.mem_cons_of_mem card hid)
  have hne : placement ≠ taken := by
    rintro rfl
    have htaken : placement.card.id = card := by
      simpa using hspec.picks.2
    exact hhead (htaken ▸ hcard ▸ hid)
  rw [hspec.before, Multiset.mem_cons] at hmem
  refine ⟨placement, ?_, hzone, hcard⟩
  rw [placements_welcome, hspec.placed]
  exact Multiset.mem_cons_of_mem (hmem.resolve_left hne)

theorem Movable.exists_picks {source : Zone} {card : CardId}
    {rest : List CardId} {table : Table}
    (hmovable : table.Movable source (card :: rest)) (dest : Zone) :
    ∃ placement ∈ table.placements,
      Move.Picks { card, source, dest } placement := by
  obtain ⟨placement, hmem, hzone, hid⟩ :=
    hmovable.found card List.mem_cons_self
  exact ⟨placement, hmem, hzone, by simpa using hid⟩

theorem moveTargets_ne_error {source dest : Zone} {targets : List CardId}
    {table : Table} {next later : PlayId} {before : List Move}
    {fault : TargetFault} (hmovable : table.Movable source targets) :
    Game.moveTargets source dest targets table next before ≠
      .ok (.error fault, later) := by
  induction targets generalizing table next before with
  | nil => simp [Game.moveTargets, pure_eq_ok_iff]
  | cons card rest ih =>
      intro hmoved
      rw [Game.moveTargets, bind_eq_ok_iff] at hmoved
      obtain ⟨answer, hcarry, hrest⟩ := hmoved
      cases answer with
      | none =>
          obtain ⟨placement, hmem, hpicks⟩ := hmovable.exists_picks dest
          exact carryOut_eq_none_iff.mp hcarry placement hmem hpicks
      | some made =>
          obtain ⟨move, moved, middle⟩ := made
          change Game.moveTargets source dest rest (moved.welcome dest) middle
            (before ++ [move]) = .ok (.error fault, later) at hrest
          exact ih (hmovable.rest hcarry) hrest

theorem exists_placement_of_find? {table : Table} {zone : Zone} {id : CardId}
    {card : Card} (hfind : table.find? zone id = some card) :
    ∃ placement ∈ table.placements,
      placement.zone = zone ∧ placement.card.id = id := by
  have hmem := List.mem_of_find?_eq_some hfind
  have hid : card.id = id := by simpa using List.find?_some hfind
  cases zone with
  | play =>
      obtain ⟨seat, hseat, rfl⟩ := List.mem_map.mp hmem
      exact ⟨seat.placement, placement_mem hseat, rfl, hid⟩
  | deck =>
      exact ⟨_, mem_placements.mpr (.inr (.inl ⟨card, hmem, rfl⟩)), rfl, hid⟩
  | discard =>
      exact ⟨_, mem_placements.mpr (.inr (.inr ⟨card, hmem, rfl⟩)), rfl, hid⟩

/-- A legal selection can be moved. -/
theorem movable_of_validate {rule : TargetRule} {table : Table}
    {targets : List CardId} (hvalid : rule.validate table targets = .ok ()) :
    table.Movable rule.zone targets := by
  obtain ⟨hnodup, hfound⟩ := TargetRule.validate_eq_ok hvalid
  refine ⟨hnodup, fun id hid => ?_⟩
  obtain ⟨card, hfind⟩ := hfound id hid
  exact exists_placement_of_find? hfind

def withoutEffect (table : Table) (play : PlayId) : Table :=
  { table with
    effects := table.effects.eraseP (fun other => other.play == play) }

end Table

/-- The moves that taking an effect back tries to reverse. -/
def Effect.reversedMoves (effect : Effect) : List Move :=
  if effect.script.reversalRule.restores then effect.undoMoves else []

theorem Effect.mem_reversedMoves {effect : Effect} {move : Move} :
    move ∈ effect.reversedMoves ↔
      effect.script.reversalRule.restores = true ∧
        move.inverse ∈ effect.moves := by
  unfold reversedMoves
  split
  · rename_i hrestores
    simp only [hrestores, true_and, undoMoves, List.mem_map, List.mem_reverse]
    constructor
    · rintro ⟨made, hmade, rfl⟩
      exact hmade
    · exact fun hmade => ⟨move.inverse, hmade, rfl⟩
  · rename_i hkeeps
    simp [hkeeps]

/-- The script moves cards within the play area. -/
def Script.IsLoop (script : Script) : Prop :=
  script.target.zone = .play ∧ script.relocation = some ⟨.play⟩

instance (script : Script) : Decidable script.IsLoop :=
  inferInstanceAs (Decidable (_ ∧ _))

/-- The plainest script that moves a card: one target, and nothing else. -/
def Script.mover (name : String) (source dest : Zone) : Script :=
  { id := ⟨0⟩, name, target := { count := .one, zone := source }
    relocation := some ⟨dest⟩ }

namespace Game

def movedTargets (script : Script) (choice : Choice) : List CardId :=
  if script.relocation.isSome then choice.targets else []

/-- What a script moves.  The cards come into play only if the script says so. -/
theorem relocate_eq_ok {script : Script} {choice : Choice} {table after : Table}
    {next later : PlayId} {moves : List Move}
    (hmoved : relocate script choice table next =
      .ok (.ok (after, moves), later)) :
    ∃ dest, (dest = .play → script.relocation = some ⟨.play⟩) ∧
      Table.Relocated script.target.zone dest (movedTargets script choice)
        table next moves after later := by
  unfold relocate at hmoved
  cases hrelocation : script.relocation with
  | none =>
      simp only [hrelocation, pure_eq_ok_iff, Prod.mk.injEq,
        Except.ok.injEq] at hmoved
      obtain ⟨⟨rfl, rfl⟩, rfl⟩ := hmoved
      refine ⟨.deck, by simp, ?_⟩
      simpa [movedTargets, hrelocation] using Table.Relocated.nil
  | some relocation =>
      simp only [hrelocation] at hmoved
      obtain ⟨made, hall, hmade⟩ := Table.moveTargets_eq_ok hmoved
      refine ⟨relocation.dest, fun hdest => by rw [← hdest], ?_⟩
      rw [List.nil_append] at hall
      simpa [movedTargets, hrelocation, hall] using hmade

theorem relocate_ne_error {script : Script} {choice : Choice} {table : Table}
    {next later : PlayId} {fault : TargetFault}
    (hvalid : script.target.validate table choice.targets = .ok ()) :
    relocate script choice table next ≠ .ok (.error fault, later) := by
  unfold relocate
  cases script.relocation with
  | none => simp [pure_eq_ok_iff]
  | some relocation =>
      exact Table.moveTargets_ne_error (Table.movable_of_validate hvalid)

/-- What the accepted play of a card does. -/
structure CardPlayed (game : Game) (card : Card) (after : Game) : Prop where
  allowed : ∃ limits, Limits.ofTable game.rules game.table = .ok limits ∧
    if game.isFreeReplay card.id then limits.checkSuit card.suit = .ok ()
    else limits.checkCard game.table card.suit = .ok (.ok ())
  numbered : game.nextPlay.next = .ok after.nextPlay
  table : after.table =
    ((game.table.withdraw card.id).remember card.name).enter
      ⟨game.nextPlay, card, game.isFreeReplay card.id⟩
  frame : after = { game with table := after.table, nextPlay := after.nextPlay }

theorem CardPlayed.table_frame {game after : Game} {card : Card}
    (hplayed : game.CardPlayed card after) :
    after.table = { game.table with
      cards := game.table.cards ++
        [⟨game.nextPlay, card, game.isFreeReplay card.id⟩]
      discard := after.table.discard, deck := after.table.deck
      history := after.table.history } := by
  rw [hplayed.table, Table.withdraw_frame]
  rfl

theorem CardPlayed.cards {game after : Game} {card : Card}
    (hplayed : game.CardPlayed card after) :
    after.table.cards = game.table.cards ++
      [⟨game.nextPlay, card, game.isFreeReplay card.id⟩] := by
  rw [hplayed.table_frame]

theorem CardPlayed.cardsIn_play {game after : Game} {card : Card}
    (hplayed : game.CardPlayed card after) :
    after.table.cardsIn .play = game.table.cardsIn .play ++ [card] := by
  rw [Table.cardsIn, hplayed.cards, List.map_append]
  rfl

theorem CardPlayed.carry_eq {game after : Game} {card : Card}
    (hplayed : game.CardPlayed card after) :
    after.table.carry = game.table.carry := by
  rw [hplayed.table_frame]

theorem playCard_eq_ok {game after : Game} {card : Card}
    {result : Except Refusal PlayId}
    (hplay : game.playCard card = .ok (result, after)) :
    (∃ fault, result = .error (.limit fault) ∧ after = game) ∨
      result = .ok game.nextPlay ∧ game.CardPlayed card after := by
  rw [playCard, bind_eq_ok_iff] at hplay
  obtain ⟨limits, hlimits, hplay⟩ := hplay
  -- A free replay and any other play only differ in the check that is made.
  dsimp only at hplay
  split at hplay
  all_goals
    rename_i hfree
    rw [bind_eq_ok_iff] at hplay
    obtain ⟨verdict, hverdict, hplay⟩ := hplay
    cases verdict with
    | error fault =>
        simp only [pure_eq_ok_iff, Prod.mk.injEq] at hplay
        exact .inl ⟨fault, hplay.1.symm, hplay.2.symm⟩
    | ok accepted =>
        simp only [bind_eq_ok_iff, pure_eq_ok_iff, Prod.mk.injEq] at hplay
        obtain ⟨nextPlay, hnext, rfl, rfl⟩ := hplay
        refine .inr ⟨rfl, ⟨limits, hlimits, ?_⟩, hnext, rfl, rfl⟩
        simpa [hfree, pure_eq_ok_iff] using hverdict

/-- Playing from the deck is refused, or plays the first card of the deck with
the identity. -/
theorem playFromDeck_eq_ok {game after : Game} {id : CardId}
    {result : Except Refusal PlayId}
    (hplay : game.playFromDeck id = .ok (result, after)) :
    (∃ refusal, result = .error refusal ∧ after = game) ∨
      ∃ card, game.table.find? .deck id = some card ∧
        result = .ok game.nextPlay ∧ game.CardPlayed card after := by
  unfold playFromDeck at hplay
  cases hfind : game.table.find? .deck id with
  | none =>
      simp only [hfind, pure_eq_ok_iff, Prod.mk.injEq] at hplay
      exact .inl ⟨_, hplay.1.symm, hplay.2.symm⟩
  | some card =>
      simp only [hfind] at hplay
      rcases playCard_eq_ok hplay with ⟨fault, hresult, hafter⟩ | hplayed
      · exact .inl ⟨_, hresult, hafter⟩
      · exact .inr ⟨card, rfl, hplayed⟩

/-- An effect can be played if the limits with it in play leave room for it, and
if its script allows it. -/
theorem canPlay_eq_ok {game : Game} {script : Script}
    (hallowed : game.canPlay script = .ok (.ok ())) :
    ∃ limits, Limits.resolve game.rules (game.table.scripts ++ [script])
        game.table.carry = .ok limits ∧
      limits.checkEffect game.table = .ok () ∧
      script.check game.rules game.table = .ok (.ok ()) := by
  rw [canPlay, bind_eq_ok_iff] at hallowed
  obtain ⟨limits, hlimits, hallowed⟩ := hallowed
  cases heffect : limits.checkEffect game.table with
  | error fault => simp [heffect, pure_eq_ok_iff] at hallowed
  | ok room =>
      simp only [heffect, bind_eq_ok_iff] at hallowed
      obtain ⟨verdict, hverdict, hallowed⟩ := hallowed
      cases verdict with
      | error obstacle => simp [pure_eq_ok_iff] at hallowed
      | ok eligible => exact ⟨limits, hlimits, heffect, hverdict⟩

/-- What the accepted play of an effect does: `moves` are the moves that it
makes, and `rest` is the table after them. -/
structure EffectPlayed (game : Game) (script : Script) (choice : Choice)
    (first : PlayId) (moves : List Move) (rest : Table) (after : Game) :
    Prop where
  allowed : game.canPlay script = .ok (.ok ())
  legal : script.target.validate game.table choice.targets = .ok ()
  numbered : game.nextPlay.next = .ok first
  moved : relocate script choice game.table first =
    .ok (.ok (rest, moves), after.nextPlay)
  paid : addCounts game.strokes script.cost = .ok after.strokes
  table : after.table = { rest with effects :=
    rest.effects ++ [{ Effect.bind game.nextPlay script choice with moves }] }
  frame : after = { game with
    table := after.table, nextPlay := after.nextPlay, strokes := after.strokes }

section EffectPlayed

variable {game after : Game} {script : Script} {choice : Choice}
  {first : PlayId} {moves : List Move} {rest : Table}

theorem EffectPlayed.table_frame
    (hplayed : game.EffectPlayed script choice first moves rest after) :
    after.table = { game.table with
      cards := after.table.cards, effects := after.table.effects
      discard := after.table.discard, deck := after.table.deck
      history := after.table.history } := by
  obtain ⟨dest, -, hmoved⟩ := relocate_eq_ok hplayed.moved
  rw [hplayed.table, hmoved.frame]

theorem EffectPlayed.effects
    (hplayed : game.EffectPlayed script choice first moves rest after) :
    after.table.effects = game.table.effects ++
      [{ Effect.bind game.nextPlay script choice with moves }] := by
  obtain ⟨dest, -, hmoved⟩ := relocate_eq_ok hplayed.moved
  rw [hplayed.table, hmoved.frame]

theorem EffectPlayed.scripts
    (hplayed : game.EffectPlayed script choice first moves rest after) :
    after.table.scripts = game.table.scripts ++ [script] := by
  rw [Table.scripts, hplayed.effects, List.map_append]
  rfl

/-- The limits that the effect was checked against are in force once it is in
play. -/
theorem EffectPlayed.ofTable_eq
    (hplayed : game.EffectPlayed script choice first moves rest after) :
    Limits.ofTable after.rules after.table =
      Limits.resolve game.rules (game.table.scripts ++ [script])
        game.table.carry := by
  have hcarry : after.table.carry = game.table.carry := by
    rw [hplayed.table_frame]
  rw [Limits.ofTable, hplayed.scripts, hcarry, hplayed.frame]

theorem EffectPlayed.relocated
    (hplayed : game.EffectPlayed script choice first moves rest after)
    (hloop : ¬ script.IsLoop) :
    ∃ dest, ¬ (script.target.zone = .play ∧ dest = .play) ∧
      Table.Relocated script.target.zone dest (movedTargets script choice)
        game.table first moves rest after.nextPlay := by
  obtain ⟨dest, hdest, hmoved⟩ := relocate_eq_ok hplayed.moved
  exact ⟨dest, fun hboth => hloop ⟨hboth.1, hdest hboth.2⟩, hmoved⟩

end EffectPlayed

/-- Why the play of an effect is refused: it cannot be played at all, or else the
selection of its targets has a fault. -/
def Refuses (game : Game) (script : Script) (choice : Choice)
    (refusal : Refusal) : Prop :=
  game.canPlay script = .ok (.error refusal) ∨
    game.canPlay script = .ok (.ok ()) ∧ ∃ fault,
      script.target.validate game.table choice.targets = .error fault ∧
      refusal = .target fault

theorem playEffect_eq_ok {game after : Game} {script : Script} {choice : Choice}
    {result : Except Refusal PlayId}
    (hplay : game.playEffect script choice = .ok (result, after)) :
    (∃ refusal, result = .error refusal ∧ after = game ∧
      game.Refuses script choice refusal) ∨
      result = .ok game.nextPlay ∧ ∃ first moves rest,
        game.EffectPlayed script choice first moves rest after := by
  rw [playEffect, bind_eq_ok_iff] at hplay
  obtain ⟨verdict, hverdict, hplay⟩ := hplay
  cases verdict with
  | error refusal =>
      simp only [pure_eq_ok_iff, Prod.mk.injEq] at hplay
      exact .inl ⟨refusal, hplay.1.symm, hplay.2.symm, .inl hverdict⟩
  | ok accepted =>
      cases hvalid : script.target.validate game.table choice.targets with
      | error fault =>
          simp only [hvalid, pure_eq_ok_iff, Prod.mk.injEq] at hplay
          exact .inl ⟨_, hplay.1.symm, hplay.2.symm,
            .inr ⟨hverdict, fault, hvalid, rfl⟩⟩
      | ok legal =>
          simp only [hvalid, bind_eq_ok_iff] at hplay
          obtain ⟨first, hfirst, ⟨moved, later⟩, hmoved, hplay⟩ := hplay
          cases moved with
          | error fault => exact absurd hmoved (relocate_ne_error hvalid)
          | ok made =>
              obtain ⟨rest, moves⟩ := made
              simp only [bind_eq_ok_iff, pure_eq_ok_iff, Prod.mk.injEq]
                at hplay
              obtain ⟨strokes, hpaid, rfl, rfl⟩ := hplay
              exact .inr ⟨rfl, first, moves, rest, hverdict, hvalid, hfirst,
                hmoved, hpaid, rfl, rfl⟩

/-- What the accepted removal of a card does: it trades the place of `seat` for
one in the deck or the discard pile. -/
structure CardRemoved (game : Game) (play : PlayId) (dest : Zone) (seat : InPlay)
    (rest : Multiset Placement) (after : Game) : Prop where
  found : game.table.cardAt? play = some seat
  leaves : dest ≠ .play
  before : game.table.placements = seat.placement ::ₘ rest
  placed : after.table.placements = ⟨dest, none, seat.card⟩ ::ₘ rest
  cards : after.table.cards =
    game.table.cards.eraseP (fun other => other.play == play)
  frame : after = { game with table := { game.table with
    cards := after.table.cards
    deck := after.table.deck
    discard := after.table.discard } }

theorem CardRemoved.mem_cardsIn_play {game after : Game} {play : PlayId}
    {dest : Zone} {seat : InPlay} {rest : Multiset Placement}
    (hremoved : game.CardRemoved play dest seat rest after) {card : Card}
    (hcard : card ∈ after.table.cardsIn .play) :
    card ∈ game.table.cardsIn .play := by
  rw [Table.cardsIn, hremoved.cards] at hcard
  exact (List.eraseP_sublist.map InPlay.card).subset hcard

theorem removeCard_eq {game after : Game} {play : PlayId} {dest : Zone}
    {result : Except Refusal Card}
    (hremove : game.removeCard play dest = (result, after)) :
    (∃ refusal, result = .error refusal ∧ after = game) ∨
      ∃ seat rest, result = .ok seat.card ∧
        game.CardRemoved play dest seat rest after := by
  unfold removeCard at hremove
  cases hseat : game.table.cardAt? play with
  | none =>
      simp only [hseat, Prod.mk.injEq] at hremove
      exact .inl ⟨_, hremove.1.symm, hremove.2.symm⟩
  | some seat =>
      let rest : Table := { game.table with
        cards := game.table.cards.eraseP (fun other => other.play == play) }
      have hbefore : game.table.placements =
          seat.placement ::ₘ rest.placements := by
        rw [Table.placements, coe_map_eq_cons InPlay.placement hseat]
        simp only [Multiset.cons_add]
        rfl
      cases dest with
      | play =>
          simp only [hseat, Prod.mk.injEq] at hremove
          exact .inl ⟨_, hremove.1.symm, hremove.2.symm⟩
      | deck =>
          simp only [hseat, Prod.mk.injEq] at hremove
          obtain ⟨rfl, rfl⟩ := hremove
          refine .inr ⟨seat, rest.placements, rfl, hseat, by simp, hbefore, ?_,
            rfl, rfl⟩
          exact rest.placements_deck_append [seat.card]
      | discard =>
          simp only [hseat, Prod.mk.injEq] at hremove
          obtain ⟨rfl, rfl⟩ := hremove
          refine .inr ⟨seat, rest.placements, rfl, hseat, by simp, hbefore, ?_,
            rfl, rfl⟩
          exact rest.placements_discard_append [seat.card]

/-- A refund of no more than was paid is not cut short. -/
theorem refund_toNat {strokes paid : UInt32} (hpaid : paid ≤ strokes) :
    (refund strokes paid).toNat + paid.toNat = strokes.toNat := by
  have hle := UInt32.le_iff_toNat_le.mp hpaid
  rw [refund, if_pos hpaid, UInt32.toNat_sub_of_le _ _ hpaid]
  omega

/-- What the accepted removal of an effect does. -/
structure EffectRemoved (game : Game) (play : PlayId) (effect : Effect)
    (after : Game) : Prop where
  found : game.table.effectAt? play = some effect
  undone : (game.table.withoutEffect play).carryOutAll game.nextPlay
    effect.reversedMoves = .ok (after.table, after.nextPlay)
  refunded : after.strokes =
    if effect.script.reversalRule.refunds then refund game.strokes effect.paid
    else game.strokes
  frame : after = { game with
    table := after.table, nextPlay := after.nextPlay, strokes := after.strokes }

theorem EffectRemoved.table_frame {game after : Game} {play : PlayId}
    {effect : Effect} (hremoved : game.EffectRemoved play effect after) :
    after.table = { game.table with
      cards := after.table.cards, effects := after.table.effects
      discard := after.table.discard, deck := after.table.deck } := by
  rw [Table.carryOutAll_frame hremoved.undone]
  rfl

theorem EffectRemoved.effects {game after : Game} {play : PlayId}
    {effect : Effect} (hremoved : game.EffectRemoved play effect after) :
    after.table.effects =
      game.table.effects.eraseP (fun other => other.play == play) := by
  rw [Table.carryOutAll_frame hremoved.undone]
  rfl

theorem removeEffect_eq_ok {game after : Game} {play : PlayId}
    {result : Except Refusal Effect} :
    game.removeEffect play = .ok (result, after) ↔
      (game.table.effectAt? play = none ∧
        result = .error (.unknownPlay play) ∧ after = game) ∨
      ∃ effect, result = .ok effect ∧ game.EffectRemoved play effect after := by
  unfold removeEffect
  cases hfound : game.table.effectAt? play with
  | none =>
      simp only [pure_eq_ok_iff, Prod.mk.injEq]
      constructor
      · rintro ⟨rfl, rfl⟩
        exact .inl ⟨trivial, rfl, rfl⟩
      · rintro (⟨-, rfl, rfl⟩ | ⟨effect, -, hremoved⟩)
        · exact ⟨rfl, rfl⟩
        · cases hfound.symm.trans hremoved.found
  | some effect =>
      simp only [bind_eq_ok_iff, pure_eq_ok_iff, Prod.mk.injEq]
      constructor
      · rintro ⟨⟨table, nextPlay⟩, hundone, rfl, rfl⟩
        exact .inr ⟨effect, rfl, hfound, hundone, rfl, rfl⟩
      · rintro (⟨hnone, -⟩ | ⟨other, rfl, hremoved⟩)
        · cases hnone
        · cases hfound.symm.trans hremoved.found
          refine ⟨(after.table, after.nextPlay), hremoved.undone, rfl, ?_⟩
          rw [hremoved.frame, ← hremoved.refunded]

/-- What the end of a turn does. -/
structure TurnEnded (game after : Game) : Prop where
  turn : addCounts game.table.turn 1 = .ok after.table.turn
  frame : after = { game with
    table := { game.table with
      turn := after.table.turn
      cards := []
      effects := []
      discard := game.table.discard ++ game.table.cards.map InPlay.card
      carry := CarryOver.collect game.table.effects }
    nextPlay := ⟨0⟩
    retired := game.retired ++ game.table.effects }

theorem endTurn_eq_ok {game after : Game} {carry : Option CarryOver}
    (hend : game.endTurn = .ok (carry, after)) :
    carry = CarryOver.collect game.table.effects ∧ game.TurnEnded after := by
  simp only [endTurn, bind_eq_ok_iff, pure_eq_ok_iff, Prod.mk.injEq] at hend
  obtain ⟨turn, hturn, rfl, rfl⟩ := hend
  exact ⟨rfl, hturn, rfl⟩

/-- What each accepted action answers and does. -/
inductive Accepted (game : Game) : PlayerAction → Answer → Game → Prop where
  | deckStocked (cards : List Card) :
      Accepted game (.stockDeck cards) .done (game.stockDeck cards)
  | cardPlayed {card : Card} {after : Game}
      (hplayed : game.CardPlayed card after) :
      Accepted game (.playCard card) (.played game.nextPlay) after
  | deckPlayed {id : CardId} {card : Card} {after : Game}
      (hfind : game.table.find? .deck id = some card)
      (hplayed : game.CardPlayed card after) :
      Accepted game (.playFromDeck id) (.played game.nextPlay) after
  | effectAllowed {script : Script}
      (hallowed : game.canPlay script = .ok (.ok ())) :
      Accepted game (.canPlay script) .done game
  | effectPlayed {script : Script} {choice : Choice} {first : PlayId}
      {moves : List Move} {rest : Table} {after : Game}
      (hplayed : game.EffectPlayed script choice first moves rest after) :
      Accepted game (.playEffect script choice) (.played game.nextPlay) after
  | cardRemoved {play : PlayId} {dest : Zone} {seat : InPlay}
      {rest : Multiset Placement} {after : Game}
      (hremoved : game.CardRemoved play dest seat rest after) :
      Accepted game (.removeCard play dest) (.card seat.card) after
  | effectRemoved {play : PlayId} {effect : Effect} {after : Game}
      (hremoved : game.EffectRemoved play effect after) :
      Accepted game (.removeEffect play) (.effect effect) after
  | turnEnded {after : Game} (hended : game.TurnEnded after) :
      Accepted game .endTurn
        (.carried (CarryOver.collect game.table.effects)) after

/-- An action that does not break off is refused, and then the game stays as it
is, or it is accepted. -/
theorem perform_eq_ok {game after : Game} {action : PlayerAction}
    {result : Except Refusal Answer}
    (hperform : game.perform action = .ok (result, after)) :
    (∃ refusal, result = .error refusal ∧ after = game) ∨
      ∃ answer, result = .ok answer ∧ game.Accepted action answer after := by
  cases action with
  | stockDeck cards =>
      simp only [perform, pure_eq_ok_iff, Prod.mk.injEq] at hperform
      obtain ⟨rfl, rfl⟩ := hperform
      exact .inr ⟨_, rfl, .deckStocked cards⟩
  | playCard card =>
      simp only [perform, bind_eq_ok_iff, pure_eq_ok_iff, Prod.mk.injEq]
        at hperform
      obtain ⟨⟨outcome, moved⟩, hplay, rfl, rfl⟩ := hperform
      rcases playCard_eq_ok hplay with ⟨fault, rfl, rfl⟩ | ⟨rfl, hplayed⟩
      · exact .inl ⟨_, rfl, rfl⟩
      · exact .inr ⟨_, rfl, .cardPlayed hplayed⟩
  | playFromDeck id =>
      simp only [perform, bind_eq_ok_iff, pure_eq_ok_iff, Prod.mk.injEq]
        at hperform
      obtain ⟨⟨outcome, moved⟩, hplay, rfl, rfl⟩ := hperform
      rcases playFromDeck_eq_ok hplay with
        ⟨refusal, rfl, rfl⟩ | ⟨card, hfind, rfl, hplayed⟩
      · exact .inl ⟨_, rfl, rfl⟩
      · exact .inr ⟨_, rfl, .deckPlayed hfind hplayed⟩
  | canPlay script =>
      simp only [perform, bind_eq_ok_iff, pure_eq_ok_iff, Prod.mk.injEq]
        at hperform
      obtain ⟨outcome, hallowed, rfl, rfl⟩ := hperform
      cases outcome with
      | error refusal => exact .inl ⟨_, rfl, rfl⟩
      | ok allowed => exact .inr ⟨_, rfl, .effectAllowed hallowed⟩
  | playEffect script choice =>
      simp only [perform, bind_eq_ok_iff, pure_eq_ok_iff, Prod.mk.injEq]
        at hperform
      obtain ⟨⟨outcome, moved⟩, hplay, rfl, rfl⟩ := hperform
      rcases playEffect_eq_ok hplay with
        ⟨refusal, rfl, rfl, -⟩ | ⟨rfl, first, moves, rest, hplayed⟩
      · exact .inl ⟨_, rfl, rfl⟩
      · exact .inr ⟨_, rfl, .effectPlayed hplayed⟩
  | removeCard play dest =>
      simp only [perform, pure_eq_ok_iff, Prod.mk.injEq] at hperform
      obtain ⟨rfl, rfl⟩ := hperform
      cases hremove : game.removeCard play dest with
      | mk outcome moved =>
          rcases removeCard_eq hremove with
            ⟨refusal, rfl, rfl⟩ | ⟨seat, rest, rfl, hremoved⟩
          · exact .inl ⟨_, rfl, rfl⟩
          · exact .inr ⟨_, rfl, .cardRemoved hremoved⟩
  | removeEffect play =>
      simp only [perform, bind_eq_ok_iff, pure_eq_ok_iff, Prod.mk.injEq]
        at hperform
      obtain ⟨⟨outcome, moved⟩, hremove, rfl, rfl⟩ := hperform
      rcases removeEffect_eq_ok.mp hremove with
        ⟨-, rfl, rfl⟩ | ⟨effect, rfl, hremoved⟩
      · exact .inl ⟨_, rfl, rfl⟩
      · exact .inr ⟨_, rfl, .effectRemoved hremoved⟩
  | endTurn =>
      simp only [perform, bind_eq_ok_iff, pure_eq_ok_iff, Prod.mk.injEq]
        at hperform
      obtain ⟨⟨carry, moved⟩, hend, rfl, rfl⟩ := hperform
      obtain ⟨rfl, hended⟩ := endTurn_eq_ok hend
      exact .inr ⟨_, rfl, .turnEnded hended⟩

theorem perform_endTurn_eq_ok {game after : Game}
    {result : Except Refusal Answer}
    (hperform : game.perform .endTurn = .ok (result, after)) :
    result = .ok (.carried (CarryOver.collect game.table.effects)) ∧
      game.TurnEnded after := by
  simp only [perform, bind_eq_ok_iff, pure_eq_ok_iff, Prod.mk.injEq] at hperform
  obtain ⟨⟨carry, moved⟩, hend, rfl, rfl⟩ := hperform
  obtain ⟨rfl, hended⟩ := endTurn_eq_ok hend
  exact ⟨rfl, hended⟩

/-- An effect in play was there before the last action, which then did not end the
turn, or this action has played it. -/
theorem mem_effects_of_perform {game after : Game} {action : PlayerAction}
    {result : Except Refusal Answer} {effect : Effect}
    (hperform : game.perform action = .ok (result, after))
    (heffect : effect ∈ after.table.effects) :
    (effect ∈ game.table.effects ∧ action ≠ .endTurn) ∨
      ∃ script choice first moves rest, action = .playEffect script choice ∧
        result = .ok (.played game.nextPlay) ∧
        game.EffectPlayed script choice first moves rest after ∧
        effect = { Effect.bind game.nextPlay script choice with moves } := by
  by_cases hend : action = .endTurn
  · subst hend
    rw [(perform_endTurn_eq_ok hperform).2.frame] at heffect
    cases heffect
  · rcases perform_eq_ok hperform with ⟨-, -, rfl⟩ | ⟨answer, rfl, haccepted⟩
    · exact .inl ⟨heffect, hend⟩
    · cases haccepted with
      | deckStocked cards => exact .inl ⟨heffect, hend⟩
      | cardPlayed hplayed =>
          rw [hplayed.table_frame] at heffect
          exact .inl ⟨heffect, hend⟩
      | deckPlayed _ hplayed =>
          rw [hplayed.table_frame] at heffect
          exact .inl ⟨heffect, hend⟩
      | effectAllowed _ => exact .inl ⟨heffect, hend⟩
      | effectPlayed hplayed =>
          rw [hplayed.effects] at heffect
          rcases List.mem_append.mp heffect with hold | hnew
          · exact .inl ⟨hold, hend⟩
          · exact .inr ⟨_, _, _, _, _, rfl, rfl, hplayed,
              List.mem_singleton.mp hnew⟩
      | cardRemoved hremoved =>
          rw [hremoved.frame] at heffect
          exact .inl ⟨heffect, hend⟩
      | effectRemoved hremoved =>
          rw [hremoved.effects] at heffect
          exact .inl ⟨List.mem_of_mem_eraseP heffect, hend⟩
      | turnEnded _ => exact absurd rfl hend

section Run

variable {game middle after : Game} {action : PlayerAction}
  {actions first rest : List PlayerAction} {result : Except Refusal Answer}

theorem run_nil_eq_ok_iff : game.run [] = .ok after ↔ game = after :=
  pure_eq_ok_iff

theorem run_cons_eq_ok_iff :
    game.run (action :: rest) = .ok after ↔
      ∃ result middle, game.perform action = .ok (result, middle) ∧
        middle.run rest = .ok after := by
  simp only [run, List.foldlM_cons, bind_eq_ok_iff, pure_eq_ok_iff]
  constructor
  · rintro ⟨_, ⟨⟨result, moved⟩, hperform, rfl⟩, hrest⟩
    exact ⟨result, moved, hperform, hrest⟩
  · rintro ⟨result, moved, hperform, hrest⟩
    exact ⟨moved, ⟨(result, moved), hperform, rfl⟩, hrest⟩

theorem run_append_eq_ok_iff :
    game.run (first ++ rest) = .ok after ↔
      ∃ middle, game.run first = .ok middle ∧ middle.run rest = .ok after := by
  rw [run, List.foldlM_append, bind_eq_ok_iff]
  rfl

theorem run_cons (hperform : game.perform action = .ok (result, middle)) :
    game.run (action :: rest) = middle.run rest := by
  rw [run, List.foldlM_cons, hperform]
  rfl

theorem run_append (hfirst : game.run first = .ok middle) :
    game.run (first ++ rest) = middle.run rest := by
  rw [run] at hfirst
  rw [run, List.foldlM_append, hfirst]
  rfl

/-- A fact about new games that the actions of a run keep holds after the run. -/
theorem run_induction_mem {motive : Game → Prop}
    (hstep : ∀ (current next : Game), ∀ action ∈ actions,
      ∀ result : Except Refusal Answer, motive current →
      current.perform action = .ok (result, next) → motive next)
    (hstart : motive game) (hrun : game.run actions = .ok after) :
    motive after := by
  induction actions generalizing game with
  | nil => exact run_nil_eq_ok_iff.mp hrun ▸ hstart
  | cons action rest ih =>
      obtain ⟨result, next, hperform, hrest⟩ := run_cons_eq_ok_iff.mp hrun
      have hnext := hstep game next action List.mem_cons_self result hstart
        hperform
      exact ih (fun current next other hmem =>
        hstep current next other (List.mem_cons_of_mem action hmem)) hnext hrest

/-- A fact about new games that every action keeps holds after every run. -/
theorem run_induction {motive : Game → Prop}
    (hstep : ∀ (current next : Game) (action : PlayerAction)
      (result : Except Refusal Answer), motive current →
      current.perform action = .ok (result, next) → motive next)
    (hstart : motive game) (hrun : game.run actions = .ok after) :
    motive after :=
  run_induction_mem (fun current next action _ => hstep current next action)
    hstart hrun

end Run

/-- Some run leads to the game from a new game under some rules. -/
def Reachable (game : Game) : Prop :=
  ∃ (rules : Rules) (actions : List PlayerAction),
    run { rules } actions = .ok game

theorem Reachable.perform {game after : Game} {action : PlayerAction}
    {result : Except Refusal Answer} (hreachable : game.Reachable)
    (hperform : game.perform action = .ok (result, after)) :
    after.Reachable := by
  obtain ⟨rules, actions, hrun⟩ := hreachable
  refine ⟨rules, actions ++ [action], ?_⟩
  rw [run_append hrun, run_cons hperform]
  rfl

/-- What holds of every effect when it is put into play holds of all effects in
play. -/
theorem Reachable.forall_effects {game : Game} {motive : Effect → Prop}
    (hplay : ∀ (before after : Game) (script : Script) (choice : Choice)
      (first : PlayId) (moves : List Move) (rest : Table), before.Reachable →
      before.EffectPlayed script choice first moves rest after →
      motive { Effect.bind before.nextPlay script choice with moves })
    (hreachable : game.Reachable) :
    ∀ effect ∈ game.table.effects, motive effect := by
  obtain ⟨rules, actions, hrun⟩ := hreachable
  have hall := run_induction (motive := fun current =>
    current.Reachable ∧ ∀ effect ∈ current.table.effects, motive effect)
    ?_ ⟨⟨rules, [], rfl⟩, by simp⟩ hrun
  · exact hall.2
  · rintro current next action result ⟨hcurrent, hearlier⟩ hperform
    refine ⟨hcurrent.perform hperform, fun effect hmem => ?_⟩
    rcases mem_effects_of_perform hperform hmem with
      ⟨hold, -⟩ | ⟨script, choice, first, moves, rest, -, -, hplayed, rfl⟩
    · exact hearlier effect hold
    · exact hplay current next script choice first moves rest hcurrent hplayed

end Game

end Tableau
