import Tableau.Proofs.Numbering

/-!
Cards that the turn before has promised a play without a slot.  That the promise
was used is not written down: a play of the card takes no slot as long as no copy
of the card that takes none is in play.  So the promise is good for one play only
if such a copy stays in play afterwards and none came into play before.  Main
statement: `replaysOnce_iff`.
-/

namespace Tableau

namespace Table

def copies (table : Table) (id : CardId) : List InPlay :=
  table.cards.filter fun seat => seat.card.id == id

theorem mem_copies {table : Table} {id : CardId} {seat : InPlay} :
    seat ∈ table.copies id ↔ seat ∈ table.cards ∧ seat.card.id = id := by
  simp [copies]

theorem carryOut_copies {table after : Table} {next later : PlayId}
    {move done : Move} {id : CardId}
    (hcarry : table.carryOut next move = .ok (some (done, after, later)))
    (hother : ∀ placement ∈ table.placements, move.Picks placement →
      placement.card.id ≠ id) :
    after.copies id = table.copies id := by
  obtain ⟨card, left, rest, htaken, hcards⟩ := carryOut_cards hcarry
  have hout := takeOut?_eq_some htaken
  have hne : card.id ≠ id :=
    hother _ (hout.placements ▸ Multiset.mem_cons_self _ _) hout.picks
  have hrest : rest.copies id = table.copies id := by
    rcases takeOut?_cards htaken with hsame | ⟨wanted, seat, hfind, rfl, herased⟩
    · rw [copies, copies, hsame]
    · rw [copies, herased]
      exact filter_eraseP hfind (by simpa using hne)
  rw [← hrest]
  rcases hcards with hcards | ⟨play, hcards⟩
  · rw [copies, copies, hcards]
  · simp [copies, hcards, hne]

theorem Relocated.copies {source dest : Zone} {targets : List CardId}
    {table after : Table} {next later : PlayId} {moves : List Move} {id : CardId}
    (hmoved : Relocated source dest targets table next moves after later)
    (hother : id ∉ targets) : after.copies id = table.copies id := by
  induction hmoved with
  | nil => rfl
  | @cons card rest table moved after next middle later move moves hcarry htail
      ih =>
      rw [List.mem_cons, not_or] at hother
      obtain ⟨hhead, hrest⟩ := hother
      have hwelcome : (moved.welcome dest).copies id = moved.copies id := by
        simp [Table.copies]
      rw [ih hrest, hwelcome]
      apply carryOut_copies hcarry
      intro placement _ hpicks
      have hid : placement.card.id = card := by simpa using hpicks.2
      rw [hid]
      exact Ne.symm hhead

end Table

section Undo

variable {table after : Table} {next later : PlayId}
  {effects : Multiset PlayId} {records : Multiset Move} {moves : List Move}

theorem Ledger.Numbered.copies_carriedOut {id : CardId}
    (hnumbered : Ledger.Numbered
      ⟨table.placements, effects, records + (moves.map Move.inverse)⟩ next)
    (hcarry : table.carryOutAll next moves = .ok (after, later))
    (hother : ∀ move ∈ moves, move.card ≠ id) :
    after.copies id = table.copies id := by
  induction moves generalizing table next with
  | nil =>
      simp only [Table.carryOutAll, pure_eq_ok_iff, Prod.mk.injEq] at hcarry
      rw [hcarry.1]
  | cons move rest ih =>
      obtain ⟨hhead, htail⟩ := List.forall_mem_cons.mp hother
      rw [List.map_cons, ← Multiset.cons_coe, Multiset.add_cons] at hnumbered
      rw [Table.carryOutAll, bind_eq_ok_iff] at hcarry
      obtain ⟨answer, hone, hrest⟩ := hcarry
      cases answer with
      | none =>
          have hkept := hnumbered.mono le_rfl le_rfl (Multiset.le_cons_self _ _)
          exact ih hkept hrest htail
      | some made =>
          obtain ⟨done, moved, middle⟩ := made
          obtain ⟨taken, others, hspec⟩ := Table.carryOut_eq_some hone
          rw [ih (hnumbered.undone hspec) hrest htail]
          apply Table.carryOut_copies hone
          intro placement hmem hpicks
          rw [hnumbered.picks_card (Multiset.mem_cons_self _ _) hmem hpicks]
          exact hhead

end Undo

/-- The action does not move a card: neither does it play an effect on the card
that moves it, nor take such an effect back, nor remove the card. -/
def PlayerAction.Spares (id : CardId) (table : Table) : PlayerAction → Prop
  | .playEffect script choice => id ∉ Game.movedTargets script choice
  | .removeCard play _ => ∀ seat, table.cardAt? play = some seat →
      seat.card.id ≠ id
  | .removeEffect play => ∀ effect, table.effectAt? play = some effect →
      ∀ move ∈ effect.moves, move.card ≠ id
  | _ => True

/-- An accepted play of a card: the table before it, and the card as it lies in
play after it. -/
structure Entrance where
  table : Table
  seat : InPlay

namespace Game

def lastEntrance (id : CardId) (game after : Game) : List Entrance :=
  (after.table.cards.getLast?.toList.filter fun seat =>
    seat.card.id == id).map (Entrance.mk game.table)

/-- What the action has played, if that is a copy of the card.  A card that is
played lies last. -/
def entrances (id : CardId) (game : Game) (action : PlayerAction)
    (result : Except Refusal Answer) (after : Game) : List Entrance :=
  match action, result with
  | .playCard _, .ok _ => game.lastEntrance id after
  | .playFromDeck _, .ok _ => game.lastEntrance id after
  | _, _ => []

/-- Carry out actions one after the other, and list the accepted plays of a
card. -/
def recordPlays (id : CardId) :
    Game → List PlayerAction → Checked (List Entrance × Game)
  | game, [] => pure ([], game)
  | game, action :: rest => do
      let (result, after) ← game.perform action
      let (later, final) ← recordPlays id after rest
      pure (game.entrances id action result after ++ later, final)

def SparesCard (id : CardId) : Game → List PlayerAction → Prop
  | _, [] => True
  | game, action :: rest => action.Spares id game.table ∧
      ∀ result after, game.perform action = .ok (result, after) →
        SparesCard id after rest

/-- An action within a turn that is not an accepted play of the card. -/
structure Bypasses (id : CardId) (game : Game) (action : PlayerAction)
    (after : Game) : Prop where
  carry : after.table.carry = game.table.carry
  slotted : ∀ seat ∈ after.table.slotted, seat.card.id = id →
    seat ∈ game.table.slotted
  copies : game.ledger.Numbered game.nextPlay → action.Spares id game.table →
    after.table.copies id = game.table.copies id

section Bypasses

variable {id : CardId} {game after : Game} {action : PlayerAction}

theorem bypasses_of_cards_eq (hcarry : after.table.carry = game.table.carry)
    (hcards : after.table.cards = game.table.cards) :
    game.Bypasses id action after where
  carry := hcarry
  slotted seat hseat _ := by
    rw [Table.slotted, hcards] at hseat
    exact hseat
  copies _ _ := by rw [Table.copies, hcards, Table.copies]

theorem CardPlayed.bypasses {card : Card} (hplayed : game.CardPlayed card after)
    (hother : card.id ≠ id) : game.Bypasses id action after where
  carry := hplayed.carry_eq
  slotted seat hseat hid := by
    rw [Table.slotted, hplayed.cards, List.filter_append, List.mem_append]
      at hseat
    apply hseat.resolve_right
    intro hnew
    rw [List.mem_singleton.mp (List.mem_of_mem_filter hnew)] at hid
    exact hother hid
  copies _ _ := by simp [Table.copies, hplayed.cards, hother]

theorem EffectPlayed.bypasses {script : Script} {choice : Choice}
    {first : PlayId} {moves : List Move} {rest : Table}
    (hplayed : game.EffectPlayed script choice first moves rest after) :
    game.Bypasses id (.playEffect script choice) after := by
  obtain ⟨dest, -, hmoved⟩ := relocate_eq_ok hplayed.moved
  have hcards : after.table.cards = rest.cards := by rw [hplayed.table]
  refine ⟨by rw [hplayed.table_frame], ?_, ?_⟩
  · intro seat hseat _
    rw [Table.slotted, hcards] at hseat
    exact hmoved.slotted_sublist.mem hseat
  · intro _ hspares
    rw [Table.copies, hcards]
    exact hmoved.copies hspares

theorem CardRemoved.bypasses {play : PlayId} {dest : Zone} {seat : InPlay}
    {rest : Multiset Placement}
    (hremoved : game.CardRemoved play dest seat rest after) :
    game.Bypasses id (.removeCard play dest) after := by
  refine ⟨by rw [hremoved.frame], ?_, ?_⟩
  · intro other hother _
    rw [Table.slotted, hremoved.cards] at hother
    exact (List.eraseP_sublist.filter _).mem hother
  · intro _ hspares
    rw [Table.copies, hremoved.cards]
    have hne : seat.card.id ≠ id := hspares seat hremoved.found
    exact filter_eraseP hremoved.found (by simpa using hne)

theorem EffectRemoved.bypasses {play : PlayId} {effect : Effect}
    (hremoved : game.EffectRemoved play effect after) :
    game.Bypasses id (.removeEffect play) after := by
  refine ⟨by rw [hremoved.table_frame], ?_, ?_⟩
  · intro seat hseat _
    exact (Table.carryOutAll_slotted_sublist hremoved.undone).mem hseat
  · intro hnumbered hspares
    apply (hremoved.numbered_rest recalls_moves hnumbered).copies_carriedOut hremoved.undone
    intro move hmove
    exact hspares effect hremoved.found move.inverse
      (Effect.mem_reversedMoves.mp hmove).2

theorem CardPlayed.entrance_or_bypasses {card : Card}
    (hplayed : game.CardPlayed card after) :
    (card.id = id ∧ game.lastEntrance id after =
        [⟨game.table, game.nextPlay, card, game.isFreeReplay id⟩]) ∨
      game.Bypasses id action after ∧ game.lastEntrance id after = [] := by
  by_cases hid : card.id = id
  · refine .inl ⟨hid, ?_⟩
    simp [lastEntrance, hplayed.cards, hid]
  · refine .inr ⟨hplayed.bypasses hid, ?_⟩
    simp [lastEntrance, hplayed.cards, hid]

/-- An action that does not break off and does not end the turn plays the card or
bypasses it. -/
theorem perform_bypasses {result : Except Refusal Answer}
    (hperform : game.perform action = .ok (result, after))
    (hturn : action ≠ .endTurn) :
    (∃ card, game.CardPlayed card after ∧ card.id = id ∧
      game.entrances id action result after =
        [⟨game.table, game.nextPlay, card, game.isFreeReplay id⟩]) ∨
      game.Bypasses id action after ∧
        game.entrances id action result after = [] := by
  rcases perform_eq_ok hperform with ⟨refusal, rfl, rfl⟩ | ⟨answer, rfl, haccepted⟩
  · refine .inr ⟨bypasses_of_cards_eq rfl rfl, ?_⟩
    cases action <;> rfl
  · cases haccepted with
    | deckStocked cards => exact .inr ⟨bypasses_of_cards_eq rfl rfl, rfl⟩
    | @cardPlayed card _ hplayed =>
        exact hplayed.entrance_or_bypasses.imp_left fun hcard =>
          ⟨card, hplayed, hcard⟩
    | @deckPlayed _ card _ _ hplayed =>
        exact hplayed.entrance_or_bypasses.imp_left fun hcard =>
          ⟨card, hplayed, hcard⟩
    | effectAllowed _ => exact .inr ⟨bypasses_of_cards_eq rfl rfl, rfl⟩
    | effectPlayed hplayed => exact .inr ⟨hplayed.bypasses, rfl⟩
    | cardRemoved hremoved => exact .inr ⟨hremoved.bypasses, rfl⟩
    | effectRemoved hremoved => exact .inr ⟨hremoved.bypasses, rfl⟩
    | turnEnded _ => exact absurd rfl hturn

end Bypasses

/-- Actions within one turn, with the accepted plays of the card. -/
inductive Turn (id : CardId) :
    Game → List PlayerAction → List Entrance → Game → Prop where
  | done {game : Game} : Turn id game [] [] game
  | entered {game middle after : Game} {action : PlayerAction}
      {result : Except Refusal Answer} {card : Card}
      {rest : List PlayerAction} {plays : List Entrance}
      (hperform : game.perform action = .ok (result, middle))
      (hplayed : game.CardPlayed card middle) (hid : card.id = id)
      (htail : Turn id middle rest plays after) :
      Turn id game (action :: rest)
        (⟨game.table, game.nextPlay, card, game.isFreeReplay id⟩ :: plays) after
  | passed {game middle after : Game} {action : PlayerAction}
      {result : Except Refusal Answer} {rest : List PlayerAction}
      {plays : List Entrance}
      (hperform : game.perform action = .ok (result, middle))
      (hpasses : game.Bypasses id action middle)
      (htail : Turn id middle rest plays after) :
      Turn id game (action :: rest) plays after

theorem exists_turn (id : CardId) {game after : Game} {actions : List PlayerAction}
    (hturn : .endTurn ∉ actions) (hrun : game.run actions = .ok after) :
    ∃ plays, recordPlays id game actions = .ok (plays, after) ∧
      Turn id game actions plays after := by
  induction actions generalizing game with
  | nil =>
      obtain rfl := run_nil_eq_ok_iff.mp hrun
      exact ⟨[], rfl, .done⟩
  | cons action rest ih =>
      rw [List.mem_cons, not_or] at hturn
      obtain ⟨result, middle, hperform, hrest⟩ := run_cons_eq_ok_iff.mp hrun
      obtain ⟨plays, hrecord, htail⟩ := ih hturn.2 hrest
      refine ⟨game.entrances id action result middle ++ plays, ?_, ?_⟩
      · rw [recordPlays, bind_eq_ok_iff]
        refine ⟨_, hperform, ?_⟩
        rw [bind_eq_ok_iff]
        exact ⟨_, hrecord, rfl⟩
      · rcases perform_bypasses hperform (Ne.symm hturn.1) with
          ⟨card, hplayed, hid, hentered⟩ | ⟨hpasses, hnone⟩
        · rw [hentered]
          exact .entered hperform hplayed hid htail
        · rw [hnone]
          exact .passed hperform hpasses htail

/-- The turn before has promised a play of the card without a slot. -/
def Promises (game : Game) (id : CardId) : Prop :=
  game.table.carry.any (fun carry => carry.isReplayable id) = true

/-- A promised play takes no slot exactly if every copy in play takes one. -/
theorem isFreeReplay_iff {game : Game} {id : CardId} (hlisted : game.Promises id) :
    game.isFreeReplay id = true ↔
      ∀ seat ∈ game.table.copies id, seat.free = false := by
  rw [isFreeReplay, hlisted]
  simp only [Bool.true_and, Bool.not_eq_true', List.any_eq_false,
    Bool.and_eq_true, beq_iff_eq, not_and, Table.mem_copies]
  constructor
  · rintro hfree seat ⟨hseat, hid⟩
    by_contra hslot
    exact hfree seat hseat (by simpa using hslot) hid
  · intro hfree seat hseat hslot hid
    rw [hfree seat ⟨hseat, hid⟩] at hslot
    cases hslot

/-- The first play takes no slot, and all later ones take one. -/
def ReplaysOnce : List Entrance → Prop
  | [] => True
  | first :: later => first.seat.free = true ∧
      ∀ play ∈ later, play.seat.free = false

/-- What is in play shows whether the promise was used: the first play finds no
copy of the card there, and all later ones find one that takes no slot. -/
def ShowsUse (id : CardId) : List Entrance → Prop
  | [] => True
  | first :: later => first.table.copies id = [] ∧
      ∀ play ∈ later, ∃ seat ∈ play.table.copies id, seat.free = true

section Turn

variable {id : CardId} {game after : Game} {actions : List PlayerAction}
  {plays : List Entrance}

theorem Promises.of_carry_eq (hlisted : game.Promises id)
    (hcarry : after.table.carry = game.table.carry) : after.Promises id := by
  rw [Promises, hcarry]
  exact hlisted

theorem Turn.free_iff (hturn : Turn id game actions plays after)
    (hlisted : game.Promises id) : ∀ play ∈ plays, play.seat.free = true ↔
      ∀ seat ∈ play.table.copies id, seat.free = false := by
  induction hturn with
  | done => simp
  | entered hperform hplayed hid htail ih =>
      have hrest := ih (hlisted.of_carry_eq hplayed.carry_eq)
      exact List.forall_mem_cons.mpr ⟨isFreeReplay_iff hlisted, hrest⟩
  | passed hperform hpasses htail ih =>
      exact ih (hlisted.of_carry_eq hpasses.carry)

/-- Copies that are in play before the card is played for the first time take no
slot, for only effects have brought them there. -/
theorem Turn.copies_free {first : Entrance} {later : List Entrance}
    (hturn : Turn id game actions (first :: later) after)
    (hnone : ∀ seat ∈ game.table.slotted, seat.card.id ≠ id) :
    ∀ seat ∈ first.table.copies id, seat.free = true := by
  generalize hplays : first :: later = plays at hturn
  induction hturn with
  | done => cases hplays
  | @entered game _ _ _ _ card _ _ hperform hplayed hid htail ih =>
      cases hplays
      intro seat hseat
      obtain ⟨hcard, hcopy⟩ := Table.mem_copies.mp hseat
      by_contra hslot
      refine hnone seat ?_ hcopy
      exact List.mem_filter.mpr ⟨hcard, by simpa using hslot⟩
  | passed hperform hpasses htail ih =>
      refine ih ?_ hplays
      intro seat hseat hid
      exact hnone seat (hpasses.slotted seat hseat hid) hid

theorem Turn.once_iff_showsUse (hturn : Turn id game actions plays after)
    (hlisted : game.Promises id)
    (hnone : ∀ seat ∈ game.table.slotted, seat.card.id ≠ id) :
    ReplaysOnce plays ↔ ShowsUse id plays := by
  cases plays with
  | nil => exact Iff.rfl
  | cons first later =>
      obtain ⟨hfirst, hlater⟩ :=
        List.forall_mem_cons.mp (hturn.free_iff hlisted)
      have hfree := hturn.copies_free hnone
      apply and_congr
      · rw [hfirst, List.eq_nil_iff_forall_not_mem]
        constructor
        · intro hslots seat hseat
          exact Bool.false_ne_true
            ((hslots seat hseat).symm.trans (hfree seat hseat))
        · intro hempty seat hseat
          exact absurd hseat (hempty seat)
      · apply forall₂_congr
        intro play hplay
        rw [← Bool.not_eq_true, hlater play hplay]
        simp only [not_forall, exists_prop, Bool.not_eq_false]

theorem Turn.shows_later (hturn : Turn id game actions plays after)
    (hnumbered : game.ledger.Numbered game.nextPlay)
    (hspares : SparesCard id game actions)
    (hfree : ∃ seat ∈ game.table.copies id, seat.free = true) :
    ∀ play ∈ plays, ∃ seat ∈ play.table.copies id, seat.free = true := by
  induction hturn with
  | done => simp
  | entered hperform hplayed hid htail ih =>
      refine List.forall_mem_cons.mpr ⟨hfree, ?_⟩
      apply ih (perform_numbered hnumbered hperform)
        (hspares.2 _ _ hperform)
      obtain ⟨seat, hseat, hslot⟩ := hfree
      refine ⟨seat, ?_, hslot⟩
      rw [Table.copies, hplayed.cards, List.filter_append]
      exact List.mem_append_left _ hseat
  | passed hperform hpasses htail ih =>
      apply ih (perform_numbered hnumbered hperform)
        (hspares.2 _ _ hperform)
      rw [hpasses.copies hnumbered hspares.1]
      exact hfree

/-- Where nothing but plays moves the card, the promise is good for one play. -/
theorem Turn.showsUse (hturn : Turn id game actions plays after)
    (hnumbered : game.ledger.Numbered game.nextPlay)
    (hspares : SparesCard id game actions) (hlisted : game.Promises id)
    (hempty : game.table.copies id = []) : ShowsUse id plays := by
  induction hturn with
  | done => trivial
  | @entered game middle _ _ _ card _ _ hperform hplayed hid htail ih =>
      refine ⟨hempty, ?_⟩
      apply htail.shows_later (perform_numbered hnumbered hperform)
        (hspares.2 _ _ hperform)
      have hfree : game.isFreeReplay card.id = true := by
        rw [hid, isFreeReplay_iff hlisted, hempty]
        simp
      refine ⟨⟨game.nextPlay, card, game.isFreeReplay card.id⟩, ?_, hfree⟩
      rw [Table.mem_copies, hplayed.cards]
      exact ⟨by simp, hid⟩
  | passed hperform hpasses htail ih =>
      apply ih (perform_numbered hnumbered hperform) (hspares.2 _ _ hperform)
        (hlisted.of_carry_eq hpasses.carry)
      rw [hpasses.copies hnumbered hspares.1]
      exact hempty

end Turn

theorem cards_eq_nil_of_endTurn {rules : Rules} {earlier : List PlayerAction}
    {game : Game} (hrun : run { rules } (earlier ++ [.endTurn]) = .ok game) :
    game.table.cards = [] := by
  obtain ⟨before, -, hlast⟩ := run_append_eq_ok_iff.mp hrun
  obtain ⟨result, ended, hend, hnil⟩ := run_cons_eq_ok_iff.mp hlast
  obtain rfl := run_nil_eq_ok_iff.mp hnil
  rw [(perform_endTurn_eq_ok hend).2.frame]

/-- The first play in a turn of a card that may be replayed takes no slot and all
later ones take one exactly if no copy of the card is in play at the first play,
and at each later one a copy that takes no slot.  So it is if nothing but plays
moves the card during the turn. -/
theorem replaysOnce_iff {rules : Rules} {earlier actions : List PlayerAction}
    {game after : Game} {id : CardId}
    (hstart : run { rules } (earlier ++ [.endTurn]) = .ok game)
    (hlisted : game.Promises id) (hturn : .endTurn ∉ actions)
    (hrun : game.run actions = .ok after) :
    ∃ plays, recordPlays id game actions = .ok (plays, after) ∧
      (ReplaysOnce plays ↔ ShowsUse id plays) ∧
      (SparesCard id game actions → ReplaysOnce plays) := by
  obtain ⟨plays, hrecord, hplays⟩ := exists_turn id hturn hrun
  have hempty : game.table.copies id = [] := by
    rw [Table.copies, cards_eq_nil_of_endTurn hstart, List.filter_nil]
  have hnone : ∀ seat ∈ game.table.slotted, seat.card.id ≠ id := by
    simp [Table.slotted, cards_eq_nil_of_endTurn hstart]
  have hiff := hplays.once_iff_showsUse hlisted hnone
  refine ⟨plays, hrecord, hiff, ?_⟩
  intro hspares
  exact hiff.mpr
    (hplays.showsUse (ledger_numbered_run hstart) hspares hlisted hempty)

def promiseRoxy : List PlayerAction :=
  [.playCard ⟨⟨1⟩, "Roxy", .goth, 3⟩,
    .playEffect
      { id := ⟨1⟩, name := "Encore", target := { count := .one }
        promise := some { replay := true } }
      { targets := [⟨1⟩] }]

/-- The card is played twice in a row in the turn after. -/
theorem replaysOnce_iff_promiseRoxy :
    ∃ game after plays, run {} (promiseRoxy ++ [.endTurn]) = .ok game ∧
      game.run [.playCard ⟨⟨1⟩, "Roxy", .goth, 3⟩,
        .playCard ⟨⟨1⟩, "Roxy", .goth, 3⟩] = .ok after ∧
      recordPlays ⟨1⟩ game [.playCard ⟨⟨1⟩, "Roxy", .goth, 3⟩,
        .playCard ⟨⟨1⟩, "Roxy", .goth, 3⟩] = .ok (plays, after) ∧
      plays.map (fun play => play.seat.free) = [true, false] ∧
      ReplaysOnce plays := by
  obtain ⟨game, after, plays, hstart, hlisted, hrun, hrecord, hfree⟩ :
      ∃ game after plays, run {} (promiseRoxy ++ [.endTurn]) = .ok game ∧
        game.table.carry.any (fun carry => carry.isReplayable ⟨1⟩) = true ∧
        game.run [.playCard ⟨⟨1⟩, "Roxy", .goth, 3⟩,
          .playCard ⟨⟨1⟩, "Roxy", .goth, 3⟩] = .ok after ∧
        recordPlays ⟨1⟩ game [.playCard ⟨⟨1⟩, "Roxy", .goth, 3⟩,
          .playCard ⟨⟨1⟩, "Roxy", .goth, 3⟩] = .ok (plays, after) ∧
        plays.map (fun play => play.seat.free) = [true, false] :=
    ⟨_, _, _, rfl, rfl, rfl, rfl, rfl⟩
  obtain ⟨same, hsame, -, honce⟩ :=
    replaysOnce_iff hstart hlisted (by simp) hrun
  cases hrecord.symm.trans hsame
  refine ⟨game, after, plays, hstart, hrun, hrecord, hfree, honce ?_⟩
  exact ⟨trivial, fun _ _ _ => ⟨trivial, fun _ _ _ => trivial⟩⟩

/-- The promise is not good for one play only: once an effect has banished the
card, it can be played without a slot again. -/
theorem not_replaysOnce :
    ¬ ∀ (rules : Rules) (earlier actions : List PlayerAction)
        (game after : Game) (id : CardId) (plays : List Entrance),
      run { rules } (earlier ++ [.endTurn]) = .ok game → game.Promises id →
      .endTurn ∉ actions → recordPlays id game actions = .ok (plays, after) →
      ReplaysOnce plays := by
  intro hall
  let actions : List PlayerAction :=
    [.playCard ⟨⟨1⟩, "Roxy", .goth, 3⟩,
      .playEffect (.mover "Banish" .play .discard) { targets := [⟨1⟩] },
      .playCard ⟨⟨1⟩, "Roxy", .goth, 3⟩]
  obtain ⟨game, after, first, second, hstart, hlisted, hrecord, hfree⟩ :
      ∃ game after first second,
        run {} (promiseRoxy ++ [.endTurn]) = .ok game ∧
        game.table.carry.any (fun carry => carry.isReplayable ⟨1⟩) = true ∧
        recordPlays ⟨1⟩ game actions = .ok ([first, second], after) ∧
        second.seat.free = true := ⟨_, _, _, _, rfl, rfl, rfl, rfl⟩
  have honce := hall {} promiseRoxy actions game after ⟨1⟩ [first, second]
    hstart hlisted (by simp [actions]) hrecord
  have hslot := honce.2 second List.mem_cons_self
  cases hfree.symm.trans hslot

end Game

end Tableau
