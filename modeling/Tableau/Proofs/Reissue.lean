import Tableau.Proofs.Occupancy
import Tableau.Proofs.Restoring

/-!
Handing out a play number for the second time.  With enough slots, one card can be
played again and again until a given number is its own; and an effect that
remembers another card under that number moves it when it is taken back.  Main
statement: `ofTable_reversals_iff`.
-/

namespace Tableau

namespace Rules

variable {rules : Rules} {all : List LimitRule}

/-- Rules under which the limits of effects that declare `all` leave as many card
slots as can be counted. -/
def roomy (all : List LimitRule) : Rules :=
  { cards := UInt32.ofNat (UInt32.size - 1 - (all.map LimitRule.extraCards).sum)
    effects := 0 }

theorem cardTotal_roomy (hfits : ¬ rules.Exceeded all) :
    (roomy all).cardTotal all = UInt32.size - 1 := by
  have hsize : 0 < UInt32.size := by decide
  simp only [Exceeded, not_or, Nat.not_le, cardTotal] at hfits
  change (UInt32.ofNat _).toNat + _ = _
  rw [UInt32.toNat_ofNat_of_lt' (by omega)]
  omega

theorem roomy_fits (hfits : ¬ rules.Exceeded all) :
    ¬ (roomy all).Exceeded all := by
  have hcards := cardTotal_roomy hfits
  have hsize : 0 < UInt32.size := by decide
  rintro (hlarge | hlarge | hslots)
  · omega
  · apply hfits
    right
    left
    exact hlarge.trans (Nat.add_le_add_right (Nat.zero_le _) _)
  · exact hfits (.inr (.inr hslots))

end Rules

namespace Limits

theorem exists_roomy {rules : Rules} {scripts : List Script}
    (hfits : ¬ rules.Exceeded (scripts.flatMap Script.limits))
    (carry : Option CarryOver) :
    ∃ limits,
      resolve (.roomy (scripts.flatMap Script.limits)) scripts carry =
        .ok limits ∧ UInt32.size ≤ limits.cards.toNat + 1 := by
  rcases resolve_cases (.roomy (scripts.flatMap Script.limits)) scripts carry
    with ⟨-, limits, hlimits, htotals⟩ | ⟨hexceeded, -⟩
  · refine ⟨limits, hlimits, ?_⟩
    have hcards := htotals.cards
    rw [List.foldl_max, Rules.cardTotal_roomy hfits] at hcards
    omega
  · exact absurd hexceeded (Rules.roomy_fits hfits)

theorem checkCard_of_roomy {limits : Limits} {table : Table} {suit : Suit}
    (hroom : UInt32.size ≤ limits.cards.toNat + 1)
    (hsuit : limits.checkSuit suit = .ok ())
    (hsize : table.cards.length + table.effects.length + 1 < UInt32.size) :
    limits.checkCard table suit = .ok (.ok ()) := by
  have hcount : table.cards.length + table.effects.length < UInt32.size := by
    omega
  obtain ⟨used, hused, hgeneral, -⟩ := limits.exists_occupancy hcount
  have hspill := limits.spill_le_length (table.slotted.map InPlay.card)
  have hslotted : table.slotted.length ≤ table.cards.length :=
    List.length_filter_le _ _
  have htakers : table.effects.countP (fun effect => effect.script.takesSlot) ≤
      table.effects.length := List.countP_le_length
  have hfree : used.general < limits.cards := by
    rw [UInt32.lt_iff_toNat_lt, hgeneral, demand]
    rw [List.length_map] at hspill
    omega
  exact (checkCard_eq_ok_iff hused).mpr ⟨hsuit, .inr (.inr hfree)⟩

end Limits

namespace Game

variable {game after : Game} {card : Card} {limits : Limits}

/-- What it takes for a card to be played again and again. -/
structure Welcomes (game : Game) (card : Card) (limits : Limits) : Prop where
  inForce : Limits.ofTable game.rules game.table = .ok limits
  room : UInt32.size ≤ limits.cards.toNat + 1
  suit : limits.checkSuit card.suit = .ok ()
  numbered : (game.ledgerOf fun _ => []).Numbered game.nextPlay

theorem Welcomes.exists_play (hwelcomes : game.Welcomes card limits)
    {last : PlayId} (hlast : game.nextPlay.number < last.number) :
    ∃ after, game.perform (.playCard card) =
        .ok (.ok (.played game.nextPlay), after) ∧
      game.CardPlayed card after ∧ after.Welcomes card limits ∧
      after.nextPlay.number.toNat = game.nextPlay.number.toNat + 1 := by
  obtain ⟨next, hnext, hsucc⟩ := PlayId.exists_next hlast
  have hsize : game.table.cards.length + game.table.effects.length + 1 <
      UInt32.size := by
    have hcount := hwelcomes.numbered.card_spent_le
    have hbound := UInt32.toNat_lt_size next.number
    rw [Ledger.spent, ledgerOf, Table.filterMap_play_placements,
      Multiset.card_add, Multiset.card_add, Multiset.coe_card, Multiset.coe_card,
      List.length_map, List.length_map] at hcount
    omega
  have hcheck := Limits.checkCard_of_roomy hwelcomes.room hwelcomes.suit hsize
  have hplay : ∃ after,
      game.playCard card = .ok (.ok game.nextPlay, after) := by
    by_cases hfree : game.isFreeReplay card.id = true
    · simp [playCard, hwelcomes.inForce, hfree, hwelcomes.suit, hnext,
        bind_eq_ok_iff]
    · simp [playCard, hwelcomes.inForce, hfree, hcheck, hnext, bind_eq_ok_iff]
  obtain ⟨after, hplay⟩ := hplay
  rcases playCard_eq_ok hplay with ⟨_, hfault, -⟩ | ⟨-, hplayed⟩
  · cases hfault
  · have hsame : after.nextPlay = next := by
      have hnumber := hplayed.numbered.symm.trans hnext
      exact Except.ok.inj hnumber
    have hrules : after.rules = game.rules := by rw [hplayed.frame]
    have hscripts : after.table.scripts = game.table.scripts := by
      rw [hplayed.table_frame]
      rfl
    refine ⟨after, ?_, hplayed, ⟨?_, hwelcomes.room, hwelcomes.suit,
      hplayed.ledgerOf_numbered hwelcomes.numbered⟩, hsame ▸ hsucc⟩
    · rw [perform, hplay]
      rfl
    · rw [Limits.ofTable, hscripts, hplayed.carry_eq, hrules]
      exact hwelcomes.inForce

/-- The card is played until a given number is the next one. -/
theorem Welcomes.exists_run (hwelcomes : game.Welcomes card limits)
    {last : PlayId}
    (hle : game.nextPlay.number.toNat ≤ last.number.toNat) :
    ∃ actions after, game.run actions = .ok after ∧
      after.Welcomes card limits ∧ after.nextPlay = last ∧
      after.table.effects = game.table.effects := by
  induction hgap : last.number.toNat - game.nextPlay.number.toNat
    generalizing game with
  | zero =>
      have hnumber : game.nextPlay.number = last.number :=
        UInt32.toNat_inj.mp (by omega)
      exact ⟨[], game, rfl, hwelcomes, congrArg PlayId.mk hnumber, rfl⟩
  | succ gap ih =>
      have hlt : game.nextPlay.number < last.number :=
        UInt32.lt_iff_toNat_lt.mpr (by omega)
      obtain ⟨middle, hperform, hplayed, hstill, hsucc⟩ :=
        hwelcomes.exists_play hlt
      obtain ⟨actions, after, hrun, hlast, hnext, heffects⟩ :=
        ih hstill (by omega) (by omega)
      refine ⟨.playCard card :: actions, after, ?_, hlast, hnext, ?_⟩
      · rw [run_cons hperform, hrun]
      · rw [heffects, hplayed.table_frame]

theorem recordReversals_concat {middle final : Game}
    {actions : List PlayerAction} {action : PlayerAction} {all : List Reversed}
    (hrun : game.run actions = .ok middle)
    (hrecord : recordReversals game (actions ++ [action]) = .ok (all, final)) :
    ∃ taken, middle.reversals action = .ok taken ∧ taken ⊆ all := by
  induction actions generalizing game all with
  | nil =>
      obtain rfl := run_nil_eq_ok_iff.mp hrun
      simp only [List.nil_append, recordReversals, bind_eq_ok_iff,
        pure_eq_ok_iff, Prod.mk.injEq] at hrecord
      obtain ⟨taken, htaken, _, -, _, rfl, rfl, -⟩ := hrecord
      exact ⟨taken, htaken, by simp⟩
  | cons first rest ih =>
      obtain ⟨result, moved, hperform, hrest⟩ := run_cons_eq_ok_iff.mp hrun
      simp only [List.cons_append, recordReversals, hperform, bind_eq_ok_iff,
        pure_eq_ok_iff, Prod.mk.injEq] at hrecord
      obtain ⟨_, -, _, hsame, ⟨later, _⟩, hlater, rfl, rfl⟩ := hrecord
      cases hsame
      obtain ⟨taken, htaken, hsub⟩ := ih hrest hlater
      exact ⟨taken, htaken, List.subset_append_of_subset_right _ hsub⟩

end Game

section Table

variable {table after : Table} {next later play : PlayId} {id : CardId}

/-- The first card in play under the number is the given one. -/
def Table.HasFirst (table : Table) (play : PlayId) (id : CardId) : Prop :=
  ∃ seat, table.cardAt? play = some seat ∧ seat.card.id = id

theorem Table.HasFirst.carryOut {move done : Move}
    (hfirst : table.HasFirst play id)
    (hcarry : table.carryOut next move = .ok (some (done, after, later)))
    (hnumbered : move.source = .play → move.play.isSome)
    (hother : ¬ (move.source = .play ∧ move.play = some play)) :
    after.HasFirst play id := by
  obtain ⟨seat, hseat, hid⟩ := hfirst
  obtain ⟨card, left, rest, htaken, hcards⟩ := carryOut_cards hcarry
  have hrest : rest.cardAt? play = some seat := by
    cases hsource : move.source with
    | play =>
        obtain ⟨number, hnumber⟩ := Option.isSome_iff_exists.mp (hnumbered hsource)
        simp only [takeOut?, hsource, hnumber, Option.map_eq_some_iff,
          Prod.mk.injEq] at htaken
        obtain ⟨_, -, -, -, rfl⟩ := htaken
        rw [← hseat]
        apply find?_eraseP
        intro seat hsame
        have hne : number ≠ play := fun heq => hother ⟨hsource, heq ▸ hnumber⟩
        simp_all
    | deck =>
        simp only [takeOut?, hsource, Option.map_eq_some_iff,
          Prod.mk.injEq] at htaken
        obtain ⟨_, -, -, -, rfl⟩ := htaken
        exact hseat
    | discard =>
        simp only [takeOut?, hsource, Option.map_eq_some_iff,
          Prod.mk.injEq] at htaken
        obtain ⟨_, -, -, -, rfl⟩ := htaken
        exact hseat
  refine ⟨seat, ?_, hid⟩
  rcases hcards with hcards | ⟨number, hcards⟩
  · rw [cardAt?, hcards]
    exact hrest
  · rw [cardAt?] at hrest ⊢
    rw [hcards, List.find?_append, hrest]
    rfl

theorem Table.HasFirst.exists_strange {moves : List Move} {all : List Reversed}
    (hfirst : table.HasFirst play id)
    (hmove : ∃ move ∈ moves, move.source = .play ∧ move.play = some play)
    (hnumbered : ∀ move ∈ moves, move.source = .play → move.play.isSome)
    (hother : ∀ move ∈ moves, move.play = some play → move.card ≠ id)
    (hall : table.reversed next moves = .ok all) :
    ∃ reversed ∈ all, ¬ reversed.Own := by
  induction moves generalizing table next all with
  | nil => simp at hmove
  | cons move rest ih =>
      obtain ⟨hhead, htail⟩ := List.forall_mem_cons.mp hnumbered
      obtain ⟨hstrange, hrest⟩ := List.forall_mem_cons.mp hother
      rw [reversed, bind_eq_ok_iff] at hall
      obtain ⟨answer, hone, hall⟩ := hall
      by_cases hthis : move.source = .play ∧ move.play = some play
      · obtain ⟨seat, hseat, hid⟩ := hfirst
        have htaken : ∃ left, table.takeOut? move = some (seat.card, left) := by
          rw [cardAt?] at hseat
          simp [takeOut?, hthis.1, hthis.2, hseat]
        obtain ⟨left, htaken⟩ := htaken
        cases answer with
        | none =>
            have hnone := takeOut?_eq_none_iff.mpr (carryOut_eq_none_iff.mp hone)
            cases hnone.symm.trans htaken
        | some made =>
            obtain ⟨done, moved, middle⟩ := made
            simp only [htaken, bind_eq_ok_iff, pure_eq_ok_iff] at hall
            obtain ⟨others, -, rfl⟩ := hall
            refine ⟨⟨move, seat.card⟩, by simp, ?_⟩
            rw [Reversed.Own, hid]
            exact (hstrange hthis.2).symm
      · have hlater : ∃ move ∈ rest,
            move.source = .play ∧ move.play = some play := by
          obtain ⟨other, hmem, hwanted⟩ := hmove
          rcases List.mem_cons.mp hmem with rfl | hmem
          · exact absurd hwanted hthis
          · exact ⟨other, hmem, hwanted⟩
        cases answer with
        | none => exact ih hfirst hlater htail hrest hall
        | some made =>
            obtain ⟨done, moved, middle⟩ := made
            simp only [bind_eq_ok_iff, pure_eq_ok_iff] at hall
            obtain ⟨others, hothers, rfl⟩ := hall
            obtain ⟨reversed, hmem, hwrong⟩ := ih
              (hfirst.carryOut hone hhead hthis) hlater htail hrest hothers
            exact ⟨reversed, List.mem_append_right _ hmem, hwrong⟩

end Table

namespace Game

variable {game : Game} {card : Card} {limits : Limits}

theorem Welcomes.exists_first (hwelcomes : game.Welcomes card limits)
    {play later : PlayId}
    (hle : game.nextPlay.number.toNat ≤ play.number.toNat)
    (hlater : play.number < later.number) :
    ∃ actions last, game.run actions = .ok last ∧
      last.Welcomes card limits ∧ last.table.effects = game.table.effects ∧
      last.table.HasFirst play card.id := by
  obtain ⟨actions, middle, hrun, hmiddle, hnext, heffects⟩ :=
    hwelcomes.exists_run hle
  obtain ⟨last, hperform, hplayed, hlast, -⟩ :=
    hmiddle.exists_play (hnext ▸ hlater)
  refine ⟨actions ++ [.playCard card], last, ?_, hlast, ?_,
    ⟨play, card, middle.isFreeReplay card.id⟩, ?_, rfl⟩
  · rw [run_append hrun, run_cons hperform]
    rfl
  · rw [hplayed.table_frame, heffects]
  · have hnone : middle.table.cardAt? play = none := by
      apply List.find?_eq_none.mpr
      intro seat hseat
      rw [← hnext]
      simpa using hmiddle.numbered.play_ne hseat
    rw [Table.cardAt?] at hnone ⊢
    rw [hplayed.cards, List.find?_append, hnone, hnext]
    simp

theorem Orderly.exists_welcomes (horderly : game.Orderly) {restored : Game}
    (hrestored : ofTable (.roomy (game.table.scripts.flatMap Script.limits))
      game.table = .ok restored) (named : CardId) :
    ∃ card limits, card.id ≠ named ∧ restored.Welcomes card limits := by
  obtain ⟨limits, hlimits, hroom⟩ :=
    Limits.exists_roomy horderly.limited game.table.carry
  obtain ⟨id, hid⟩ : ∃ id, id ≠ named := by
    by_cases hzero : named = ⟨0⟩
    · exact ⟨⟨1⟩, by simp [hzero]⟩
    · exact ⟨⟨0⟩, fun heq => hzero heq.symm⟩
  refine ⟨⟨id, "", limits.onlySuit.getD .baddie, 0⟩, limits, hid, ?_, hroom,
    ?_, ?_⟩
  · rw [(ofTable_eq_ok hrestored).1]
    exact hlimits
  · cases honly : limits.onlySuit <;> simp [Limits.checkSuit, honly]
  · apply ofTable_ledgerOf_numbered _ hrestored
    · simp [ledgerOf]
    · exact ledgerOf_numbered (fun _ => Multiset.zero_le _) horderly.numbered

/-- A number that a record names, but that is behind all those in use, is handed
out again to another card, and that card is moved when the effect is taken back. -/
theorem Orderly.exists_strange (horderly : game.Orderly)
    (hstale : ¬ game.RecordsInUse) :
    ∃ rules restored after actions, ofTable rules game.table = .ok restored ∧
      restored.run actions = .ok after ∧
      ∀ all final, recordReversals restored actions = .ok (all, final) →
        ∃ reversed ∈ all, ¬ reversed.Own := by
  simp only [RecordsInUse, not_forall, not_exists, not_and, UInt32.not_le]
    at hstale
  obtain ⟨effect, heffect, hrestores, move, hmove, hdest, play, hplay, hbehind⟩ :=
    hstale
  have hdated := horderly.dated effect heffect
  have hlater : play.number < game.nextPlay.number :=
    UInt32.lt_iff_toNat_lt.mpr
      (horderly.numbered.tied play move.card
        (ties_of_mem_moves heffect hmove hplay))
  obtain ⟨restored, hrestored, hle⟩ := exists_ofTable
    (.roomy (game.table.scripts.flatMap Script.limits)) hbehind
  obtain ⟨card, limits, hother, hwelcomes⟩ :=
    horderly.exists_welcomes hrestored move.card
  obtain ⟨actions, last, hrun, hlast, heffects, hfirst⟩ :=
    hwelcomes.exists_first hle hlater
  have hmem : effect ∈ last.table.effects := by
    rw [heffects, (ofTable_eq_ok hrestored).1]
    exact heffect
  have hnodup := nodup_effects hlast.numbered
  obtain ⟨after, hremove⟩ := exists_removeEffect hnodup hmem hdated
  have hperform : last.perform (.removeEffect effect.play) =
      .ok (.ok (.effect effect), after) := by
    rw [perform, hremove]
    rfl
  refine ⟨_, restored, after, actions ++ [.removeEffect effect.play], hrestored,
    ?_, ?_⟩
  · rw [run_append hrun, run_cons hperform]
    rfl
  · intro all final hrecord
    obtain ⟨taken, htaken, hsub⟩ := recordReversals_concat hrun hrecord
    rw [reversals, Table.effectAt?_of_mem hnodup hmem] at htaken
    have hrest :
        (last.table.withoutEffect effect.play).HasFirst play card.id := hfirst
    obtain ⟨reversed, hreversed, hwrong⟩ := hrest.exists_strange
      ⟨move.inverse, Effect.mem_reversedMoves.mpr ⟨hrestores, hmove⟩, hdest,
        hplay⟩
      (fun reverse hreverse hleaves => hdated.numbered reverse.inverse
        (Effect.mem_reversedMoves.mp hreverse).2 (.inr hleaves))
      (by
        intro reverse hreverse hsame heq
        have hmade := (Effect.mem_reversedMoves.mp hreverse).2
        have hagree := horderly.numbered.agree play _ _
          (ties_of_mem_moves heffect hmade hsame)
          (ties_of_mem_moves heffect hmove hplay)
        exact hother (heq.symm.trans hagree))
      htaken
    exact ⟨reversed, hsub hreversed, hwrong⟩

/-- After going on from a table without the game that led to it, taking an effect
back can move a card that the effect has not moved.  It never does exactly if every
record that can be reversed names a play number that is not behind all those in
use when the game goes on. -/
theorem ofTable_reversals_iff (hreachable : game.Reachable) :
    (∀ (rules : Rules) (restored after : Game) (actions : List PlayerAction),
      ofTable rules game.table = .ok restored →
      restored.run actions = .ok after →
      ∃ all, recordReversals restored actions = .ok (all, after) ∧
        ∀ reversed ∈ all, reversed.card.id = reversed.move.card) ↔
    ∀ effect ∈ game.table.effects,
      effect.script.reversalRule.restores = true →
      ∀ move ∈ effect.moves, move.dest = .play →
      ∀ play, move.play = some play →
        ∃ used ∈ game.table.playIds, play.number ≤ used.number := by
  have horderly := hreachable.orderly
  constructor
  · intro hall
    by_contra hstale
    obtain ⟨rules, restored, after, actions, hrestored, hrun, hstrange⟩ :=
      horderly.exists_strange hstale
    obtain ⟨all, hrecord, hown⟩ := hall rules restored after actions hrestored hrun
    obtain ⟨reversed, hmem, hwrong⟩ := hstrange all after hrecord
    exact hwrong (hown reversed hmem)
  · intro hused rules restored after actions hrestored hrun
    exact recordReversals_own (horderly.restored_numbered hused hrestored) hrun

def callRoxy : List PlayerAction :=
  [.stockDeck [⟨⟨1⟩, "Roxy", .goth, 3⟩],
    .playEffect (.mover "Call" .deck .play) { targets := [⟨1⟩] }]

def playMiaAndReturn : List PlayerAction :=
  [.playCard ⟨⟨2⟩, "Mia", .alt, 4⟩, .removeEffect ⟨0⟩]

/-- While Roxy is in play, her number is in use, and it is she who goes back. -/
theorem ofTable_reversals_callRoxy :
    ∃ game restored after all, run {} callRoxy = .ok game ∧
      ofTable {} game.table = .ok restored ∧
      restored.run playMiaAndReturn = .ok after ∧
      recordReversals restored playMiaAndReturn = .ok (all, after) ∧
      all.map Reversed.card = [⟨⟨1⟩, "Roxy", .goth, 3⟩] ∧
      ∀ reversed ∈ all, reversed.card.id = reversed.move.card := by
  obtain ⟨game, hgame, hplays, heffects⟩ :
      ∃ game, run {} callRoxy = .ok game ∧ game.table.playIds = [⟨1⟩, ⟨0⟩] ∧
        game.table.effects.flatMap Effect.moves =
          [⟨⟨1⟩, .deck, .play, some ⟨1⟩⟩] := ⟨_, rfl, rfl, rfl⟩
  obtain ⟨game', restored, after, all, hgame', hrestored, hrun, hrecord, hcards⟩ :
      ∃ game restored after all, run {} callRoxy = .ok game ∧
        ofTable {} game.table = .ok restored ∧
        restored.run playMiaAndReturn = .ok after ∧
        recordReversals restored playMiaAndReturn = .ok (all, after) ∧
        all.map Reversed.card = [⟨⟨1⟩, "Roxy", .goth, 3⟩] :=
    ⟨_, _, _, _, rfl, rfl, rfl, rfl, rfl⟩
  cases hgame.symm.trans hgame'
  have hused := (ofTable_reversals_iff ⟨{}, callRoxy, hgame⟩).mpr (by
    intro effect heffect _ move hmove _ play hplay
    have hmem := List.mem_flatMap.mpr ⟨effect, heffect, hmove⟩
    rw [heffects, List.mem_singleton] at hmem
    subst hmem
    cases hplay
    exact ⟨⟨1⟩, by simp [hplays], UInt32.le_refl _⟩)
  obtain ⟨same, hsame, hown⟩ := hused {} restored after _ hrestored hrun
  cases hrecord.symm.trans hsame
  exact ⟨game, restored, after, all, hgame, hrestored, hrun, hrecord, hcards, hown⟩

/-- Once Roxy has left, her number is handed out again, and Mia goes to the deck in
her place. -/
theorem not_reversals_own :
    ¬ ∀ (game : Game) (rules : Rules) (restored after : Game)
        (actions : List PlayerAction) (all : List Reversed),
      game.Reachable → ofTable rules game.table = .ok restored →
      recordReversals restored actions = .ok (all, after) →
      ∀ reversed ∈ all, reversed.card.id = reversed.move.card := by
  intro hall
  obtain ⟨game, restored, after, all, hgame, hrestored, hrecord, hcards⟩ :
      ∃ game restored after all,
        run {} (callRoxy ++ [.removeCard ⟨1⟩ .discard]) = .ok game ∧
        ofTable {} game.table = .ok restored ∧
        recordReversals restored playMiaAndReturn = .ok (all, after) ∧
        all = [⟨⟨⟨1⟩, .play, .deck, some ⟨1⟩⟩, ⟨⟨2⟩, "Mia", .alt, 4⟩⟩] :=
    ⟨_, _, _, _, rfl, rfl, rfl, rfl⟩
  have hown := hall game {} restored after playMiaAndReturn all
    ⟨{}, _, hgame⟩ hrestored hrecord
  rw [hcards] at hown
  have hwrong := hown _ List.mem_cons_self
  simp at hwrong

end Game

end Tableau
