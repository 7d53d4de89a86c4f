import Tableau.Proofs.Numbering
import Tableau.Proofs.Verdict

/-!
Playing never overfills the table.  Limits only grow with the effects in play,
and every play is checked against limits that are in force, or stricter, when it
is made; so a game in which no effect is taken back stays within its limits.
Main statement: `run_withinCapacity`.
-/

namespace Tableau

/-- Limits that allow at least the cards that the others allow. -/
structure Limits.Widens (limits wider : Limits) : Prop where
  cards : limits.cards ≤ wider.cards
  slots : ∀ suit, limits.slotsOf suit ≤ wider.slotsOf suit
  openCards : wider.openCards = limits.openCards

theorem Limits.Widens.refl (limits : Limits) : limits.Widens limits :=
  ⟨UInt32.le_refl _, fun _ => UInt32.le_refl _, rfl⟩

theorem Limits.Widens.trans {first second third : Limits}
    (hfirst : first.Widens second) (hsecond : second.Widens third) :
    first.Widens third where
  cards := UInt32.le_trans hfirst.cards hsecond.cards
  slots suit := UInt32.le_trans (hfirst.slots suit) (hsecond.slots suit)
  openCards := hsecond.openCards.trans hfirst.openCards

section Fold

variable {fold later : LimitFold}

/-- No rule of an effect narrows the limits for cards. -/
theorem LimitFold.widens_apply {rule : LimitRule}
    (happly : fold.apply rule = .ok later) : fold.close.Widens later.close := by
  have happlied := apply_eq_ok happly
  refine ⟨?_, ?_, happlied.openCards⟩
  · have hcards := happlied.cards
    rw [UInt32.le_iff_toNat_le]
    simp only [close, happlied.floor]
    cases rule.cardFloor? <;> cases fold.floor <;>
      simp only [Option.elim, UInt32.toNat_max] <;> omega
  · intro suit
    have hslots : (later.close.slotsOf suit).toNat =
        (fold.close.slotsOf suit).toNat + rule.extraSlots suit :=
      happlied.slots suit
    rw [UInt32.le_iff_toNat_le]
    omega

theorem LimitFold.widens_foldlM {rules : List LimitRule}
    (hfold : rules.foldlM apply fold = .ok later) :
    fold.close.Widens later.close := by
  induction rules generalizing fold with
  | nil =>
      cases pure_eq_ok_iff.mp hfold
      exact Limits.Widens.refl _
  | cons rule rest ih =>
      rw [List.foldlM_cons, bind_eq_ok_iff] at hfold
      obtain ⟨middle, hfirst, hrest⟩ := hfold
      exact (widens_apply hfirst).trans (ih hrest)

end Fold

namespace Limits

theorem widens_resolve {rules : Rules} {scripts more : List Script}
    {carry : Option CarryOver} {limits wider : Limits}
    (hlimits : resolve rules scripts carry = .ok limits)
    (hwider : resolve rules (scripts ++ more) carry = .ok wider) :
    limits.Widens wider := by
  simp only [resolve, List.flatMap_append, List.foldlM_append, bind_eq_ok_iff,
    pure_eq_ok_iff] at hlimits hwider
  obtain ⟨fold, hfold, rfl⟩ := hlimits
  obtain ⟨later, ⟨start, hstart, hrest⟩, rfl⟩ := hwider
  cases hfold.symm.trans hstart
  exact LimitFold.widens_foldlM hrest

/-- Where limits are wider and fewer cards take slots, no more general slots are
needed. -/
theorem Widens.demand_le {limits wider : Limits} {table after : Table}
    (hwidens : limits.Widens wider)
    (hslotted : after.slotted.Sublist table.slotted) :
    wider.demand after ≤ limits.spill (table.slotted.map InPlay.card) +
      after.effects.countP fun effect => effect.script.takesSlot := by
  have hcards := wider.spill_le_of_sublist (hslotted.map InPlay.card)
  have hslots := spill_le_of_slots (table.slotted.map InPlay.card)
    hwidens.slots
  unfold demand
  omega

/-- The general slots suffice for the cards and effects in play. -/
def Accommodates (limits : Limits) (table : Table) : Prop :=
  limits.openCards = true ∨ limits.demand table ≤ limits.cards.toNat

theorem Accommodates.of_checkCard {limits : Limits} {table after : Table} {seat : InPlay}
    (hseats : limits.Accommodates table)
    (hsize : table.cards.length + table.effects.length < UInt32.size)
    (hcheck : limits.checkCard table seat.card.suit = .ok (.ok ()))
    (hslotted : after.slotted = table.slotted ++ [seat])
    (heffects : after.effects = table.effects) : limits.Accommodates after := by
  by_cases hopen : limits.openCards = true
  · exact .inl hopen
  · obtain ⟨used, hused, hgeneral, hown⟩ := limits.exists_occupancy hsize
    have hroom := ((checkCard_eq_ok_iff hused).mp hcheck).2.resolve_left hopen
    have hdemand := hseats.resolve_left hopen
    have hsuit := hown seat.card.suit
    rw [UInt32.lt_iff_toNat_lt, UInt32.lt_iff_toNat_lt] at hroom
    right
    rw [demand_concat limits hslotted heffects]
    split <;> omega

/-- The slots suffice under wider limits, if no more cards take one and the
effects leave the slots that one more of them takes. -/
theorem Accommodates.widen {limits wider : Limits} {table after : Table}
    {effect : Effect} (hseats : limits.Accommodates table)
    (hwidens : limits.Widens wider)
    (hslotted : after.slotted.Sublist table.slotted)
    (heffects : after.effects = table.effects ++ [effect])
    (hroom : effect.script.takesSlot = true → limits.openCards = true ∨
      limits.demand table < limits.cards.toNat) : wider.Accommodates after := by
  by_cases hopen : limits.openCards = true
  · exact .inl (hwidens.openCards.trans hopen)
  · have hdemand := hseats.resolve_left hopen
    have hwider := hwidens.demand_le hslotted
    have hcards := UInt32.le_iff_toNat_le.mp hwidens.cards
    right
    rw [heffects, List.countP_append, List.countP_singleton] at hwider
    unfold demand at hdemand hroom
    split at hwider
    · rename_i htakes
      have hfree := (hroom htakes).resolve_left hopen
      omega
    · omega

end Limits

theorem Script.room_of_check {script : Script} {rules : Rules} {table : Table}
    {limits : Limits}
    (hsize : table.cards.length + table.effects.length < UInt32.size)
    (hlimits : Limits.ofTable rules table = .ok limits)
    (hcheck : script.check rules table = .ok (.ok ()))
    (htakes : script.takesSlot = true) :
    limits.openCards = true ∨ limits.demand table < limits.cards.toNat := by
  have hslot : script.Clears rules table .slot :=
    (check_eq_ok_iff hsize).mp hcheck .slot (by simp [hurdles])
  obtain ⟨_, hsame, hroom⟩ := hslot (takesSlot_iff.mp htakes)
  cases hlimits.symm.trans hsame
  exact hroom

namespace Game

/-- The limits in force, and that what is in play stays within them. -/
structure WithinCapacity (game : Game) (limits : Limits) : Prop where
  inForce : Limits.ofTable game.rules game.table = .ok limits
  cards : limits.Accommodates game.table
  effects : limits.openEffects = true ∨
    game.table.effects.length ≤ limits.effects.toNat

variable {game after : Game} {limits : Limits}

theorem WithinCapacity.of_accommodates (hwithin : game.WithinCapacity limits)
    (hseats : limits.Accommodates after.table) (hrules : after.rules = game.rules)
    (heffects : after.table.effects = game.table.effects)
    (hcarry : after.table.carry = game.table.carry) :
    after.WithinCapacity limits := by
  refine ⟨?_, hseats, ?_⟩
  · rw [Limits.ofTable, Table.scripts, heffects, hcarry, hrules]
    exact hwithin.inForce
  · rw [heffects]
    exact hwithin.effects

theorem WithinCapacity.of_slotted_sublist (hwithin : game.WithinCapacity limits)
    (hslotted : after.table.slotted.Sublist game.table.slotted)
    (hrules : after.rules = game.rules)
    (heffects : after.table.effects = game.table.effects)
    (hcarry : after.table.carry = game.table.carry) :
    after.WithinCapacity limits := by
  refine hwithin.of_accommodates ?_ hrules heffects hcarry
  have hspill := limits.spill_le_of_sublist (hslotted.map InPlay.card)
  rcases hwithin.cards with hopen | hdemand
  · exact .inl hopen
  · right
    unfold Limits.demand at hdemand ⊢
    rw [heffects]
    omega

theorem CardPlayed.withinCapacity {card : Card}
    (hplayed : game.CardPlayed card after)
    (hnumbered : game.ledger.Numbered game.nextPlay)
    (hwithin : game.WithinCapacity limits) : after.WithinCapacity limits := by
  obtain ⟨checked, hchecked, hallowed⟩ := hplayed.allowed
  cases hwithin.inForce.symm.trans hchecked
  have hrules : after.rules = game.rules := by rw [hplayed.frame]
  have heffects : after.table.effects = game.table.effects := by
    rw [hplayed.table_frame]
  have hcarry := hplayed.carry_eq
  have hcards := hplayed.cards
  by_cases hfree : game.isFreeReplay card.id = true
  · refine hwithin.of_slotted_sublist ?_ hrules heffects hcarry
    simp [Table.slotted, hcards, hfree]
  · rw [if_neg hfree] at hallowed
    refine hwithin.of_accommodates ?_ hrules heffects hcarry
    let seat : InPlay := ⟨game.nextPlay, card, game.isFreeReplay card.id⟩
    have hslotted : after.table.slotted = game.table.slotted ++ [seat] := by
      simp [Table.slotted, hcards, hfree, seat]
    exact hwithin.cards.of_checkCard (count_inPlay_lt hnumbered) hallowed
      hslotted heffects

/-- The limits with the effect in play allow all that the limits before it
allowed, and the effect itself was checked against them. -/
theorem EffectPlayed.withinCapacity {script : Script} {choice : Choice}
    {first : PlayId} {moves : List Move} {rest : Table}
    (hplayed : game.EffectPlayed script choice first moves rest after)
    (hnumbered : game.ledger.Numbered game.nextPlay)
    (hwithin : game.WithinCapacity limits) :
    ∃ wider, after.WithinCapacity wider := by
  obtain ⟨wider, hwider, hroom, hcheck⟩ := canPlay_eq_ok hplayed.allowed
  obtain ⟨dest, -, hmoved⟩ := relocate_eq_ok hplayed.moved
  have hsize := count_inPlay_lt hnumbered
  have heffects := hplayed.effects
  have hslotted : after.table.slotted.Sublist game.table.slotted := by
    rw [hplayed.table]
    exact hmoved.slotted_sublist
  refine ⟨wider, ?_, ?_, ?_⟩
  · rw [hplayed.ofTable_eq]
    exact hwider
  · exact hwithin.cards.widen (Limits.widens_resolve hwithin.inForce hwider)
      hslotted heffects (Script.room_of_check hsize hwithin.inForce hcheck)
  · rw [heffects, List.length_append, List.length_singleton]
    exact (Limits.checkEffect_eq_ok_iff (by omega)).mp hroom

theorem CardRemoved.withinCapacity {play : PlayId} {dest : Zone} {seat : InPlay}
    {rest : Multiset Placement}
    (hremoved : game.CardRemoved play dest seat rest after)
    (hwithin : game.WithinCapacity limits) : after.WithinCapacity limits := by
  refine hwithin.of_slotted_sublist ?_ ?_ ?_ ?_
  · rw [Table.slotted, hremoved.cards]
    exact List.eraseP_sublist.filter _
  · rw [hremoved.frame]
  · rw [hremoved.frame]
  · rw [hremoved.frame]

theorem TurnEnded.withinCapacity (hended : game.TurnEnded after) :
    ∃ limits, after.WithinCapacity limits := by
  refine ⟨(LimitFold.start after.rules after.table.carry).close, ?_, .inr ?_,
    .inr ?_⟩
  · rw [hended.frame]
    rfl
  · have hspill := (LimitFold.start after.rules
      after.table.carry).close.spill_le_length []
    have hdemand : Limits.demand
        (LimitFold.start after.rules after.table.carry).close after.table ≤
          0 := by
      rw [hended.frame] at hspill ⊢
      exact hspill
    omega
  · rw [hended.frame]
    exact Nat.zero_le _

/-- Every action but taking an effect back keeps the table within its
capacity. -/
theorem perform_withinCapacity {action : PlayerAction}
    {result : Except Refusal Answer} (hkept : ∀ play, action ≠ .removeEffect play)
    (hnumbered : game.ledger.Numbered game.nextPlay)
    (hwithin : ∃ limits, game.WithinCapacity limits)
    (hperform : game.perform action = .ok (result, after)) :
    ∃ limits, after.WithinCapacity limits := by
  obtain ⟨limits, hlimits⟩ := hwithin
  rcases perform_eq_ok hperform with ⟨-, -, rfl⟩ | ⟨answer, -, haccepted⟩
  · exact ⟨limits, hlimits⟩
  · cases haccepted with
    | deckStocked cards =>
        exact ⟨limits, hlimits.of_slotted_sublist (List.Sublist.refl _) rfl rfl
          rfl⟩
    | cardPlayed hplayed => exact ⟨limits, hplayed.withinCapacity hnumbered hlimits⟩
    | deckPlayed _ hplayed =>
        exact ⟨limits, hplayed.withinCapacity hnumbered hlimits⟩
    | effectAllowed _ => exact ⟨limits, hlimits⟩
    | effectPlayed hplayed => exact hplayed.withinCapacity hnumbered hlimits
    | cardRemoved hremoved => exact ⟨limits, hremoved.withinCapacity hlimits⟩
    | @effectRemoved play _ _ _ => exact absurd rfl (hkept play)
    | turnEnded hended => exact hended.withinCapacity

theorem withinCapacity_run {rules : Rules} {actions : List PlayerAction}
    (hkept : ∀ play, .removeEffect play ∉ actions)
    (hrun : run { rules } actions = .ok game) :
    game.ledger.Numbered game.nextPlay ∧
      ∃ limits, game.WithinCapacity limits := by
  have hempty : run { rules } [] = .ok { rules } := rfl
  have hstart : WithinCapacity { rules } (LimitFold.start rules none).close :=
    ⟨rfl, .inr (Nat.zero_le _), .inr (Nat.zero_le _)⟩
  refine run_induction_mem (motive := fun current =>
    current.ledger.Numbered current.nextPlay ∧
      ∃ limits, current.WithinCapacity limits) ?_
    ⟨ledger_numbered_run hempty, _, hstart⟩ hrun
  rintro current next action hmem result ⟨hnumbered, hcurrent⟩ hperform
  refine ⟨perform_numbered hnumbered hperform, ?_⟩
  refine perform_withinCapacity ?_ hnumbered hcurrent hperform
  rintro play rfl
  exact hkept play hmem

/-- After every run in which no effect was taken back, the slots that the table
occupies can be counted, and neither they nor the effects in play exceed the
limits in force. -/
theorem run_withinCapacity {rules : Rules} {actions : List PlayerAction}
    (hkept : ∀ play, .removeEffect play ∉ actions)
    (hrun : run { rules } actions = .ok game) :
    ∃ limits used, Limits.ofTable game.rules game.table = .ok limits ∧
      limits.occupancy game.table.cards game.table.effects = .ok used ∧
      (limits.openCards = true ∨ used.general ≤ limits.cards) ∧
      (limits.openEffects = true ∨
        game.table.effects.length ≤ limits.effects.toNat) := by
  obtain ⟨hnumbered, limits, hwithin⟩ := withinCapacity_run hkept hrun
  obtain ⟨used, hused, hgeneral, -⟩ :=
    limits.exists_occupancy (count_inPlay_lt hnumbered)
  refine ⟨limits, used, hwithin.inForce, hused, ?_, hwithin.effects⟩
  rw [UInt32.le_iff_toNat_le, hgeneral]
  exact hwithin.cards

def fullHouse : List PlayerAction :=
  [.playEffect { id := ⟨1⟩, name := "Coven", limits := [.extraSuit .goth 1] } {},
    .playEffect { id := ⟨2⟩, name := "Guest", limits := [.takesSlot] } {},
    .playCard ⟨⟨1⟩, "Roxy", .goth, 3⟩,
    .playCard ⟨⟨2⟩, "Mia", .alt, 4⟩,
    .playCard ⟨⟨3⟩, "Zoe", .alt, 4⟩]

/-- All general slots are taken then, and the last card is refused. -/
theorem run_withinCapacity_fullHouse :
    ∃ game limits used, run {} fullHouse = .ok game ∧
      game.table.cards.length = 2 ∧
      Limits.ofTable game.rules game.table = .ok limits ∧
      limits.occupancy game.table.cards game.table.effects = .ok used ∧
      (limits.openCards = true ∨ used.general ≤ limits.cards) ∧
      (limits.openEffects = true ∨
        game.table.effects.length ≤ limits.effects.toNat) := by
  obtain ⟨game, hrun, hcards⟩ : ∃ game, run {} fullHouse = .ok game ∧
      game.table.cards.length = 2 := ⟨_, rfl, rfl⟩
  have hkept : ∀ play, .removeEffect play ∉ fullHouse := by
    intro play
    simp [fullHouse]
  obtain ⟨limits, used, hwithin⟩ := run_withinCapacity hkept hrun
  exact ⟨game, limits, used, hrun, hcards, hwithin⟩

end Game

end Tableau
