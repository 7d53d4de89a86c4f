import Mathlib.Data.List.Perm.Subperm
import Mathlib.Order.Bounds.Defs
import Tableau.Proofs.Occupancy

/-!
Seatings.  The slots of a suit and the general slots are numbered, and a seating
gives every card that is not free, and every effect that takes a slot, a slot of
its own.  The slots in use after cards were seated one by one are those of a
seating that needs the fewest general slots; so the order of the cards does not
matter, and one more card is accepted exactly if all can be seated anew with it.
Main statement: `occupancy_isLeast`.
-/

namespace Tableau

/-- A slot that only cards of one suit can use, or a general one. -/
inductive Slot where
  | own (suit : Suit) (number : Nat)
  | general (number : Nat)
deriving DecidableEq, Repr

namespace Slot

def isGeneral : Slot → Bool
  | own _ _ => false
  | general _ => true

def isOwn (suit : Suit) : Slot → Bool
  | own other _ => other == suit
  | general _ => false

theorem length_eq_sum (slots : List Slot) :
    slots.length = (Suit.all.map fun suit => slots.countP (isOwn suit)).sum +
      slots.countP isGeneral := by
  induction slots with
  | nil => simp [Suit.all]
  | cons slot rest ih =>
      cases slot with
      | own suit number =>
          have hgrown : ∀ other, (own suit number :: rest).countP (isOwn other) =
              rest.countP (isOwn other) + if suit = other then 1 else 0 := by
            intro other
            simp [List.countP_cons, isOwn]
          rw [Suit.sum_all_of_grown suit hgrown, List.length_cons, ih,
            List.countP_cons_of_neg (by simp [isGeneral])]
          omega
      | general number =>
          have hsame : ∀ suit, (general number :: rest).countP (isOwn suit) =
              rest.countP (isOwn suit) :=
            fun suit => List.countP_cons_of_neg (by simp [isOwn])
          simp only [hsame]
          rw [List.length_cons, ih, List.countP_cons_of_pos rfl, Nat.add_assoc]

/-- There are no more different slots of one kind than numbers for them. -/
theorem countP_le_of_numbered {slots : List Slot} {kind : Slot → Bool}
    {bound : Nat} (make : Nat → Slot) (hnodup : slots.Nodup)
    (hmade : ∀ slot ∈ slots, kind slot = true →
      ∃ number < bound, make number = slot) : slots.countP kind ≤ bound := by
  have hsub : slots.filter kind ⊆ (List.range bound).map make := by
    intro slot hslot
    obtain ⟨hmem, hkind⟩ := List.mem_filter.mp hslot
    obtain ⟨number, hnumber, rfl⟩ := hmade slot hmem hkind
    exact List.mem_map_of_mem (List.mem_range.mpr hnumber)
  have hlength := (List.subperm_of_subset (hnodup.filter _) hsub).length_le
  rwa [List.length_map, List.length_range, ← List.countP_eq_length_filter]
    at hlength

def row (first count : Nat) : List Slot :=
  (List.range' first count).map general

theorem length_row (first count : Nat) : (row first count).length = count := by
  rw [row, List.length_map, List.length_range']

theorem nodup_row (first count : Nat) : (row first count).Nodup :=
  List.Nodup.map (fun _ _ heq => Slot.general.inj heq) List.nodup_range'

theorem general_mem_row_iff {first count number : Nat} :
    general number ∈ row first count ↔
      first ≤ number ∧ number < first + count := by
  simp [row, List.mem_range'_1]

theorem isGeneral_of_mem_row {first count : Nat} {slot : Slot}
    (hslot : slot ∈ row first count) : slot.isGeneral = true := by
  obtain ⟨number, -, rfl⟩ := List.mem_map.mp hslot
  rfl

end Slot

theorem length_eq_sum_suitCount (cards : List Card) :
    cards.length = (Suit.all.map (suitCount cards)).sum := by
  induction cards using List.reverseRecOn with
  | nil => simp [suitCount, Suit.all]
  | append_singleton seated card ih =>
      rw [Suit.sum_all_of_grown card.suit (suitCount_concat seated card), ← ih,
        List.length_append, List.length_singleton]

namespace Limits

/-- A card of a suit can use the slot. -/
def Admits (limits : Limits) (suit : Suit) : Slot → Prop
  | .own other number => other = suit ∧ number < (limits.slotsOf suit).toNat
  | .general _ => True

def Fits (limits : Limits) (cards : List Card) (slots : List Slot) : Prop :=
  List.Forall₂ (fun card => limits.Admits card.suit) cards slots

/-- Every card that is not free has a slot that it can use, every effect that
takes a slot has a general one, and no slot is shared.  The slots of the cards
stand in play order. -/
structure Seating (limits : Limits) (table : Table) where
  cards : List Slot
  effects : List Slot
  fits : limits.Fits (table.slotted.map InPlay.card) cards
  takers : effects.length =
    table.effects.countP fun effect => effect.script.takesSlot
  takers_general : ∀ slot ∈ effects, slot.isGeneral = true
  nodup : (cards ++ effects).Nodup

namespace Seating

variable {limits : Limits} {table : Table}

def slots (seating : limits.Seating table) : List Slot :=
  seating.cards ++ seating.effects

def general (seating : limits.Seating table) : Nat :=
  seating.slots.countP Slot.isGeneral

/-- Only so many general slots are there. -/
def Within (seating : limits.Seating table) (available : Nat) : Prop :=
  ∀ number, .general number ∈ seating.slots → number < available

end Seating

section Cards

variable {limits : Limits} {cards : List Card} {slots : List Slot}

theorem Fits.countP_isOwn_le_suitCount (hfits : limits.Fits cards slots)
    (suit : Suit) : slots.countP (Slot.isOwn suit) ≤ suitCount cards suit := by
  induction hfits with
  | nil => exact Nat.le_refl _
  | @cons card slot cards slots hadmits _ ih =>
      rw [List.countP_cons, suitCount, List.countP_cons]
      have hslot : Slot.isOwn suit slot = true → (card.suit == suit) = true := by
        cases slot with
        | own other number =>
            intro hown
            rw [← hadmits.1]
            exact hown
        | general number => exact fun hown => absurd hown (by simp [Slot.isOwn])
      by_cases hown : Slot.isOwn suit slot = true
      · rw [if_pos hown, if_pos (hslot hown)]
        exact Nat.succ_le_succ ih
      · rw [if_neg hown]
        exact Nat.le_add_right_of_le ih

theorem Fits.lt_slotsOf (hfits : limits.Fits cards slots) {suit : Suit}
    {number : Nat} (hslot : .own suit number ∈ slots) :
    number < (limits.slotsOf suit).toNat := by
  induction hfits with
  | nil => cases hslot
  | cons hadmits _ ih =>
      rcases List.mem_cons.mp hslot with rfl | hrest
      · obtain ⟨rfl, hnumber⟩ := hadmits
        exact hnumber
      · exact ih hrest

theorem Fits.countP_isOwn_le_slotsOf (hfits : limits.Fits cards slots)
    (hnodup : slots.Nodup) (suit : Suit) :
    slots.countP (Slot.isOwn suit) ≤ (limits.slotsOf suit).toNat := by
  refine Slot.countP_le_of_numbered (.own suit) hnodup ?_
  intro slot hslot hown
  cases slot with
  | own other number =>
      cases beq_iff_eq.mp hown
      exact ⟨number, hfits.lt_slotsOf hslot, rfl⟩
  | general number => cases hown

/-- The cards that find no slot of their suit need general ones. -/
theorem Fits.spill_le (hfits : limits.Fits cards slots) (hnodup : slots.Nodup) :
    limits.spill cards ≤ slots.countP Slot.isGeneral := by
  have hown : limits.spill cards +
      (Suit.all.map fun suit => slots.countP (Slot.isOwn suit)).sum ≤
      (Suit.all.map (suitCount cards)).sum := by
    rw [spill, ← List.sum_map_add]
    apply List.sum_le_sum
    intro suit _
    have hcards := hfits.countP_isOwn_le_suitCount suit
    have hslots := hfits.countP_isOwn_le_slotsOf hnodup suit
    omega
  -- There are as many slots as cards, so the rest of them is general.
  have hlength : cards.length = slots.length := List.Forall₂.length_eq hfits
  rw [length_eq_sum_suitCount, Slot.length_eq_sum slots] at hlength
  omega

/-- A choice of slots that fills those of a suit in order and takes no more
general slots than cards spill over. -/
structure Thrifty (limits : Limits) (cards : List Card) (slots : List Slot) :
    Prop where
  fits : limits.Fits cards slots
  nodup : slots.Nodup
  own : ∀ suit number, .own suit number ∈ slots → number < suitCount cards suit
  general : ∀ number, .general number ∈ slots → number < limits.spill cards
  count : slots.countP Slot.isGeneral = limits.spill cards

/-- One more card is seated thriftily in a slot that is not in use. -/
theorem Thrifty.concat (hthrifty : limits.Thrifty cards slots) (card : Card)
    (slot : Slot) (hadmits : limits.Admits card.suit slot) (hfresh : slot ∉ slots)
    (hown : ∀ suit number, slot = .own suit number →
      number < suitCount (cards ++ [card]) suit)
    (hgeneral : ∀ number, slot = .general number →
      number < limits.spill (cards ++ [card]))
    (hcount : limits.spill (cards ++ [card]) =
      limits.spill cards + if slot.isGeneral then 1 else 0) :
    limits.Thrifty (cards ++ [card]) (slots ++ [slot]) where
  fits := List.rel_append hthrifty.fits (.cons hadmits .nil)
  nodup := by
    rw [← List.concat_eq_append, List.nodup_concat]
    exact ⟨hfresh, hthrifty.nodup⟩
  own suit number hmem := by
    rcases List.mem_append.mp hmem with hold | hnew
    · have hlt := hthrifty.own suit number hold
      rw [suitCount_concat]
      omega
    · exact hown suit number (List.mem_singleton.mp hnew).symm
  general number hmem := by
    rcases List.mem_append.mp hmem with hold | hnew
    · have hlt := hthrifty.general number hold
      omega
    · exact hgeneral number (List.mem_singleton.mp hnew).symm
  count := by
    rw [List.countP_append, List.countP_singleton, hthrifty.count, hcount]

/-- Cards can always be seated thriftily, one after the other. -/
theorem exists_thrifty (limits : Limits) (cards : List Card) :
    ∃ slots, limits.Thrifty cards slots := by
  induction cards using List.reverseRecOn with
  | nil =>
      refine ⟨[], .nil, .nil, ?_, ?_, ?_⟩
      · simp
      · simp
      · simp [spill, suitCount, Suit.all]
  | append_singleton seated card ih =>
      obtain ⟨slots, hthrifty⟩ := ih
      have hspill := limits.spill_concat seated card
      have hcount := suitCount_concat seated card card.suit
      rw [if_pos rfl] at hcount
      by_cases hroom :
          suitCount seated card.suit < (limits.slotsOf card.suit).toNat
      · rw [if_pos hroom] at hspill
        refine ⟨_, hthrifty.concat card
          (.own card.suit (suitCount seated card.suit)) ⟨rfl, hroom⟩
          ?_ ?_ ?_ ?_⟩
        · exact fun hmem => Nat.lt_irrefl _ (hthrifty.own _ _ hmem)
        · rintro suit number ⟨⟩
          omega
        · rintro number ⟨⟩
        · exact hspill
      · rw [if_neg hroom] at hspill
        refine ⟨_, hthrifty.concat card (.general (limits.spill seated)) trivial
          ?_ ?_ ?_ ?_⟩
        · exact fun hmem => Nat.lt_irrefl _ (hthrifty.general _ hmem)
        · rintro suit number ⟨⟩
        · rintro number ⟨⟩
          omega
        · exact hspill

end Cards

variable {limits : Limits} {table : Table}

namespace Seating

theorem demand_le_general (seating : limits.Seating table) :
    limits.demand table ≤ seating.general := by
  have hspill := seating.fits.spill_le (List.nodup_append.mp seating.nodup).1
  have htakers : seating.effects.countP Slot.isGeneral =
      table.effects.countP fun effect => effect.script.takesSlot := by
    rw [← seating.takers, List.countP_eq_length]
    exact seating.takers_general
  rw [general, slots, List.countP_append, htakers, demand]
  omega

theorem Within.general_le {seating : limits.Seating table} {available : Nat}
    (hwithin : seating.Within available) : seating.general ≤ available := by
  refine Slot.countP_le_of_numbered .general seating.nodup ?_
  intro slot hslot hgeneral
  cases slot with
  | own suit number => cases hgeneral
  | general number => exact ⟨number, hwithin number hslot, rfl⟩

end Seating

/-- A table can be seated with no more general slots than it needs, and these can
be the first ones: the effects take those behind the slots of the cards. -/
theorem exists_seating (limits : Limits) (table : Table) :
    ∃ seating : limits.Seating table,
      seating.general = limits.demand table ∧
      seating.Within (limits.demand table) := by
  obtain ⟨cards, hthrifty⟩ :=
    limits.exists_thrifty (table.slotted.map InPlay.card)
  let spilled := limits.spill (table.slotted.map InPlay.card)
  let takers := table.effects.countP fun effect => effect.script.takesSlot
  have hgeneral : ∀ slot ∈ Slot.row spilled takers, slot.isGeneral = true :=
    fun slot hslot => Slot.isGeneral_of_mem_row hslot
  have hnodup : (cards ++ Slot.row spilled takers).Nodup := by
    refine List.nodup_append.mpr ⟨hthrifty.nodup, Slot.nodup_row _ _, ?_⟩
    rintro slot hcard _ heffect rfl
    cases slot with
    | own suit number => cases hgeneral _ heffect
    | general number =>
        have hlt : number < spilled := hthrifty.general number hcard
        have hle := (Slot.general_mem_row_iff.mp heffect).1
        omega
  refine ⟨⟨cards, Slot.row spilled takers, hthrifty.fits,
    Slot.length_row _ _, hgeneral, hnodup⟩, ?_, ?_⟩
  · have hall := List.countP_eq_length.mpr hgeneral
    rw [Slot.length_row] at hall
    rw [Seating.general, Seating.slots, List.countP_append, hthrifty.count, hall]
    rfl
  · intro number hslot
    change number < spilled + takers
    rcases List.mem_append.mp hslot with hcard | heffect
    · have hlt : number < spilled := hthrifty.general number hcard
      omega
    · exact (Slot.general_mem_row_iff.mp heffect).2

/-- The general slots that a table needs are the fewest of any seating. -/
theorem isLeast_demand (limits : Limits) (table : Table) :
    IsLeast {count | ∃ seating : limits.Seating table, seating.general = count}
      (limits.demand table) := by
  constructor
  · obtain ⟨seating, hgeneral, -⟩ := exists_seating limits table
    exact ⟨seating, hgeneral⟩
  · rintro _ ⟨seating, rfl⟩
    exact seating.demand_le_general

/-- A table can be seated within some general slots exactly if it needs no more. -/
theorem exists_within_iff {available : Nat} :
    (∃ seating : limits.Seating table, seating.Within available) ↔
      limits.demand table ≤ available := by
  constructor
  · rintro ⟨seating, hwithin⟩
    exact Nat.le_trans seating.demand_le_general hwithin.general_le
  · intro hle
    obtain ⟨seating, -, hwithin⟩ := exists_seating limits table
    exact ⟨seating, fun number hslot =>
      Nat.lt_of_lt_of_le (hwithin number hslot) hle⟩

/-- The slots of a suit in use are as many as its cards, up to all slots of the
suit, and the general slots in use are the fewest of any seating, in whatever order
the cards and effects lie.  On a table that fits, one more card that the suit
restriction allows is accepted exactly if the table can be seated with it. -/
theorem occupancy_isLeast (limits : Limits) (table : Table)
    (hsize : table.cards.length + table.effects.length < UInt32.size) :
    ∃ used, limits.occupancy table.cards table.effects = .ok used ∧
      (∀ suit, (used.own suit).toNat =
        min (table.slotted.countP fun seat => seat.card.suit == suit)
          (limits.slotsOf suit).toNat) ∧
      IsLeast {count | ∃ seating : limits.Seating table, seating.general = count}
        used.general.toNat ∧
      (∀ cards effects, cards.Perm table.cards → effects.Perm table.effects →
        limits.occupancy cards effects = .ok used) ∧
      (used.general ≤ limits.cards → limits.openCards = false →
        ∀ seat : InPlay, seat.free = false →
          limits.checkSuit seat.card.suit = .ok () →
          ∃ verdict, limits.checkCard table seat.card.suit = .ok verdict ∧
            (verdict = .ok () ↔ ∃ seating : limits.Seating (table.enter seat),
              seating.Within limits.cards.toNat)) := by
  obtain ⟨used, hused, hgeneral, hown⟩ := limits.exists_occupancy hsize
  refine ⟨used, hused, ?_, ?_, ?_, ?_⟩
  · intro suit
    rw [hown, suitCount, List.countP_map]
    rfl
  · rw [hgeneral]
    exact isLeast_demand limits table
  · intro cards effects hcards heffects
    rw [occupancy_perm hsize hcards heffects, hused]
  · intro hfits hlimited seat hslot hsuit
    obtain ⟨verdict, hcheck, hverdict⟩ := exists_checkCard hused
    have hslotted : (table.enter seat).slotted = table.slotted ++ [seat] := by
      simp [Table.slotted, Table.enter, hslot]
    refine ⟨verdict, hcheck, hverdict.trans ?_⟩
    rw [exists_within_iff, limits.demand_concat hslotted rfl, ← hgeneral,
      UInt32.lt_iff_toNat_lt, UInt32.lt_iff_toNat_lt, hown, hlimited]
    rw [UInt32.le_iff_toNat_le] at hfits
    simp only [hsuit, Bool.false_eq_true, true_and, false_or]
    split <;> omega

/-- Two cards of a suit that has one slot, a free card, and an effect that takes a
slot. -/
def lateNight : Table :=
  { cards :=
      [⟨⟨0⟩, ⟨⟨1⟩, "Roxy", .goth, 3⟩, false⟩,
        ⟨⟨1⟩, ⟨⟨2⟩, "Mia", .alt, 4⟩, true⟩,
        ⟨⟨2⟩, ⟨⟨3⟩, "Lola", .goth, 2⟩, false⟩]
    effects :=
      [{ play := ⟨3⟩
         script := { id := ⟨1⟩, name := "Guests", limits := [.takesSlot] } }] }

def gothSlot : Limits :=
  { cards := 3, effects := 2, suitSlots := .ofList [(.goth, 1)] }

/-- Lola and the effect take the two general slots in use, in the other order of
the cards as well, and one is left for Mia in a slot. -/
theorem occupancy_isLeast_lateNight :
    (∃ used,
      gothSlot.occupancy lateNight.cards.reverse lateNight.effects = .ok used ∧
      used.general = 2 ∧
      IsLeast {count | ∃ seating : gothSlot.Seating lateNight,
        seating.general = count} 2) ∧
    ∃ seating : gothSlot.Seating
        (lateNight.enter ⟨⟨4⟩, ⟨⟨2⟩, "Mia", .alt, 4⟩, false⟩),
      seating.Within 3 := by
  obtain ⟨used, hused, -, hleast, hperm, hcheck⟩ :=
    occupancy_isLeast gothSlot lateNight (by decide)
  have hgeneral : used.general = 2 := by
    have htwo : (gothSlot.occupancy lateNight.cards lateNight.effects).map
        Occupancy.general = .ok 2 := by decide
    rw [hused] at htwo
    exact Except.ok.inj htwo
  obtain ⟨verdict, hverdict, hseats⟩ := hcheck
    (by rw [hgeneral]; decide) rfl ⟨⟨4⟩, ⟨⟨2⟩, "Mia", .alt, 4⟩, false⟩ rfl rfl
  have haccepted : gothSlot.checkCard lateNight .alt = .ok (.ok ()) := by decide
  cases hverdict.symm.trans haccepted
  refine ⟨⟨used, hperm _ _ (List.reverse_perm _) (.refl _), hgeneral, ?_⟩,
    hseats.mp rfl⟩
  rw [hgeneral] at hleast
  exact hleast

end Limits

end Tableau
