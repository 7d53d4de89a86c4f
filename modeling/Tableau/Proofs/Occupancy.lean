import Mathlib.Algebra.GroupWithZero.Nat
import Mathlib.Algebra.Order.BigOperators.Group.List
import Mathlib.Algebra.Order.Group.Nat
import Mathlib.Data.List.Induction
import Tableau.Limits
import Tableau.Proofs.Placement

/-!
How many slots a table occupies.  Cards are seated one after the other, but the
result only depends on how many cards of each suit there are: the slots of a suit
are filled first, and what spills over takes general slots.  Main statements:
`exists_occupancy`; `occupancy_perm`, the order does not matter; and
`checkCard_eq_ok_iff`, when one more card is accepted.
-/

namespace Tableau

def suitCount (cards : List Card) (suit : Suit) : Nat :=
  cards.countP fun card => card.suit == suit

theorem suitCount_concat (cards : List Card) (card : Card) (suit : Suit) :
    suitCount (cards ++ [card]) suit =
      suitCount cards suit + if card.suit = suit then 1 else 0 := by
  rw [suitCount, suitCount, List.countP_append, List.countP_singleton]
  by_cases hsuit : card.suit = suit
  · simp [hsuit]
  · simp [hsuit]

theorem suitCount_perm {cards others : List Card} (hperm : cards.Perm others) :
    suitCount cards = suitCount others :=
  funext fun _ => hperm.countP_eq _

/-- A sum over all suits in which only one summand grows. -/
theorem Suit.sum_all_of_grown {count grown : Suit → Nat} {extra : Nat}
    (suit : Suit) (hgrown : ∀ other, grown other =
      count other + if suit = other then extra else 0) :
    (all.map grown).sum = (all.map count).sum + extra := by
  have hextra : (all.map fun other => if suit = other then extra else 0).sum =
      extra := by
    cases suit <;> simp [all]
  calc (all.map grown).sum
      = (all.map fun other => count other +
          if suit = other then extra else 0).sum := by
        rw [List.map_congr_left fun other _ => hgrown other]
    _ = (all.map count).sum + extra := by rw [List.sum_map_add, hextra]

/-- The slots of one suit that are in use. -/
def Occupancy.own (used : Occupancy) (suit : Suit) : UInt32 :=
  (used.bySuit.get? suit).getD 0

theorem Occupancy.own_insert (used : Occupancy) (general slots : UInt32)
    (suit other : Suit) :
    own { general, bySuit := used.bySuit.insert suit slots } other =
      if other = suit then slots else used.own other := by
  rw [own, FinMap.get?_insert_key]
  split <;> rfl

/-- Slots in use are told apart by their numbers and by the suits that need
slots. -/
theorem Occupancy.ext_own {left right : Occupancy}
    (hgeneral : left.general = right.general)
    (hown : ∀ suit, left.own suit = right.own suit)
    (hneeds : ∀ suit, (left.bySuit.get? suit).isSome =
      (right.bySuit.get? suit).isSome) : left = right := by
  have hsame : left.bySuit = right.bySuit := by
    refine FinMap.ext_get? fun suit => ?_
    have hvalue := hown suit
    have hsome := hneeds suit
    unfold own at hvalue
    cases hleft : left.bySuit.get? suit <;>
      cases hright : right.bySuit.get? suit <;> simp_all
  cases left
  cases right
  cases hgeneral
  cases hsame
  rfl

namespace Limits

variable {limits : Limits} {cards : List Card} {used : Occupancy}

/-- The number of cards that find no slot of their own suit. -/
def spill (limits : Limits) (cards : List Card) : Nat :=
  (Suit.all.map fun suit =>
    suitCount cards suit - (limits.slotsOf suit).toNat).sum

theorem spill_concat (limits : Limits) (cards : List Card) (card : Card) :
    limits.spill (cards ++ [card]) = limits.spill cards +
      if suitCount cards card.suit < (limits.slotsOf card.suit).toNat then 0
      else 1 := by
  apply Suit.sum_all_of_grown card.suit
  intro other
  rw [suitCount_concat]
  by_cases hsuit : card.suit = other
  · subst hsuit
    simp only [if_true]
    split <;> omega
  · simp [hsuit]

theorem spill_le_length (limits : Limits) (cards : List Card) :
    limits.spill cards ≤ cards.length := by
  induction cards using List.reverseRecOn with
  | nil => simp [spill, suitCount, Suit.all]
  | append_singleton seated card ih =>
      rw [spill_concat, List.length_append, List.length_singleton]
      split <;> omega

theorem spill_le_of_sublist {more : List Card} (limits : Limits)
    (hsub : cards.Sublist more) : limits.spill cards ≤ limits.spill more := by
  apply List.sum_le_sum
  intro suit _
  exact Nat.sub_le_sub_right (hsub.countP_le) _

theorem spill_le_of_slots {wider : Limits} (cards : List Card)
    (hslots : ∀ suit, limits.slotsOf suit ≤ wider.slotsOf suit) :
    wider.spill cards ≤ limits.spill cards := by
  apply List.sum_le_sum
  intro suit _
  exact Nat.sub_le_sub_left (UInt32.le_iff_toNat_le.mp (hslots suit)) _

/-- The slots in use after some cards were seated. -/
structure Seated (limits : Limits) (cards : List Card) (used : Occupancy) :
    Prop where
  general : used.general.toNat = limits.spill cards
  own : ∀ suit, (used.own suit).toNat =
    min (suitCount cards suit) (limits.slotsOf suit).toNat

theorem seated_nil (limits : Limits) : limits.Seated [] {} :=
  ⟨by simp [spill, suitCount, Suit.all],
    fun suit => by simp [suitCount, Occupancy.own]⟩

theorem Seated.own_lt_iff (hseated : limits.Seated cards used) (suit : Suit) :
    used.own suit < limits.slotsOf suit ↔
      suitCount cards suit < (limits.slotsOf suit).toNat := by
  rw [UInt32.lt_iff_toNat_lt, hseated.own suit]
  omega

theorem Seated.own_insert {card : Card} {general slots : UInt32}
    (hseated : limits.Seated cards used)
    (hslots : slots.toNat = min (suitCount (cards ++ [card]) card.suit)
      (limits.slotsOf card.suit).toNat) (suit : Suit) :
    (Occupancy.own { general, bySuit := used.bySuit.insert card.suit slots }
        suit).toNat =
      min (suitCount (cards ++ [card]) suit) (limits.slotsOf suit).toNat := by
  rw [Occupancy.own_insert]
  by_cases hsuit : suit = card.suit
  · subst hsuit
    rw [if_pos rfl]
    exact hslots
  · rw [if_neg hsuit, suitCount_concat, if_neg (Ne.symm hsuit)]
    exact hseated.own suit

theorem Seated.seat {next : Occupancy} {card : Card}
    (hseated : limits.Seated cards used)
    (hseat : limits.seat used card = .ok next) :
    limits.Seated (cards ++ [card]) next := by
  have hone : (1 : UInt32).toNat = 1 := rfl
  have hfree := hseated.own_lt_iff card.suit
  have hown := hseated.own card.suit
  have hcount := suitCount_concat cards card card.suit
  rw [if_pos rfl] at hcount
  unfold Limits.seat at hseat
  change (if used.own card.suit < limits.slotsOf card.suit then _ else _) = _
    at hseat
  by_cases hlt : used.own card.suit < limits.slotsOf card.suit
  · rw [if_pos hlt] at hseat
    simp only [bind_eq_ok_iff, pure_eq_ok_iff, addCounts_eq_ok_iff] at hseat
    obtain ⟨slots, hslots, rfl⟩ := hseat
    change slots.toNat = (used.own card.suit).toNat + _ at hslots
    have hroom := hfree.mp hlt
    refine ⟨?_, hseated.own_insert (by omega)⟩
    rw [spill_concat, if_pos hroom]
    exact hseated.general
  · rw [if_neg hlt] at hseat
    simp only [bind_eq_ok_iff, pure_eq_ok_iff, addCounts_eq_ok_iff] at hseat
    obtain ⟨general, hgeneral, rfl⟩ := hseat
    have hfull := mt hfree.mpr hlt
    refine ⟨?_, hseated.own_insert ?_⟩
    · rw [spill_concat, if_neg hfull, ← hseated.general]
      exact hgeneral
    · change (used.own card.suit).toNat = _
      omega

/-- One more card can be seated as long as the general slots can be counted. -/
theorem Seated.exists_seat {card : Card} (hseated : limits.Seated cards used)
    (hsize : limits.spill (cards ++ [card]) < UInt32.size) :
    ∃ next, limits.seat used card = .ok next := by
  have hone : (1 : UInt32).toNat = 1 := rfl
  have hfree := hseated.own_lt_iff card.suit
  rw [spill_concat, ← hseated.general] at hsize
  unfold Limits.seat
  change ∃ next, (if used.own card.suit < limits.slotsOf card.suit then _
    else _) = _
  by_cases hlt : used.own card.suit < limits.slotsOf card.suit
  · rw [if_pos hlt]
    have hbound := UInt32.toNat_lt_size (limits.slotsOf card.suit)
    have hown := UInt32.lt_iff_toNat_lt.mp hlt
    have hfits : (used.own card.suit).toNat + (1 : UInt32).toNat <
        UInt32.size := by omega
    refine ⟨_, bind_eq_ok_iff.mpr ⟨_, if_pos hfits, rfl⟩⟩
  · rw [if_neg hlt]
    rw [if_neg (mt hfree.mpr hlt)] at hsize
    exact ⟨_, bind_eq_ok_iff.mpr ⟨_, if_pos hsize, rfl⟩⟩

theorem Seated.foldlM {rest : List Card}
    (hseated : limits.Seated cards used)
    (hsize : limits.spill (cards ++ rest) < UInt32.size) :
    ∃ final, rest.foldlM limits.seat used = .ok final ∧
      limits.Seated (cards ++ rest) final := by
  induction rest generalizing cards used with
  | nil => exact ⟨used, rfl, by simpa using hseated⟩
  | cons card rest ih =>
      have hshift : cards ++ card :: rest = (cards ++ [card]) ++ rest := by simp
      rw [hshift] at hsize ⊢
      have hfirst : limits.spill (cards ++ [card]) < UInt32.size :=
        Nat.lt_of_le_of_lt
          (limits.spill_le_of_sublist (List.sublist_append_left _ rest)) hsize
      obtain ⟨next, hnext⟩ := hseated.exists_seat hfirst
      obtain ⟨final, hfinal, hrest⟩ := ih (hseated.seat hnext) hsize
      refine ⟨final, ?_, hrest⟩
      rw [List.foldlM_cons, bind_eq_ok_iff]
      exact ⟨next, hnext, hfinal⟩

/-- The number of general slots that a table needs. -/
def demand (limits : Limits) (table : Table) : Nat :=
  limits.spill (table.slotted.map InPlay.card) +
    table.effects.countP fun effect => effect.script.takesSlot

/-- The slots that a table occupies can be counted, and are those that it needs,
as long as the cards and effects in play can be counted. -/
theorem exists_occupancy (limits : Limits) {table : Table}
    (hsize : table.cards.length + table.effects.length < UInt32.size) :
    ∃ used, limits.occupancy table.cards table.effects = .ok used ∧
      used.general.toNat = limits.demand table ∧
      ∀ suit, (used.own suit).toNat =
        min (suitCount (table.slotted.map InPlay.card) suit)
          (limits.slotsOf suit).toNat := by
  let seats := table.slotted.map InPlay.card
  let takers := table.effects.countP fun effect => effect.script.takesSlot
  have hseats : seats.length ≤ table.cards.length := by
    rw [List.length_map]
    exact List.length_filter_le _ _
  have htakers : takers ≤ table.effects.length := List.countP_le_length
  have hspill := limits.spill_le_length seats
  obtain ⟨seated, hfold, hseated⟩ := limits.seated_nil.foldlM
    (show limits.spill ([] ++ seats) < UInt32.size by
      rw [List.nil_append]
      omega)
  rw [List.nil_append] at hseated
  have hcount : (UInt32.ofNat takers).toNat = takers :=
    UInt32.toNat_ofNat_of_lt (by omega)
  have hgeneral := hseated.general
  have hfits : seated.general.toNat + (UInt32.ofNat takers).toNat <
      UInt32.size := by omega
  let general := seated.general + UInt32.ofNat takers
  have hsum : addCounts seated.general (UInt32.ofNat takers) = .ok general :=
    if_pos hfits
  refine ⟨{ seated with general }, ?_, ?_, hseated.own⟩
  · rw [occupancy, bind_eq_ok_iff]
    refine ⟨seated, hfold, ?_⟩
    rw [bind_eq_ok_iff]
    exact ⟨general, hsum, rfl⟩
  · have htotal := addCounts_eq_ok_iff.mp hsum
    change general.toNat = limits.spill seats + takers
    omega

section Order

variable {table : Table}

theorem demand_perm (limits : Limits) {other : Table}
    (hcards : other.cards.Perm table.cards)
    (heffects : other.effects.Perm table.effects) :
    limits.demand other = limits.demand table := by
  have hslotted : (other.slotted.map InPlay.card).Perm
      (table.slotted.map InPlay.card) := (hcards.filter _).map _
  rw [demand, demand, spill, spill, suitCount_perm hslotted,
    heffects.countP_eq]

theorem isSome_seat {next : Occupancy} {card : Card}
    (hseat : limits.seat used card = .ok next) (suit : Suit) :
    (next.bySuit.get? suit).isSome ↔
      suit = card.suit ∨ (used.bySuit.get? suit).isSome := by
  have hinsert : ∃ slots, next.bySuit = used.bySuit.insert card.suit slots := by
    unfold seat at hseat
    dsimp only at hseat
    split at hseat
    · simp only [bind_eq_ok_iff, pure_eq_ok_iff] at hseat
      obtain ⟨slots, -, rfl⟩ := hseat
      exact ⟨slots, rfl⟩
    · simp only [bind_eq_ok_iff, pure_eq_ok_iff] at hseat
      obtain ⟨general, -, rfl⟩ := hseat
      exact ⟨_, rfl⟩
  obtain ⟨slots, hslots⟩ := hinsert
  rw [hslots, FinMap.get?_insert_key]
  by_cases hsuit : suit = card.suit <;> simp [hsuit]

theorem isSome_foldlM {final : Occupancy}
    (hfold : cards.foldlM limits.seat used = .ok final) (suit : Suit) :
    (final.bySuit.get? suit).isSome ↔
      suit ∈ cards.map Card.suit ∨ (used.bySuit.get? suit).isSome := by
  induction cards generalizing used with
  | nil =>
      cases pure_eq_ok_iff.mp hfold
      simp
  | cons card rest ih =>
      rw [List.foldlM_cons, bind_eq_ok_iff] at hfold
      obtain ⟨next, hseat, hrest⟩ := hfold
      rw [ih hrest, isSome_seat hseat, List.map_cons, List.mem_cons,
        or_left_comm, or_assoc]

theorem isSome_occupancy
    (hused : limits.occupancy table.cards table.effects = .ok used)
    (suit : Suit) :
    (used.bySuit.get? suit).isSome ↔
      suit ∈ table.slotted.map fun seat => seat.card.suit := by
  rw [occupancy, bind_eq_ok_iff] at hused
  obtain ⟨seated, hfold, hused⟩ := hused
  simp only [bind_eq_ok_iff, pure_eq_ok_iff] at hused
  obtain ⟨general, -, rfl⟩ := hused
  rw [isSome_foldlM hfold, List.map_map, FinMap.get?_empty]
  simp [Table.slotted]

/-- The slots in use do not depend on the order of the cards and effects. -/
theorem occupancy_perm {others : List InPlay} {effects : List Effect}
    (hsize : table.cards.length + table.effects.length < UInt32.size)
    (hcards : others.Perm table.cards) (heffects : effects.Perm table.effects) :
    limits.occupancy others effects =
      limits.occupancy table.cards table.effects := by
  let other := { table with cards := others, effects }
  have hothers : other.cards.length + other.effects.length < UInt32.size := by
    rw [hcards.length_eq, heffects.length_eq]
    exact hsize
  obtain ⟨used, hused, hgeneral, hown⟩ := limits.exists_occupancy hsize
  obtain ⟨same, hsame, hgeneral', hown'⟩ := limits.exists_occupancy hothers
  have hslotted : other.slotted.Perm table.slotted := hcards.filter _
  have hequal : same = used := by
    apply Occupancy.ext_own
    · rw [← UInt32.toNat_inj, hgeneral, hgeneral',
        limits.demand_perm hcards heffects]
    · intro suit
      rw [← UInt32.toNat_inj, hown, hown', suitCount_perm (hslotted.map _)]
    · intro suit
      rw [Bool.eq_iff_iff, isSome_occupancy hused, isSome_occupancy hsame,
        (hslotted.map _).mem_iff]
  rw [hused, ← hequal]
  exact hsame

end Order

/-- One more card that takes a slot needs a general one, unless a slot of its suit
is left. -/
theorem demand_concat (limits : Limits) {table after : Table} {seat : InPlay}
    (hslotted : after.slotted = table.slotted ++ [seat])
    (heffects : after.effects = table.effects) :
    limits.demand after = limits.demand table +
      if suitCount (table.slotted.map InPlay.card) seat.card.suit <
        (limits.slotsOf seat.card.suit).toNat then 0 else 1 := by
  rw [demand, demand, hslotted, heffects, List.map_append, List.map_singleton,
    spill_concat]
  omega

section Check

variable {table : Table} {suit : Suit}

/-- Once the slots in use are counted, one more card is judged.  It is accepted if
the suit restriction allows it and, unless there is no card limit, one of the slots
that it can use is left. -/
theorem exists_checkCard
    (hused : limits.occupancy table.cards table.effects = .ok used) :
    ∃ verdict, limits.checkCard table suit = .ok verdict ∧
      (verdict = .ok () ↔ limits.checkSuit suit = .ok () ∧
        (limits.openCards = true ∨ used.own suit < limits.slotsOf suit ∨
          used.general < limits.cards)) := by
  unfold checkCard
  cases hsuit : limits.checkSuit suit with
  | error fault => exact ⟨_, rfl, by simp⟩
  | ok allowed =>
      by_cases hopen : limits.openCards = true
      · simp only [hopen, if_true]
        exact ⟨_, rfl, by simp⟩
      · simp only [hopen, hused]
        change ∃ verdict, (if used.own suit < limits.slotsOf suit ∨
          used.general < limits.cards then _ else _) = _ ∧ _
        by_cases hroom : used.own suit < limits.slotsOf suit ∨
            used.general < limits.cards
        · rw [if_pos hroom]
          exact ⟨_, rfl, by simp [hroom]⟩
        · rw [if_neg hroom]
          exact ⟨_, rfl, by simp [hroom]⟩

theorem checkCard_eq_ok_iff
    (hused : limits.occupancy table.cards table.effects = .ok used) :
    limits.checkCard table suit = .ok (.ok ()) ↔
      limits.checkSuit suit = .ok () ∧
        (limits.openCards = true ∨ used.own suit < limits.slotsOf suit ∨
          used.general < limits.cards) := by
  obtain ⟨verdict, hcheck, hverdict⟩ := exists_checkCard hused
  rw [hcheck, Except.ok.injEq, hverdict]

theorem checkEffect_eq_ok_iff (hsize : table.effects.length < UInt32.size) :
    limits.checkEffect table = .ok () ↔ limits.openEffects = true ∨
      table.effects.length < limits.effects.toNat := by
  have hcount : (UInt32.ofNat table.effects.length).toNat =
      table.effects.length := UInt32.toNat_ofNat_of_lt hsize
  unfold checkEffect
  rw [← hcount, ← UInt32.lt_iff_toNat_lt, hcount]
  split <;> simp [*]

end Check

end Limits

end Tableau
