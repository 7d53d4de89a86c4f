import Mathlib.Algebra.GroupWithZero.Nat
import Mathlib.Algebra.Order.BigOperators.Group.List
import Mathlib.Algebra.Order.Group.Nat
import Tableau.Limits

/-!
The limits of a turn in closed form.  Whatever the order in which the rules of
the effects are folded in, additions yield their sum, card floors the greatest
and effect caps the smallest number, and the fold breaks off exactly if one of
the sums does not fit its word.  Only the suit restriction depends on the order:
the last one counts.  Main statement: `resolve_totals`.
-/

namespace Tableau

namespace LimitRule

def extraCards : LimitRule → Nat
  | extraPlays cards _ => cards.toNat
  | _ => 0

def extraEffects : LimitRule → Nat
  | extraPlays _ effects => effects.toNat
  | _ => 0

def extraSlots (suit : Suit) : LimitRule → Nat
  | extraSuit other slots => if other = suit then slots.toNat else 0
  | _ => 0

def cardFloor? : LimitRule → Option UInt32
  | cardFloor least => some least
  | _ => none

def slotSuit? : LimitRule → Option Suit
  | extraSuit suit _ => some suit
  | _ => none

/-- All slots that the rules add for one suit. -/
def slotTotal (suit : Suit) (all : List LimitRule) : Nat :=
  (all.map (extraSlots suit)).sum

end LimitRule

namespace Rules

/-- The card limit with all additions, whatever its size. -/
def cardTotal (rules : Rules) (all : List LimitRule) : Nat :=
  rules.cards.toNat + (all.map LimitRule.extraCards).sum

def effectTotal (rules : Rules) (all : List LimitRule) : Nat :=
  rules.effects.toNat + (all.map LimitRule.extraEffects).sum

/-- One of the sums does not fit a 32-bit word. -/
def Exceeded (rules : Rules) (all : List LimitRule) : Prop :=
  UInt32.size ≤ rules.cardTotal all ∨ UInt32.size ≤ rules.effectTotal all ∨
    ∃ suit, UInt32.size ≤ LimitRule.slotTotal suit all

theorem not_exceeded_nil (rules : Rules) : ¬ rules.Exceeded [] := by
  have hcards := UInt32.toNat_lt_size rules.cards
  have heffects := UInt32.toNat_lt_size rules.effects
  simp only [Exceeded, cardTotal, effectTotal, LimitRule.slotTotal,
    List.map_nil, List.sum_nil, Nat.add_zero]
  rintro (hsum | hsum | ⟨suit, hsum⟩)
  · omega
  · omega
  · exact absurd hsum (by decide)

theorem Exceeded.mono {rules : Rules} {all more : List LimitRule}
    (hexceeded : rules.Exceeded all) (hmore : all.Sublist more) :
    rules.Exceeded more := by
  have hsum (amount : LimitRule → Nat) :
      (all.map amount).sum ≤ (more.map amount).sum :=
    (hmore.map amount).sum_le_sum fun _ _ => Nat.zero_le _
  have hcards := hsum LimitRule.extraCards
  have heffects := hsum LimitRule.extraEffects
  unfold Exceeded cardTotal effectTotal LimitRule.slotTotal at *
  rcases hexceeded with hlarge | hlarge | ⟨suit, hlarge⟩
  · left
    omega
  · right
    left
    omega
  · exact .inr (.inr ⟨suit, hlarge.trans (hsum _)⟩)

theorem Exceeded.perm {rules : Rules} {all others : List LimitRule}
    (hexceeded : rules.Exceeded all) (hperm : all.Perm others) :
    rules.Exceeded others := by
  have hsum (amount : LimitRule → Nat) :
      (others.map amount).sum = (all.map amount).sum :=
    (hperm.map amount).symm.sum_eq
  simpa only [Exceeded, cardTotal, effectTotal, LimitRule.slotTotal, hsum]
    using hexceeded

end Rules

theorem LimitRule.mem_effectCaps {all : List LimitRule} {most : UInt32} :
    most ∈ all.filterMap effectCap? ↔ effectCap most ∈ all := by
  rw [List.mem_filterMap]
  constructor
  · rintro ⟨rule, hmem, hcap⟩
    cases rule <;> cases hcap
    exact hmem
  · exact fun hmem => ⟨effectCap most, hmem, rfl⟩

theorem Script.effectCap_eq_some_iff {script : Script} {cap : UInt32} :
    script.effectCap = some cap ↔ .effectCap cap ∈ script.limits ∧
      ∀ most, .effectCap most ∈ script.limits → cap ≤ most := by
  simp only [effectCap, List.min?_eq_some_iff, LimitRule.mem_effectCaps]

theorem Script.effectCap_eq_none_iff {script : Script} :
    script.effectCap = none ↔ ∀ most, .effectCap most ∉ script.limits := by
  simp only [effectCap, List.min?_eq_none_iff, List.eq_nil_iff_forall_not_mem,
    LimitRule.mem_effectCaps]

/-- The limits in closed form, with all rules of the effects in play. -/
structure Limits.Totals (limits : Limits) (rules : Rules)
    (carry : Option CarryOver) (all : List LimitRule) : Prop where
  cards : limits.cards.toNat =
    ((all.filterMap LimitRule.cardFloor?).map UInt32.toNat).foldl max
      (rules.cardTotal all)
  effects : limits.effects.toNat =
    ((all.filterMap LimitRule.effectCap?).map UInt32.toNat).foldl min
      (rules.effectTotal all)
  openEffects : limits.openEffects = true ↔ .openEffects ∈ all
  openCards : limits.openCards = carry.any CarryOver.openCards
  suitSlots : ∀ suit, (limits.suitSlots.get? suit).map UInt32.toNat =
    if suit ∈ all.filterMap LimitRule.slotSuit? then
      some (LimitRule.slotTotal suit all)
    else none
  onlySuit : limits.onlySuit = (all.filterMap LimitRule.onlySuit?).getLast?

namespace LimitFold

variable {fold next last : LimitFold} {rules : Rules}
  {carry : Option CarryOver} {done rest : List LimitRule} {rule : LimitRule}

/-- What folding in one rule does to every part of the fold. -/
structure Applied (fold : LimitFold) (rule : LimitRule) (next : LimitFold) :
    Prop where
  cards : next.limits.cards.toNat = fold.limits.cards.toNat + rule.extraCards
  effects : next.limits.effects.toNat =
    fold.limits.effects.toNat + rule.extraEffects
  floor : next.floor = rule.cardFloor?.elim fold.floor
    (fun least => some (fold.floor.elim least (max least)))
  cap : next.cap = rule.effectCap?.elim fold.cap
    (fun most => some (fold.cap.elim most (min most)))
  openEffects : next.limits.openEffects = true ↔
    fold.limits.openEffects = true ∨ rule = .openEffects
  openCards : next.limits.openCards = fold.limits.openCards
  slots : ∀ suit, (next.limits.slotsOf suit).toNat =
    (fold.limits.slotsOf suit).toNat + rule.extraSlots suit
  listed : ∀ suit, (next.limits.suitSlots.get? suit).isSome ↔
    (fold.limits.suitSlots.get? suit).isSome ∨ rule.slotSuit? = some suit
  onlySuit : next.limits.onlySuit = rule.onlySuit?.or fold.limits.onlySuit

theorem apply_eq_ok (happly : fold.apply rule = .ok next) :
    fold.Applied rule next := by
  cases rule with
  | extraPlays cards effects =>
      simp only [apply, bind_eq_ok_iff, pure_eq_ok_iff,
        addCounts_eq_ok_iff] at happly
      obtain ⟨_, hcards, _, heffects, rfl⟩ := happly
      exact ⟨hcards, heffects, rfl, rfl, by simp, rfl, fun _ => rfl,
        fun _ => by simp [LimitRule.slotSuit?], rfl⟩
  | extraSuit suit slots =>
      simp only [apply, bind_eq_ok_iff, pure_eq_ok_iff,
        addCounts_eq_ok_iff] at happly
      obtain ⟨more, hmore, rfl⟩ := happly
      have hget (other : Suit) :
          (fold.limits.suitSlots.insert suit more).get? other =
            if suit = other then some more
            else fold.limits.suitSlots.get? other := by
        simp only [FinMap.get?_insert_key, @eq_comm _ other]
      refine ⟨rfl, rfl, rfl, rfl, by simp, rfl, ?_, ?_, rfl⟩
      · intro other
        simp only [Limits.slotsOf, hget, LimitRule.extraSlots]
        by_cases hsuit : suit = other
        · subst hsuit
          simpa using hmore
        · simp [hsuit]
      · intro other
        rw [hget]
        by_cases hsuit : suit = other
        · simp [LimitRule.slotSuit?, hsuit]
        · simp [LimitRule.slotSuit?, hsuit]
  | _ =>
      cases pure_eq_ok_iff.mp happly
      exact ⟨rfl, rfl, rfl, rfl, by simp, rfl, fun _ => rfl,
        fun _ => by simp [LimitRule.slotSuit?], rfl⟩

/-- A rule can only break the fold off at a sum that does not fit. -/
theorem apply_eq_error {cause : Overflow}
    (happly : fold.apply rule = .error cause) :
    UInt32.size ≤ fold.limits.cards.toNat + rule.extraCards ∨
      UInt32.size ≤ fold.limits.effects.toNat + rule.extraEffects ∨
      ∃ suit, UInt32.size ≤
        (fold.limits.slotsOf suit).toNat + rule.extraSlots suit := by
  cases rule with
  | extraPlays cards effects =>
      cases hcards : addCounts fold.limits.cards cards with
      | error _ => exact .inl (addCounts_eq_error_iff.mp hcards)
      | ok _ =>
          cases heffects : addCounts fold.limits.effects effects with
          | error _ => exact .inr (.inl (addCounts_eq_error_iff.mp heffects))
          | ok _ =>
              simp only [apply, hcards, heffects] at happly
              cases happly
  | extraSuit suit slots =>
      cases hslots : addCounts (fold.limits.slotsOf suit) slots with
      | error _ =>
          refine .inr (.inr ⟨suit, ?_⟩)
          simpa [LimitRule.extraSlots] using addCounts_eq_error_iff.mp hslots
      | ok _ =>
          rw [Limits.slotsOf] at hslots
          simp only [apply, hslots] at happly
          cases happly
  | _ => cases happly

/-- What the fold holds once the rules `done` are folded in. -/
structure Holds (fold : LimitFold) (rules : Rules) (carry : Option CarryOver)
    (done : List LimitRule) : Prop where
  cards : fold.limits.cards.toNat = rules.cardTotal done
  effects : fold.limits.effects.toNat = rules.effectTotal done
  floor : ∀ start : UInt32, (fold.floor.elim start (max start)).toNat =
    ((done.filterMap LimitRule.cardFloor?).map UInt32.toNat).foldl max
      start.toNat
  cap : ∀ start : UInt32, (fold.cap.elim start (min start)).toNat =
    ((done.filterMap LimitRule.effectCap?).map UInt32.toNat).foldl min
      start.toNat
  openEffects : fold.limits.openEffects = true ↔ .openEffects ∈ done
  openCards : fold.limits.openCards = carry.any CarryOver.openCards
  slots : ∀ suit,
    (fold.limits.slotsOf suit).toNat = LimitRule.slotTotal suit done
  listed : ∀ suit, (fold.limits.suitSlots.get? suit).isSome ↔
    suit ∈ done.filterMap LimitRule.slotSuit?
  onlySuit : fold.limits.onlySuit =
    (done.filterMap LimitRule.onlySuit?).getLast?

theorem holds_start : (start rules carry).Holds rules carry [] := by
  constructor <;> simp [start, Rules.cardTotal, Rules.effectTotal,
    Limits.slotsOf, LimitRule.slotTotal]

theorem Holds.step (hholds : fold.Holds rules carry done)
    (hstep : fold.Applied rule next) :
    next.Holds rules carry (done ++ [rule]) where
  cards := by
    rw [hstep.cards, hholds.cards]
    simp [Rules.cardTotal, Nat.add_assoc]
  effects := by
    rw [hstep.effects, hholds.effects]
    simp [Rules.effectTotal, Nat.add_assoc]
  floor start := by
    have hbefore := hholds.floor start
    rw [List.filterMap_append, List.map_append, List.foldl_append, ← hbefore,
      hstep.floor]
    cases hfloor : rule.cardFloor? with
    | none => simp [hfloor]
    | some least =>
        cases hold : fold.floor with
        | none => simp [hfloor, UInt32.toNat_max]
        | some floor =>
            simp only [hfloor, Option.elim, UInt32.toNat_max,
              List.filterMap_cons, List.filterMap_nil, List.map_cons,
              List.map_nil, List.foldl_cons, List.foldl_nil]
            omega
  cap start := by
    have hbefore := hholds.cap start
    rw [List.filterMap_append, List.map_append, List.foldl_append, ← hbefore,
      hstep.cap]
    cases hcap : rule.effectCap? with
    | none => simp [hcap]
    | some most =>
        cases hold : fold.cap with
        | none => simp [hcap, UInt32.toNat_min]
        | some cap =>
            simp only [hcap, Option.elim, UInt32.toNat_min,
              List.filterMap_cons, List.filterMap_nil, List.map_cons,
              List.map_nil, List.foldl_cons, List.foldl_nil]
            omega
  openEffects := by
    rw [hstep.openEffects, hholds.openEffects, List.mem_append,
      List.mem_singleton, eq_comm]
  openCards := hstep.openCards.trans hholds.openCards
  slots suit := by
    rw [hstep.slots, hholds.slots]
    simp [LimitRule.slotTotal]
  listed suit := by
    rw [hstep.listed, hholds.listed, List.filterMap_append, List.mem_append]
    simp
  onlySuit := by
    rw [hstep.onlySuit, hholds.onlySuit, List.filterMap_append]
    cases honly : rule.onlySuit? <;> simp [honly]

/-- Words hold what the fold holds, so no sum was exceeded on the way. -/
theorem Holds.not_exceeded (hholds : fold.Holds rules carry done) :
    ¬ rules.Exceeded done := by
  rintro (hcards | heffects | ⟨suit, hslots⟩)
  · rw [← hholds.cards] at hcards
    exact absurd (UInt32.toNat_lt_size _) (Nat.not_lt.mpr hcards)
  · rw [← hholds.effects] at heffects
    exact absurd (UInt32.toNat_lt_size _) (Nat.not_lt.mpr heffects)
  · rw [← hholds.slots] at hslots
    exact absurd (UInt32.toNat_lt_size _) (Nat.not_lt.mpr hslots)

theorem Holds.exceeded (hholds : fold.Holds rules carry done)
    {cause : Overflow} (happly : fold.apply rule = .error cause) :
    rules.Exceeded (done ++ [rule]) := by
  have hlast (amount : LimitRule → Nat) :
      ((done ++ [rule]).map amount).sum =
        (done.map amount).sum + amount rule := by simp
  have hbreak := apply_eq_error happly
  simp only [hholds.cards, hholds.effects, hholds.slots] at hbreak
  simpa only [Rules.Exceeded, Rules.cardTotal, Rules.effectTotal,
    LimitRule.slotTotal, hlast, Nat.add_assoc] using hbreak

/-- The whole fold: it holds all rules in the end, or one of their sums does not
fit. -/
theorem Holds.foldlM (hholds : fold.Holds rules carry done) :
    (∃ last, rest.foldlM apply fold = .ok last ∧
      last.Holds rules carry (done ++ rest)) ∨
    rest.foldlM apply fold = .error .addition ∧
      rules.Exceeded (done ++ rest) := by
  induction rest generalizing fold done with
  | nil => exact .inl ⟨fold, rfl, by simpa using hholds⟩
  | cons rule rest ih =>
      rw [List.foldlM_cons, List.append_cons]
      cases happly : fold.apply rule with
      | ok next => exact ih (hholds.step (apply_eq_ok happly))
      | error cause =>
          cases cause
          exact .inr ⟨rfl,
            (hholds.exceeded happly).mono (List.sublist_append_left _ rest)⟩

theorem Holds.totals (hholds : fold.Holds rules carry done) :
    fold.close.Totals rules carry done where
  cards := (hholds.floor fold.limits.cards).trans (by rw [hholds.cards])
  effects := (hholds.cap fold.limits.effects).trans (by rw [hholds.effects])
  openEffects := hholds.openEffects
  openCards := hholds.openCards
  suitSlots suit := by
    have hslots := hholds.slots suit
    rw [Limits.slotsOf] at hslots
    have hlisted := hholds.listed suit
    change (fold.limits.suitSlots.get? suit).map UInt32.toNat = _
    cases hget : fold.limits.suitSlots.get? suit with
    | none =>
        rw [if_neg]
        · rfl
        · simpa [hget] using hlisted
    | some slots =>
        rw [if_pos (hlisted.mp (by simp [hget])), ← hslots]
        simp [hget]
  onlySuit := hholds.onlySuit

end LimitFold

namespace Limits

variable {rules : Rules} {carry : Option CarryOver} {limits other : Limits}
  {scripts : List Script} {all others : List LimitRule}

/-- The limits are in closed form, or else a sum does not fit. -/
theorem resolve_cases (rules : Rules) (scripts : List Script)
    (carry : Option CarryOver) :
    (¬ rules.Exceeded (scripts.flatMap Script.limits) ∧
      ∃ limits, resolve rules scripts carry = .ok limits ∧
        limits.Totals rules carry (scripts.flatMap Script.limits)) ∨
    rules.Exceeded (scripts.flatMap Script.limits) ∧
      resolve rules scripts carry = .error .addition := by
  unfold resolve
  rcases LimitFold.holds_start.foldlM with ⟨last, hfold, hholds⟩ |
    ⟨hfold, hexceeded⟩
  · rw [hfold]
    exact .inl ⟨hholds.not_exceeded, _, rfl, hholds.totals⟩
  · rw [hfold]
    exact .inr ⟨hexceeded, rfl⟩

theorem totals_of_resolve {carry : Option CarryOver}
    (hlimits : resolve rules scripts carry = .ok limits) :
    ¬ rules.Exceeded (scripts.flatMap Script.limits) ∧
      limits.Totals rules carry (scripts.flatMap Script.limits) := by
  rcases resolve_cases rules scripts carry with
    ⟨hfits, same, hsame, htotals⟩ | ⟨-, hbreaks⟩
  · cases hlimits.symm.trans hsame
    exact ⟨hfits, htotals⟩
  · cases hlimits.symm.trans hbreaks

/-- The limits but for the suit restriction. -/
def anySuit (limits : Limits) : Limits := { limits with onlySuit := none }

/-- The closed form determines the limits, and apart from the suit restriction it
does not depend on the order of the rules. -/
theorem Totals.anySuit_eq (hlimits : limits.Totals rules carry all)
    (hother : other.Totals rules carry others) (hperm : all.Perm others) :
    other.anySuit = limits.anySuit := by
  have hsum (amount : LimitRule → Nat) :
      (others.map amount).sum = (all.map amount).sum :=
    (hperm.map amount).symm.sum_eq
  have hcards : other.cards = limits.cards := by
    apply UInt32.toNat_inj.mp
    rw [hother.cards, hlimits.cards, Rules.cardTotal, hsum, ← Rules.cardTotal]
    exact ((hperm.filterMap _).map _).symm.foldl_eq _
  have heffects : other.effects = limits.effects := by
    apply UInt32.toNat_inj.mp
    rw [hother.effects, hlimits.effects, Rules.effectTotal, hsum,
      ← Rules.effectTotal]
    exact ((hperm.filterMap _).map _).symm.foldl_eq _
  have hopen : other.openEffects = limits.openEffects := by
    apply Bool.eq_iff_iff.mpr
    rw [hother.openEffects, hlimits.openEffects, hperm.mem_iff]
  have hslots : other.suitSlots = limits.suitSlots := by
    apply FinMap.ext_get?
    intro suit
    apply Option.map_injective fun _ _ => UInt32.toNat_inj.mp
    simp only [hother.suitSlots, hlimits.suitSlots, LimitRule.slotTotal, hsum,
      (hperm.filterMap LimitRule.slotSuit?).mem_iff]
  rw [anySuit, anySuit, hcards, heffects, hopen, hslots, hother.openCards,
    hlimits.openCards]

theorem eq_of_anySuit_eq (hany : other.anySuit = limits.anySuit)
    (honly : other.onlySuit = limits.onlySuit) : other = limits := by
  cases other
  cases limits
  simp_all [anySuit]

/-- The limits of a turn in closed form: the sums of what the rules of the effects
add, then the greatest card floor and the smallest effect cap, and the last suit
restriction.  The fold breaks off exactly if one of the sums does not fit.  So the
order of the rules, and how they are spread over the scripts, decides nothing but
the suit restriction, for which only the order of the restrictions counts. -/
theorem resolve_totals (rules : Rules) (scripts : List Script)
    (carry : Option CarryOver) :
    (resolve rules scripts carry = .error .addition ↔
      rules.Exceeded (scripts.flatMap Script.limits)) ∧
    (¬ rules.Exceeded (scripts.flatMap Script.limits) →
      ∃ limits, resolve rules scripts carry = .ok limits ∧
        limits.Totals rules carry (scripts.flatMap Script.limits)) ∧
    ∀ others : List Script,
      (scripts.flatMap Script.limits).Perm (others.flatMap Script.limits) →
      (resolve rules others carry).map anySuit =
        (resolve rules scripts carry).map anySuit ∧
      ((others.flatMap Script.limits).filterMap LimitRule.onlySuit? =
          (scripts.flatMap Script.limits).filterMap LimitRule.onlySuit? →
        resolve rules others carry = resolve rules scripts carry) := by
  rcases resolve_cases rules scripts carry with
    ⟨hfits, limits, hlimits, htotals⟩ | ⟨hexceeded, hbreaks⟩
  · refine ⟨?_, fun _ => ⟨limits, hlimits, htotals⟩, ?_⟩
    · simp [hlimits, hfits]
    · intro others hperm
      rcases resolve_cases rules others carry with
        ⟨-, other, hother, hsame⟩ | ⟨hexceeded, -⟩
      · have hany := htotals.anySuit_eq hsame hperm
        rw [hlimits, hother]
        refine ⟨congrArg Except.ok hany, fun honly => congrArg Except.ok ?_⟩
        apply eq_of_anySuit_eq hany
        rw [hsame.onlySuit, htotals.onlySuit, honly]
      · exact absurd (hexceeded.perm hperm.symm) hfits
  · refine ⟨by simp [hbreaks, hexceeded], fun hfits => absurd hexceeded hfits, ?_⟩
    intro others hperm
    rcases resolve_cases rules others carry with ⟨hfits, -⟩ | ⟨-, hother⟩
    · exact absurd (hexceeded.perm hperm) hfits
    · rw [hbreaks, hother]
      exact ⟨rfl, fun _ => rfl⟩

/-- Two effects that change every limit. -/
def crowd : List Script :=
  [{ id := ⟨1⟩, name := "Crowd"
     limits := [.extraPlays 1 3, .cardFloor 5, .onlySuit .alt, .openEffects] },
    { id := ⟨2⟩, name := "Coven"
      limits := [.effectCap 4, .onlySuit .goth, .extraSuit .goth 2] }]

def coven : List Script :=
  [{ id := ⟨3⟩, name := "Sabbath"
     limits := [.extraSuit .goth 2, .onlySuit .alt, .effectCap 4, .onlySuit .goth,
       .openEffects, .cardFloor 5, .extraPlays 1 3] }]

/-- Both yield the same limits. -/
theorem resolve_totals_crowd :
    ∃ limits, resolve {} crowd none = .ok limits ∧
      resolve {} coven none = .ok limits ∧
      limits.Totals {} none (crowd.flatMap Script.limits) ∧
      limits.cards = 5 ∧ limits.effects = 4 ∧ limits.onlySuit = some .goth := by
  obtain ⟨-, hfits, hperm⟩ := resolve_totals {} crowd none
  have hnot : ¬ Rules.Exceeded {} (crowd.flatMap Script.limits) := by
    rintro (hcards | heffects | ⟨suit, hslots⟩)
    · exact absurd hcards (by decide)
    · exact absurd heffects (by decide)
    · cases suit <;> exact absurd hslots (by decide)
  obtain ⟨limits, hlimits, htotals⟩ := hfits hnot
  obtain ⟨-, hsame⟩ := hperm coven (by decide)
  refine ⟨limits, hlimits, (hsame (by decide)).trans hlimits, htotals, ?_⟩
  cases hlimits
  decide

end Limits

end Tableau
