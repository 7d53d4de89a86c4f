import Mathlib.Data.List.Dedup
import Tableau.Target

/-!
What a legal selection of targets is.  The check goes through the targets one by
one with those it has seen, but it only depends on which cards are named: they
differ, lie in the zone, fit the suit of the rule and have different suits where
the rule asks for that.  Main statement: `validate_eq_ok_iff`.
-/

namespace Tableau

theorem nodup_distinctSuits (suits : List Suit) : (distinctSuits suits).Nodup := by
  have hall : Suit.all.Nodup := by decide
  exact hall.filter _

theorem mem_distinctSuits {suits : List Suit} {suit : Suit} :
    suit ∈ distinctSuits suits ↔ suit ∈ suits := by
  simp [distinctSuits, Suit.mem_all]

theorem length_distinctSuits_eq_iff {suits : List Suit} :
    (distinctSuits suits).length = suits.length ↔ suits.Nodup := by
  have hperm : (distinctSuits suits).Perm suits.dedup := by
    rw [List.perm_ext_iff_of_nodup (nodup_distinctSuits suits) suits.nodup_dedup]
    intro suit
    rw [mem_distinctSuits, List.mem_dedup]
  rw [hperm.length_eq]
  constructor
  · intro hlength
    rw [← suits.dedup_sublist.eq_of_length hlength]
    exact suits.nodup_dedup
  · intro hnodup
    rw [hnodup.dedup]

namespace TargetRule

/-- The suit of the first card in the zone of the rule with an identity. -/
def suitAt? (rule : TargetRule) (table : Table) (id : CardId) : Option Suit :=
  (table.find? rule.zone id).map Card.suit

/-- A selection of targets that follows a rule which takes targets.  The first
card with an identity in the zone counts. -/
structure Legal (rule : TargetRule) (table : Table) (selected : List CardId) :
    Prop where
  single : rule.count = .one → selected.length = 1
  inRange : ∀ least most, rule.count = .between least most →
    least.toNat ≤ selected.length ∧ selected.length ≤ most.toNat
  nodup : selected.Nodup
  found : ∀ id ∈ selected, ∃ card, table.find? rule.zone id = some card ∧
    rule.admits card.suit = true
  distinct : rule.distinct = true →
    (selected.filterMap (rule.suitAt? table)).Nodup

variable {rule : TargetRule} {table : Table} {seen selected : List CardId}

theorem checkCount_eq_ok_iff {got : Nat} :
    rule.checkCount got = .ok () ↔
      (rule.count = .none → got = 0) ∧ (rule.count = .one → got = 1) ∧
        ∀ least most, rule.count = .between least most →
          least.toNat ≤ got ∧ got ≤ most.toNat := by
  unfold checkCount
  cases hcount : rule.count with
  | none => simp
  | one => simp
  | between least most =>
      simp only [reduceCtorEq, false_implies, TargetCount.between.injEq,
        and_imp, true_and]
      constructor
      · intro hcheck _ _ hleast hmost
        subst hleast hmost
        split at hcheck
        · cases hcheck
        · omega
      · intro hrange
        rw [if_neg (by have := hrange _ _ rfl rfl; omega)]

theorem checkOne_eq_ok_iff {id : CardId} {suit : Suit} :
    rule.checkOne table seen id = .ok suit ↔
      id ∉ seen ∧ ∃ card, table.find? rule.zone id = some card ∧
        rule.admits card.suit = true ∧ card.suit = suit := by
  unfold checkOne
  by_cases hseen : id ∈ seen
  · simp [hseen]
  · cases hcard : table.find? rule.zone id with
    | none => simp [hseen]
    | some card =>
        cases hsuit : rule.suit with
        | none => simp [hseen, admits, hsuit]
        | some expected =>
            by_cases hfits : card.suit = expected
            · simp [hseen, admits, hsuit, hfits]
            · simp [hseen, admits, hsuit, hfits]

/-- Cards that are checked one after the other differ, lie in the zone and fit
the suit of the rule; the answer is the list of their suits. -/
theorem checkEach_eq_ok_iff {suits : List Suit} :
    rule.checkEach table seen selected = .ok suits ↔
      selected.Nodup ∧ (∀ id ∈ selected, id ∉ seen) ∧
        (∀ id ∈ selected, ∃ card, table.find? rule.zone id = some card ∧
          rule.admits card.suit = true) ∧
        selected.filterMap (rule.suitAt? table) = suits := by
  induction selected generalizing seen suits with
  | nil => simp [checkEach]
  | cons id rest ih =>
      simp only [checkEach, bind_eq_ok_iff, pure_eq_ok_iff, checkOne_eq_ok_iff, ih]
      constructor
      · rintro ⟨suit, ⟨hseen, card, hcard, hfits, rfl⟩, others,
          ⟨hnodup, hfresh, hfound, rfl⟩, rfl⟩
        have hnew : id ∉ rest := fun hmem => hfresh id hmem List.mem_cons_self
        refine ⟨List.nodup_cons.mpr ⟨hnew, hnodup⟩, ?_, ?_, ?_⟩
        · refine List.forall_mem_cons.mpr ⟨hseen, fun other hother hmem => ?_⟩
          exact hfresh other hother (List.mem_cons_of_mem id hmem)
        · exact List.forall_mem_cons.mpr ⟨⟨card, hcard, hfits⟩, hfound⟩
        · simp [suitAt?, hcard]
      · rintro ⟨hnodup, hfresh, hfound, rfl⟩
        obtain ⟨hnew, hrest⟩ := List.nodup_cons.mp hnodup
        obtain ⟨hseen, hfresh⟩ := List.forall_mem_cons.mp hfresh
        obtain ⟨⟨card, hcard, hfits⟩, hfound⟩ := List.forall_mem_cons.mp hfound
        refine ⟨card.suit, ⟨hseen, card, hcard, hfits, rfl⟩, _,
          ⟨hrest, ?_, hfound, rfl⟩, ?_⟩
        · intro other hother hmem
          rcases List.mem_cons.mp hmem with rfl | hmem
          · exact hnew hother
          · exact hfresh other hother hmem
        · simp [suitAt?, hcard]

theorem length_filterMap_suitAt?
    (hfound : ∀ id ∈ selected, ∃ card, table.find? rule.zone id = some card ∧
      rule.admits card.suit = true) :
    (selected.filterMap (rule.suitAt? table)).length = selected.length := by
  rw [List.filterMap_length_eq_length]
  intro id hid
  obtain ⟨card, hcard, -⟩ := hfound id hid
  simp [suitAt?, hcard]

/-- A selection under a rule that takes targets is accepted exactly if it is
legal. -/
theorem validate_eq_ok_iff_legal (htakes : rule.count ≠ .none) :
    rule.validate table selected = .ok () ↔ rule.Legal table selected := by
  have hnone : ¬ rule.isNone = true := by simpa [isNone] using htakes
  rw [validate, bind_eq_ok_iff]
  constructor
  · rintro ⟨⟨⟩, hcount, hvalid⟩
    obtain ⟨-, hsingle, hrange⟩ := checkCount_eq_ok_iff.mp hcount
    rw [if_neg hnone, bind_eq_ok_iff] at hvalid
    obtain ⟨suits, heach, hdistinct⟩ := hvalid
    obtain ⟨hnodup, -, hfound, rfl⟩ := checkEach_eq_ok_iff.mp heach
    refine ⟨hsingle, hrange, hnodup, hfound, fun hdiffer => ?_⟩
    rw [← length_distinctSuits_eq_iff, length_filterMap_suitAt? hfound]
    by_contra hlength
    rw [if_pos ⟨hdiffer, hlength⟩] at hdistinct
    cases hdistinct
  · rintro ⟨hsingle, hrange, hnodup, hfound, hdistinct⟩
    refine ⟨(), checkCount_eq_ok_iff.mpr ⟨fun h => absurd h htakes, hsingle,
      hrange⟩, ?_⟩
    rw [if_neg hnone, bind_eq_ok_iff]
    refine ⟨_, checkEach_eq_ok_iff.mpr ⟨hnodup, by simp, hfound, rfl⟩, ?_⟩
    rw [if_neg]
    · rfl
    · rintro ⟨hdiffer, hlength⟩
      rw [← length_filterMap_suitAt? hfound] at hlength
      exact hlength (length_distinctSuits_eq_iff.mpr (hdistinct hdiffer))

theorem validate_eq_ok_iff_nil (hnone : rule.count = .none) :
    rule.validate table selected = .ok () ↔ selected = [] := by
  have hisNone : rule.isNone = true := by simp [isNone, hnone]
  rw [validate, bind_eq_ok_iff]
  constructor
  · rintro ⟨⟨⟩, hcount, -⟩
    exact List.length_eq_zero_iff.mp ((checkCount_eq_ok_iff.mp hcount).1 hnone)
  · rintro rfl
    refine ⟨(), checkCount_eq_ok_iff.mpr ?_, ?_⟩
    · simp [hnone]
    · rw [if_pos hisNone]
      rfl

theorem Legal.perm {other : List CardId} (hlegal : rule.Legal table selected)
    (hperm : selected.Perm other) : rule.Legal table other where
  single hone := hperm.length_eq ▸ hlegal.single hone
  inRange least most hcount := hperm.length_eq ▸ hlegal.inRange least most hcount
  nodup := hperm.nodup_iff.mp hlegal.nodup
  found id hid := hlegal.found id (hperm.mem_iff.mpr hid)
  distinct hdistinct :=
    (hperm.filterMap _).nodup_iff.mp (hlegal.distinct hdistinct)

theorem validate_eq_ok (hvalid : rule.validate table selected = .ok ()) :
    selected.Nodup ∧
      ∀ id ∈ selected, ∃ card, table.find? rule.zone id = some card := by
  by_cases hnone : rule.count = .none
  · rw [(validate_eq_ok_iff_nil hnone).mp hvalid]
    simp
  · have hlegal := (validate_eq_ok_iff_legal hnone).mp hvalid
    refine ⟨hlegal.nodup, fun id hid => ?_⟩
    obtain ⟨card, hcard, -⟩ := hlegal.found id hid
    exact ⟨card, hcard⟩

/-- What is accepted: no targets where the rule takes none, and else the legal
selections.  The order of the targets does not matter. -/
theorem validate_eq_ok_iff (rule : TargetRule) (table : Table)
    (selected : List CardId) :
    (rule.validate table selected = .ok () ↔
      rule.count = .none ∧ selected = [] ∨
        rule.count ≠ .none ∧ rule.Legal table selected) ∧
    ∀ other, selected.Perm other →
      (rule.validate table other = .ok () ↔
        rule.validate table selected = .ok ()) := by
  by_cases hnone : rule.count = .none
  · simp only [validate_eq_ok_iff_nil hnone, hnone, true_and, ne_eq, not_true,
      false_and, or_false]
    intro other hperm
    rw [← List.length_eq_zero_iff, ← List.length_eq_zero_iff, hperm.length_eq]
  · simp only [validate_eq_ok_iff_legal hnone, hnone, false_and, false_or, ne_eq,
      not_false_eq_true, true_and]
    exact fun other hperm => ⟨fun h => h.perm hperm.symm, fun h => h.perm hperm⟩

/-- In the discard pile lie two prints of Roxy, and the first one counts. -/
def reprints : Table :=
  { discard :=
      [⟨⟨1⟩, "Roxy", .goth, 3⟩, ⟨⟨2⟩, "Mia", .alt, 4⟩, ⟨⟨1⟩, "Roxy", .alt, 5⟩] }

def pairOfSuits : TargetRule :=
  { count := .between 2 2, distinct := true, zone := .discard }

/-- Roxy and Mia can be selected in both orders, for the suit of the other print
does not matter. -/
theorem validate_eq_ok_iff_reprints :
    pairOfSuits.Legal reprints [⟨1⟩, ⟨2⟩] ∧
      pairOfSuits.validate reprints [⟨2⟩, ⟨1⟩] = .ok () := by
  obtain ⟨hlegal, hany⟩ := validate_eq_ok_iff pairOfSuits reprints [⟨1⟩, ⟨2⟩]
  have hvalid : pairOfSuits.validate reprints [⟨1⟩, ⟨2⟩] = .ok () := by decide
  rcases hlegal.mp hvalid with ⟨hnone, -⟩ | ⟨-, hlegal⟩
  · cases hnone
  · exact ⟨hlegal, (hany _ (.swap _ _ [])).mpr hvalid⟩

end TargetRule

end Tableau
