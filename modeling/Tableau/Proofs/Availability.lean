import Mathlib.Data.List.Dedup
import Mathlib.Data.List.Perm.Subperm
import Tableau.Proofs.Eligibility
import Tableau.Proofs.Selection

/-!
Whether there are enough targets.  A zone that holds enough cards for a selection
never lacks for a rule that accepts one, but not the other way round: the cards are
counted, and a selection names an identity once.  Main statements:
`hasEnough_of_validate` and `hasEnough_keepsPromise_iff`.
-/

namespace Tableau

/-- Cards of one identity in a zone have one suit. -/
def Table.CopiesAlike (table : Table) (zone : Zone) : Prop :=
  ∀ card ∈ table.cardsIn zone, ∀ copy ∈ table.cardsIn zone,
    card.id = copy.id → card.suit = copy.suit

theorem Table.copiesAlike_of_nodup {table : Table} {zone : Zone}
    (hnodup : ((table.cardsIn zone).map Card.id).Nodup) :
    table.CopiesAlike zone := by
  intro card hcard copy hcopy hid
  rw [List.inj_on_of_nodup_map hnodup hcard hcopy hid]

namespace TargetRule

variable {rule : TargetRule} {table : Table} {selected : List CardId}
  {cards more : List Card}

/-- The number of targets that cards yield: all of them, or one of each suit if
the suits have to differ. -/
def yield (rule : TargetRule) (cards : List Card) : Nat :=
  if rule.distinct then (distinctSuits (cards.map Card.suit)).length
  else cards.length

/-- The cards that a selection can name: of every identity in the zone the first
card, if it fits the suit of the rule. -/
def selectable (rule : TargetRule) (table : Table) : List Card :=
  (((table.cardsIn rule.zone).map Card.id).dedup.filterMap
    (table.find? rule.zone)).filter fun card => rule.admits card.suit

theorem yield_of_distinct (hdistinct : rule.distinct = true) (cards : List Card) :
    rule.yield cards = (distinctSuits (cards.map Card.suit)).length :=
  if_pos hdistinct

theorem yield_of_not_distinct (hdistinct : ¬ rule.distinct = true)
    (cards : List Card) : rule.yield cards = cards.length :=
  if_neg hdistinct

theorem yield_pos_iff : 0 < rule.yield cards ↔ cards ≠ [] := by
  by_cases hdistinct : rule.distinct = true
  · rw [yield_of_distinct hdistinct, List.length_pos_iff_exists_mem]
    constructor
    · rintro ⟨suit, hsuit⟩ rfl
      exact absurd (mem_distinctSuits.mp hsuit) List.not_mem_nil
    · intro hne
      obtain ⟨card, hcard⟩ := List.exists_mem_of_ne_nil _ hne
      exact ⟨card.suit, mem_distinctSuits.mpr (List.mem_map_of_mem hcard)⟩
  · rw [yield_of_not_distinct hdistinct]
    exact List.length_pos_iff

theorem hasEnough_iff (hzone : rule.zone ≠ .deck) :
    rule.hasEnough table = true ↔
      rule.least ≤ rule.yield (rule.candidates table) := by
  unfold hasEnough least
  rw [if_neg hzone]
  cases hcount : rule.count with
  | none => simp
  | one =>
      dsimp only
      rw [Nat.succ_le_iff, yield_pos_iff]
      simp
  | between least most =>
      unfold yield
      dsimp only
      split <;> simp

theorem length_le_yield (hnodup : cards.Nodup)
    (hdistinct : rule.distinct = true → (cards.map Card.suit).Nodup)
    (hsub : cards ⊆ more) : cards.length ≤ rule.yield more := by
  by_cases hdiffer : rule.distinct = true
  · have hsuits : cards.map Card.suit ⊆ distinctSuits (more.map Card.suit) := by
      intro suit hsuit
      rw [mem_distinctSuits]
      exact List.map_subset _ hsub hsuit
    have hlength := (List.subperm_of_subset (hdistinct hdiffer) hsuits).length_le
    rwa [List.length_map, ← yield_of_distinct hdiffer] at hlength
  · rw [yield_of_not_distinct hdiffer]
    exact (List.subperm_of_subset hnodup hsub).length_le

theorem exists_one_per_suit (cards : List Card) :
    ∃ picked : List Card, picked.Sublist cards ∧
      (picked.map Card.suit).Nodup ∧
      ∀ suit, suit ∈ picked.map Card.suit ↔ suit ∈ cards.map Card.suit := by
  induction cards with
  | nil => exact ⟨[], by simp⟩
  | cons card rest ih =>
      obtain ⟨picked, hsub, hnodup, hsuits⟩ := ih
      by_cases hold : card.suit ∈ picked.map Card.suit
      · refine ⟨picked, hsub.cons card, hnodup, fun suit => ?_⟩
        rw [List.map_cons, List.mem_cons, ← hsuits]
        exact ⟨.inr, fun hmem => hmem.elim (fun heq => heq ▸ hold) id⟩
      · refine ⟨card :: picked, hsub.cons_cons card, ?_, fun suit => ?_⟩
        · rw [List.map_cons, List.nodup_cons]
          exact ⟨hold, hnodup⟩
        · rw [List.map_cons, List.map_cons, List.mem_cons, List.mem_cons, hsuits]

/-- Every number of targets that cards yield can be picked among them. -/
theorem exists_sublist_of_le_yield {count : Nat}
    (hcount : count ≤ rule.yield cards) :
    ∃ picked : List Card, picked.Sublist cards ∧ picked.length = count ∧
      (rule.distinct = true → (picked.map Card.suit).Nodup) := by
  by_cases hdiffer : rule.distinct = true
  · rw [yield_of_distinct hdiffer] at hcount
    -- One card of each suit is as many cards as there are suits.
    obtain ⟨picked, hsub, hnodup, hsuits⟩ := exists_one_per_suit cards
    have hperm : (distinctSuits (cards.map Card.suit)).Perm
        (picked.map Card.suit) := by
      rw [List.perm_ext_iff_of_nodup (nodup_distinctSuits _) hnodup]
      intro suit
      rw [mem_distinctSuits, hsuits]
    have hlength := hperm.length_eq
    rw [List.length_map] at hlength
    have htake := List.take_sublist count picked
    refine ⟨picked.take count, htake.trans hsub, ?_, fun _ => ?_⟩
    · rw [List.length_take]
      omega
    · exact (htake.map Card.suit).nodup hnodup
  · rw [yield_of_not_distinct hdiffer] at hcount
    refine ⟨cards.take count, List.take_sublist count cards, ?_,
      fun hdistinct => absurd hdistinct hdiffer⟩
    rw [List.length_take]
    omega

theorem find?_id {zone : Zone} {id : CardId} {card : Card}
    (hcard : table.find? zone id = some card) : card.id = id := by
  simpa using List.find?_some hcard

theorem mem_selectable {card : Card} :
    card ∈ rule.selectable table ↔
      table.find? rule.zone card.id = some card ∧
        rule.admits card.suit = true := by
  rw [selectable, List.mem_filter, List.mem_filterMap]
  refine and_congr_left fun _ => ?_
  constructor
  · rintro ⟨id, -, hcard⟩
    rwa [find?_id hcard]
  · intro hcard
    refine ⟨card.id, ?_, hcard⟩
    rw [List.mem_dedup]
    exact List.mem_map_of_mem (List.mem_of_find?_eq_some hcard)

theorem nodup_selectable :
    ((rule.selectable table).map Card.id).Nodup := by
  have hcards : (rule.selectable table).Nodup := by
    refine List.Nodup.filter _ (List.Nodup.filterMap ?_ (List.nodup_dedup _))
    intro left right card hleft hright
    rw [← find?_id hleft, ← find?_id hright]
  refine hcards.map_on fun left hleft right hright hid => ?_
  have hfirst := (mem_selectable.mp hleft).1
  rw [hid, (mem_selectable.mp hright).1] at hfirst
  exact (Option.some.inj hfirst).symm

theorem selectable_subset_candidates :
    rule.selectable table ⊆ rule.candidates table := by
  intro card hcard
  obtain ⟨hfirst, hfits⟩ := mem_selectable.mp hcard
  exact List.mem_filter.mpr ⟨List.mem_of_find?_eq_some hfirst, hfits⟩

/-- The cards that a legal selection names. -/
theorem Legal.exists_cards (hlegal : rule.Legal table selected) :
    ∃ cards : List Card, cards.map Card.id = selected ∧
      cards ⊆ rule.selectable table ∧
      (rule.distinct = true → (cards.map Card.suit).Nodup) := by
  refine ⟨selected.filterMap (table.find? rule.zone), ?_, ?_, ?_⟩
  · have hid : ∀ id ∈ selected,
        (table.find? rule.zone id).map Card.id = some id := by
      intro id hmem
      obtain ⟨card, hcard, -⟩ := hlegal.found id hmem
      rw [hcard, Option.map_some, find?_id hcard]
    rw [List.map_filterMap, List.filterMap_congr hid, List.filterMap_some]
  · intro card hcard
    obtain ⟨id, hmem, hfirst⟩ := List.mem_filterMap.mp hcard
    obtain ⟨found, hfound, hfits⟩ := hlegal.found id hmem
    cases hfirst.symm.trans hfound
    rw [mem_selectable, find?_id hfirst]
    exact ⟨hfirst, hfits⟩
  · rw [List.map_filterMap]
    exact hlegal.distinct

theorem Legal.least_le (hlegal : rule.Legal table selected) :
    rule.least ≤ selected.length := by
  unfold least
  cases hcount : rule.count with
  | none => exact Nat.zero_le _
  | one => exact Nat.le_of_eq (hlegal.single hcount).symm
  | between least most => exact (hlegal.inRange least most hcount).1

theorem Legal.least_le_yield (hlegal : rule.Legal table selected)
    (hmore : rule.selectable table ⊆ more) : rule.least ≤ rule.yield more := by
  obtain ⟨cards, hids, hsub, hdistinct⟩ := hlegal.exists_cards
  have hnodup : cards.Nodup := .of_map Card.id (hids ▸ hlegal.nodup)
  have hlength := length_le_yield hnodup hdistinct (List.Subset.trans hsub hmore)
  have hleast := hlegal.least_le
  rw [← hids, List.length_map] at hleast
  omega

/-- The rule does not ask for more targets than it allows. -/
def Satisfiable (rule : TargetRule) : Prop :=
  ∀ least most, rule.count = .between least most → least ≤ most

/-- As many nameable cards as a rule asks for are a legal selection. -/
theorem exists_legal (hrange : rule.Satisfiable)
    (hleast : rule.least ≤ rule.yield (rule.selectable table)) :
    ∃ selected, rule.Legal table selected := by
  obtain ⟨picked, hsub, hlength, hdistinct⟩ := exists_sublist_of_le_yield hleast
  have hpicked : ∀ card ∈ picked,
      table.find? rule.zone card.id = some card ∧
        rule.admits card.suit = true :=
    fun card hcard => mem_selectable.mp (hsub.subset hcard)
  -- Looked up again by identity, the picked cards show their own suits.
  have hsuits : (picked.map Card.id).filterMap (rule.suitAt? table) =
      picked.map Card.suit := by
    have hsuit : ∀ card ∈ picked,
        (rule.suitAt? table ∘ Card.id) card = some card.suit := by
      intro card hcard
      rw [Function.comp_apply, suitAt?, (hpicked card hcard).1, Option.map_some]
    rw [List.filterMap_map, List.filterMap_congr hsuit]
    exact congrFun List.filterMap_eq_map picked
  have hcount : (picked.map Card.id).length = rule.least := by
    rw [List.length_map, hlength]
  refine ⟨picked.map Card.id, ⟨?_, ?_, ?_, ?_, ?_⟩⟩
  · intro hone
    rw [hcount, least, hone]
  · intro least most hbetween
    have hle := UInt64.le_iff_toNat_le.mp (hrange least most hbetween)
    rw [hcount, TargetRule.least, hbetween]
    exact ⟨Nat.le_refl _, hle⟩
  · exact (hsub.map Card.id).nodup nodup_selectable
  · intro id hid
    obtain ⟨card, hcard, rfl⟩ := List.mem_map.mp hid
    exact ⟨card, hpicked card hcard⟩
  · intro hdiffer
    rw [hsuits]
    exact hdistinct hdiffer

/-- A selection is accepted for some choice of the targets exactly if the
identities in the zone are enough. -/
theorem exists_validate_iff (hrange : rule.Satisfiable) :
    (∃ selected, rule.validate table selected = .ok ()) ↔
      rule.least ≤ rule.yield (rule.selectable table) := by
  by_cases hnone : rule.count = .none
  · have hleast : rule.least = 0 := by rw [least, hnone]
    rw [hleast]
    exact ⟨fun _ => Nat.zero_le _,
      fun _ => ⟨[], (validate_eq_ok_iff_nil hnone).mpr rfl⟩⟩
  · simp only [validate_eq_ok_iff_legal hnone]
    exact ⟨fun ⟨_, hlegal⟩ => hlegal.least_le_yield fun _ hcard => hcard,
      fun hleast => exists_legal hrange hleast⟩

/-- Where the zone holds enough cards, some selection is accepted. -/
def KeepsPromise (rule : TargetRule) (table : Table) : Prop :=
  rule.hasEnough table = true →
    ∃ selected, rule.validate table selected = .ok ()

theorem exists_selectable (halike : table.CopiesAlike rule.zone) {card : Card}
    (hcard : card ∈ rule.candidates table) :
    ∃ first ∈ rule.selectable table,
      first.id = card.id ∧ first.suit = card.suit := by
  obtain ⟨hmem, hfits⟩ := List.mem_filter.mp hcard
  have hsome : (table.find? rule.zone card.id).isSome :=
    List.find?_isSome.mpr ⟨card, hmem, beq_self_eq_true _⟩
  obtain ⟨first, hfirst⟩ := Option.isSome_iff_exists.mp hsome
  have hid := find?_id hfirst
  have hsuit := halike first (List.mem_of_find?_eq_some hfirst) card hmem hid
  refine ⟨first, ?_, hid, hsuit⟩
  rw [mem_selectable, hid, hsuit]
  exact ⟨hfirst, hfits⟩

theorem yield_candidates_le_of_distinct
    (halike : table.CopiesAlike rule.zone) (hdistinct : rule.distinct = true) :
    rule.yield (rule.candidates table) ≤ rule.yield (rule.selectable table) := by
  rw [yield_of_distinct hdistinct, yield_of_distinct hdistinct]
  refine (List.subperm_of_subset (nodup_distinctSuits _) ?_).length_le
  intro suit hsuit
  rw [mem_distinctSuits] at hsuit ⊢
  obtain ⟨card, hcard, rfl⟩ := List.mem_map.mp hsuit
  obtain ⟨first, hfirst, -, hsame⟩ := exists_selectable halike hcard
  exact hsame ▸ List.mem_map_of_mem hfirst

theorem yield_candidates_le_of_nodup
    (hnodup : ((table.cardsIn rule.zone).map Card.id).Nodup) :
    rule.yield (rule.candidates table) ≤ rule.yield (rule.selectable table) := by
  have halike := Table.copiesAlike_of_nodup hnodup
  by_cases hdistinct : rule.distinct = true
  · exact yield_candidates_le_of_distinct halike hdistinct
  · rw [yield_of_not_distinct hdistinct, yield_of_not_distinct hdistinct]
    have hcards : (rule.candidates table).Nodup :=
      (List.Nodup.of_map Card.id hnodup).filter _
    refine (List.subperm_of_subset hcards fun card hcard => ?_).length_le
    obtain ⟨first, hfirst, hid, -⟩ := exists_selectable halike hcard
    have hzone := List.mem_of_mem_filter hcard
    have hmem := List.mem_of_mem_filter (selectable_subset_candidates hfirst)
    rwa [← List.inj_on_of_nodup_map hnodup hmem hzone hid]

theorem least_le_yield_of_least_le_one (halike : table.CopiesAlike rule.zone)
    (hleast : rule.least ≤ 1)
    (henough : rule.least ≤ rule.yield (rule.candidates table)) :
    rule.least ≤ rule.yield (rule.selectable table) := by
  rcases Nat.eq_zero_or_pos rule.least with hzero | hpos
  · omega
  · obtain ⟨card, hcard⟩ := List.exists_mem_of_ne_nil _
      (yield_pos_iff.mp (Nat.lt_of_lt_of_le hpos henough))
    obtain ⟨first, hfirst, -⟩ := exists_selectable halike hcard
    have hyield : 0 < rule.yield (rule.selectable table) :=
      yield_pos_iff.mpr (List.ne_nil_of_mem hfirst)
    omega

theorem keepsPromise_iff (hzone : rule.zone ≠ .deck)
    (hrange : rule.Satisfiable) :
    rule.KeepsPromise table ↔
      (rule.least ≤ rule.yield (rule.candidates table) →
        rule.least ≤ rule.yield (rule.selectable table)) := by
  rw [KeepsPromise, hasEnough_iff hzone, exists_validate_iff hrange]

/-- Where the cards of the zone are enough for the rule, a selection is accepted
exactly if their identities are enough as well.  So it is without copies of a
card, and with copies of one suit as long as the rule asks for one card at most or
for different suits. -/
theorem hasEnough_keepsPromise_iff (hzone : rule.zone ≠ .deck)
    (hrange : rule.Satisfiable) :
    (rule.KeepsPromise table ↔
      (rule.least ≤ rule.yield (rule.candidates table) →
        rule.least ≤ rule.yield (rule.selectable table))) ∧
    (((table.cardsIn rule.zone).map Card.id).Nodup →
      rule.KeepsPromise table) ∧
    (table.CopiesAlike rule.zone → rule.least ≤ 1 ∨ rule.distinct = true →
      rule.KeepsPromise table) := by
  refine ⟨keepsPromise_iff hzone hrange, fun hnodup => ?_, fun halike hrule => ?_⟩
  · refine (keepsPromise_iff hzone hrange).mpr fun henough => ?_
    exact Nat.le_trans henough (yield_candidates_le_of_nodup hnodup)
  · refine (keepsPromise_iff hzone hrange).mpr fun henough => ?_
    rcases hrule with hone | hdistinct
    · exact least_le_yield_of_least_le_one halike hone henough
    · exact Nat.le_trans henough
        (yield_candidates_le_of_distinct halike hdistinct)

/-- Of three cards two can be named, and that is enough for a pair. -/
theorem hasEnough_keepsPromise_reprints :
    ∃ selected,
      validate { count := .between 2 3, zone := .discard } reprints selected =
        .ok () := by
  have hrange : Satisfiable { count := .between 2 3, zone := .discard } := by
    rintro least most ⟨⟩
    decide
  have hkeeps : KeepsPromise { count := .between 2 3, zone := .discard }
      reprints :=
    (hasEnough_keepsPromise_iff (by decide) hrange).1.mpr fun _ => by decide
  exact hkeeps (by decide)

def roxyTwice : Table :=
  { cards :=
      [⟨⟨0⟩, ⟨⟨1⟩, "Roxy", .goth, 3⟩, false⟩,
        ⟨⟨1⟩, ⟨⟨1⟩, "Roxy", .goth, 3⟩, false⟩]
    history := ["Roxy", "Roxy"] }

/-- Not every zone with enough cards holds a legal selection: two copies of one
card are no pair. -/
theorem not_hasEnough_keepsPromise :
    ¬ ∀ (rule : TargetRule) (table : Table), rule.zone ≠ .deck →
      rule.Satisfiable → rule.KeepsPromise table := by
  intro hall
  have hrange : Satisfiable { count := .between 2 2 } := by
    rintro least most ⟨⟩
    decide
  have hselected := hall _ roxyTwice (by decide) hrange (by decide)
  rw [exists_validate_iff hrange] at hselected
  exact absurd hselected (by decide)

/-- A selection that is accepted is never found to lack targets, neither by the
rule itself nor by the check of a script with this rule. -/
theorem hasEnough_of_validate
    (hvalid : rule.validate table selected = .ok ()) :
    rule.hasEnough table = true ∧
      ∀ (script : Script) (rules : Rules) (excluded : Option PlayId),
        script.target = rule →
        script.checkWithout rules table excluded ≠ .ok (.error .noTargets) := by
  have henough : rule.hasEnough table = true := by
    by_cases hzone : rule.zone = .deck
    · rw [hasEnough, if_pos hzone]
    · rw [hasEnough_iff hzone]
      by_cases hnone : rule.count = .none
      · rw [least, hnone]
        exact Nat.zero_le _
      · have hlegal := (validate_eq_ok_iff_legal hnone).mp hvalid
        exact hlegal.least_le_yield selectable_subset_candidates
  refine ⟨henough, ?_⟩
  rintro script rules excluded rfl hcheck
  rw [Script.hasEnough_eq_false_of_checkWithout hcheck] at henough
  cases henough

/-- The pair of suits in the discard pile with two prints of Roxy is found. -/
theorem hasEnough_of_validate_reprints :
    pairOfSuits.validate reprints [⟨1⟩, ⟨2⟩] = .ok () ∧
      pairOfSuits.hasEnough reprints = true ∧
      Script.check { id := ⟨1⟩, name := "Duet", target := pairOfSuits } {}
        reprints ≠ .ok (.error .noTargets) := by
  have hvalid : pairOfSuits.validate reprints [⟨1⟩, ⟨2⟩] = .ok () := by decide
  obtain ⟨henough, hcheck⟩ := hasEnough_of_validate hvalid
  exact ⟨hvalid, henough, hcheck _ {} none rfl⟩

end TargetRule

end Tableau
