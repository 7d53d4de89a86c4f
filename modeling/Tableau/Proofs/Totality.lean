import Tableau.Proofs.Scoring

/-!
Which turns can be scored.  Scoring breaks off only where it sums up the base
scores of targets, so that it answers exactly if each of these sums stays within
its word from the first target to the last.  Scores that are small for the number
of targets do so, and of scores that are not negative only the whole sums matter.
Main statement: `score_answers_iff`.
-/

namespace Tableau

namespace Table

variable {table : Table} {targets : List CardId}

/-- The cards whose base score a target can count. -/
def baseCards (table : Table) : List Card :=
  table.cardsIn .play ++ table.cardsIn .discard

theorem exists_of_baseOf? {id : CardId} {score : Int64}
    (hbase : table.baseOf? id = some score) :
    ∃ card ∈ table.baseCards, card.base = score := by
  rw [baseOf?, Option.map_eq_some_iff] at hbase
  obtain ⟨card, hfound, hscore⟩ := hbase
  refine ⟨card, List.mem_append.mpr ?_, hscore⟩
  rcases Option.or_eq_some_iff.mp hfound with hplay | ⟨-, hdiscard⟩
  · exact .inl (List.mem_of_find?_eq_some hplay)
  · exact .inr (List.mem_of_find?_eq_some hdiscard)

theorem counted_of_forall (P : Int → Prop) (hzero : P 0)
    (hcards : ∀ card ∈ table.baseCards, P card.base.toInt) (id : CardId) :
    P (((table.baseOf? id).map Int64.toInt).getD 0) := by
  cases hbase : table.baseOf? id with
  | none => exact hzero
  | some score =>
      obtain ⟨card, hcard, rfl⟩ := exists_of_baseOf? hbase
      exact hcards card hcard

theorem natAbs_baseSum_le {most : Nat}
    (hmost : ∀ card ∈ table.baseCards, card.base.toInt.natAbs ≤ most)
    (targets : List CardId) :
    (table.baseSum targets).natAbs ≤ targets.length * most := by
  induction targets with
  | nil => simp [baseSum]
  | cons id rest ih =>
      have hid := counted_of_forall (fun score => score.natAbs ≤ most)
        (Nat.zero_le most) hmost id
      rw [baseSum_cons, List.length_cons, Nat.succ_mul]
      have hadd := Int.natAbs_add_le
        (((table.baseOf? id).map Int64.toInt).getD 0) (table.baseSum rest)
      omega

theorem baseSum_append (first rest : List CardId) :
    table.baseSum (first ++ rest) =
      table.baseSum first + table.baseSum rest := by
  simp [baseSum]

theorem baseSum_nonneg
    (hcards : ∀ card ∈ table.baseCards, 0 ≤ card.base.toInt)
    (targets : List CardId) : 0 ≤ table.baseSum targets := by
  induction targets with
  | nil => simp [baseSum]
  | cons id rest ih =>
      rw [baseSum_cons]
      exact Int.add_nonneg
        (counted_of_forall (0 ≤ ·) (Int.le_refl 0) hcards id) ih

theorem sumsUp_of_bounded {most : Nat}
    (hmost : ∀ card ∈ table.baseCards, card.base.toInt.natAbs ≤ most)
    (hfits : IsScore (targets.length * most : Nat)) : table.SumsUp targets := by
  intro first hfirst
  have hsum := natAbs_baseSum_le hmost first
  have hfew := Nat.mul_le_mul_right most hfirst.length_le
  have hlow : Int64.minValue.toInt ≤ -Int64.maxValue.toInt := by decide
  have hlarge := hfits.2
  exact ⟨by omega, by omega⟩

/-- Sums of scores that are not negative grow from target to target. -/
theorem sumsUp_iff_of_nonneg
    (hcards : ∀ card ∈ table.baseCards, 0 ≤ card.base.toInt) :
    table.SumsUp targets ↔ table.baseSum targets ≤ Int64.maxValue.toInt := by
  constructor
  · intro hsums
    exact (hsums targets List.prefix_rfl).2
  · rintro hfits first ⟨rest, rfl⟩
    have hfirst := baseSum_nonneg hcards first
    have hrest := baseSum_nonneg hcards rest
    have hlow : Int64.minValue.toInt ≤ 0 := by decide
    rw [baseSum_append] at hfits
    exact ⟨by omega, by omega⟩

/-- Scoring answers exactly if the base scores of the targets sum up in their
word at every step that adds them, and otherwise breaks off at an addition.  It
always answers if no base score is too large for the number of targets; and if
no base score is negative, it answers exactly if the whole sums fit. -/
theorem score_answers_iff (table : Table) :
    ((∃ breakdown log, table.score = .ok (breakdown, log)) ↔ table.Scorable) ∧
    (¬ table.Scorable → table.score = .error .addition) ∧
    (∀ most : Nat,
      (∀ card ∈ table.baseCards, card.base.toInt.natAbs ≤ most) →
      (∀ effect ∈ table.effects,
        IsScore (effect.targets.length * most : Nat)) →
      ∃ breakdown log, table.score = .ok (breakdown, log)) ∧
    ((∀ card ∈ table.baseCards, 0 ≤ card.base.toInt) →
      ((∃ breakdown log, table.score = .ok (breakdown, log)) ↔
        ∀ bound ∈ table.boundSteps, bound.step.scope = .final →
          bound.step.action = .addTargetBase →
          table.baseSum bound.choice.targets ≤ Int64.maxValue.toInt)) := by
  have hanswers :
      (∃ breakdown log, table.score = .ok (breakdown, log)) ↔
        table.Scorable := by
    constructor
    · rintro ⟨breakdown, log, hscore⟩
      exact (scorable_of_score hscore).1
    · intro hscorable
      exact ⟨_, hscorable.score⟩
  refine ⟨hanswers, ?_, ?_, ?_⟩
  · intro hlarge
    rcases table.score_cases with ⟨hscorable, -⟩ | ⟨-, herror⟩
    · exact absurd hscorable hlarge
    · exact herror
  · intro most hmost hfits
    rw [hanswers]
    intro bound hbound _ _
    obtain ⟨effect, heffect, hstep⟩ := List.mem_flatMap.mp hbound
    obtain ⟨step, -, rfl⟩ := List.mem_map.mp hstep
    exact sumsUp_of_bounded hmost (hfits effect heffect)
  · intro hcards
    rw [hanswers]
    simp only [Scorable, sumsUp_iff_of_nonneg hcards]

/-- An effect that adds up the base scores of three targets, with these cards in the
discard pile. -/
def addingUp (cards : List Card) : Table where
  effects := [{
    play := ⟨0⟩
    script := {
      id := ⟨0⟩
      name := "Recount"
      steps := [{ scope := .final, action := .addTargetBase }] }
    choice := { targets := [⟨1⟩, ⟨2⟩, ⟨3⟩] } }]
  discard := cards

def brimful : Table :=
  addingUp [⟨⟨1⟩, "Roxy", .goth, Int64.maxValue⟩, ⟨⟨2⟩, "Mia", .alt, 1⟩,
    ⟨⟨3⟩, "Zoe", .alt, -1⟩]

/-- Small scores and a target that lies nowhere. -/
theorem score_answers_iff_smallScores : ∃ breakdown log,
    (addingUp [⟨⟨2⟩, "Mia", .alt, 4⟩, ⟨⟨3⟩, "Zoe", .alt, -1⟩]).score =
      .ok (breakdown, log) :=
  (score_answers_iff _).2.2.1 4 (by decide) (by decide)

/-- All three base scores together fit their word, but the first two do not. -/
theorem not_score_answers :
    ¬ ∀ table : Table,
      ∃ breakdown log, table.score = .ok (breakdown, log) := by
  intro hanswers
  obtain ⟨breakdown, log, hscore⟩ := hanswers brimful
  have herror : brimful.score = .error .addition := by decide +kernel
  cases hscore.symm.trans herror

end Table

end Tableau
