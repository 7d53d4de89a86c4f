import Mathlib.Data.List.Induction
import Mathlib.Data.List.Basic
import Tableau.CarryOver

/-!
What effects promise together.  Amounts are added up and multiplied in the order of
the effects, a card is listed for replay once, where it is first named, and the
multipliers of one card compound, once for every time that it is a target.  Main
statement: `collect_total`.
-/

namespace Tableau

/-- The elements of a list without repeats, in the order of their first
occurrences. -/
structure ListsOnce {α : Type} [DecidableEq α] (once all : List α) : Prop where
  nodup : once.Nodup
  mem_iff : ∀ x, x ∈ once ↔ x ∈ all
  ordered : once.Pairwise fun left right => all.idxOf left < all.idxOf right

/-- The product of some amounts from left to right, if there are any. -/
def Amount.product? : List Amount → Option Amount
  | [] => none
  | factors => some (factors.foldl (fun product factor => product * factor) .one)

theorem Amount.product?_isSome_iff {factors : List Amount} :
    (product? factors).isSome ↔ factors ≠ [] := by
  cases factors <;> simp [product?]

theorem Amount.product?_concat (factors : List Amount) (last : Amount) :
    product? (factors ++ [last]) =
      some ((product? factors).getD .one * last) := by
  cases factors with
  | nil => rfl
  | cons first rest =>
      rw [List.cons_append, product?, product?, ← List.cons_append,
        List.foldl_concat, Option.getD_some]
      all_goals simp

namespace Effect

def replays (effect : Effect) : List CardId :=
  if effect.script.promise.any Promise.replay then effect.targets else []

/-- The multipliers that the effect promises to a card, one for every time that the
card is a target. -/
def factors (id : CardId) (effect : Effect) : List Amount :=
  match effect.script.promise.bind Promise.targetMult with
  | none => []
  | some factor => List.replicate (effect.targets.count id) factor

end Effect

namespace CarryOver

variable {carry : CarryOver} {effects : List Effect}

def promises (effects : List Effect) : List Promise :=
  effects.filterMap fun effect => effect.script.promise

/-- The carry-over holds what the effects promise, and nothing else. -/
structure Gathers (effects : List Effect) (carry : CarryOver) : Prop where
  add : carry.add =
    (promises effects).foldl (fun sum promise => sum + promise.add) .zero
  mult : carry.mult =
    (promises effects).foldl (fun product promise => product * promise.mult) .one
  replays : ListsOnce carry.replays (effects.flatMap Effect.replays)
  cardMults : ∀ id, carry.cardMult? id =
    Amount.product? (effects.flatMap (Effect.factors id))
  openCards : carry.openCards = (promises effects).any Promise.openCards

end CarryOver

namespace ListsOnce

variable {once all : List CardId}

theorem addReplay (hlists : ListsOnce once all) (id : CardId) :
    ListsOnce (CarryOver.addReplay once id) (all ++ [id]) := by
  have hindex {other : CardId} (hother : other ∈ once) :
      (all ++ [id]).idxOf other = all.idxOf other :=
    List.idxOf_append_of_mem ((hlists.mem_iff other).mp hother)
  have hordered : once.Pairwise fun left right =>
      (all ++ [id]).idxOf left < (all ++ [id]).idxOf right := by
    refine hlists.ordered.imp_of_mem ?_
    intro left right hleft hright hlt
    rwa [hindex hleft, hindex hright]
  by_cases hlisted : id ∈ once
  · have hold : CarryOver.addReplay once id = once := by
      simp [CarryOver.addReplay, hlisted]
    rw [hold]
    refine ⟨hlists.nodup, fun other => ?_, hordered⟩
    rw [List.mem_append, List.mem_singleton, hlists.mem_iff]
    constructor
    · exact .inl
    · rintro (hother | rfl)
      · exact hother
      · exact (hlists.mem_iff _).mp hlisted
  · have hnew : CarryOver.addReplay once id = once ++ [id] := by
      simp [CarryOver.addReplay, hlisted]
    have hlast : (all ++ [id]).idxOf id = all.length := by
      rw [List.idxOf_append_of_notMem (mt (hlists.mem_iff id).mpr hlisted)]
      simp
    rw [hnew]
    refine ⟨?_, fun other => by simp [hlists.mem_iff], ?_⟩
    · refine List.nodup_append.mpr ⟨hlists.nodup, by simp, ?_⟩
      intro left hleft right hright heq
      exact hlisted (List.mem_singleton.mp hright ▸ heq ▸ hleft)
    · refine List.pairwise_append.mpr ⟨hordered, List.pairwise_singleton _ id, ?_⟩
      intro left hleft right hright
      rw [List.mem_singleton.mp hright, hlast, hindex hleft]
      exact List.idxOf_lt_length_of_mem ((hlists.mem_iff left).mp hleft)

theorem foldl_addReplay (hlists : ListsOnce once all)
    (ids : List CardId) :
    ListsOnce (ids.foldl CarryOver.addReplay once) (all ++ ids) := by
  induction ids generalizing once all with
  | nil => simpa using hlists
  | cons id rest ih => simpa using ih (hlists.addReplay id)

end ListsOnce

namespace CarryOver

variable {carry : CarryOver} {effects others : List Effect}

theorem get?_foldl_compound {mults : FinMap CardId Amount} {factor : Amount}
    {earlier : CardId → List Amount}
    (hmults : ∀ id, mults.get? id = Amount.product? (earlier id))
    (targets : List CardId) (id : CardId) :
    (targets.foldl (compound factor) mults).get? id =
      Amount.product? (earlier id ++ List.replicate (targets.count id) factor) := by
  induction targets generalizing mults earlier with
  | nil => simpa using hmults id
  | cons target rest ih =>
      have hstep (other : CardId) : (compound factor mults target).get? other =
          Amount.product? (earlier other ++
            List.replicate ([target].count other) factor) := by
        rw [compound, FinMap.get?_insert_key, hmults target]
        by_cases heq : other = target
        · simp [heq, Amount.product?_concat]
        · simp [heq, Ne.symm heq, hmults other]
      rw [List.foldl_cons, ih hstep, List.append_assoc,
        List.replicate_append_replicate, ← List.count_append,
        List.singleton_append]

/-- Taking in one more effect takes in all that it promises. -/
theorem Gathers.gather (hgathers : Gathers effects carry) (effect : Effect) :
    Gathers (effects ++ [effect]) (carry.gather effect) := by
  obtain ⟨hadd, hmult, hreplays, hmults, hopen⟩ := hgathers
  cases hpromise : effect.script.promise with
  | none =>
      simp only [CarryOver.gather, hpromise]
      constructor <;> simp_all [promises, Effect.replays, Effect.factors]
  | some promise =>
      simp only [CarryOver.gather, hpromise]
      have hpromises : promises (effects ++ [effect]) =
          promises effects ++ [promise] := by
        simp [promises, hpromise]
      constructor
      · rw [hpromises, List.foldl_concat, hadd]
      · rw [hpromises, List.foldl_concat, hmult]
      · rw [List.flatMap_append, List.flatMap_singleton, Effect.replays, hpromise,
          Option.any_some]
        by_cases hreplay : promise.replay
        · simpa [hreplay] using hreplays.foldl_addReplay effect.targets
        · simpa [hreplay] using hreplays
      · intro id
        rw [List.flatMap_append, List.flatMap_singleton, Effect.factors, hpromise,
          Option.bind_some]
        cases hfactor : promise.targetMult with
        | none => exact (List.append_nil _).symm ▸ hmults id
        | some factor => exact get?_foldl_compound hmults effect.targets id
      · rw [hpromises, List.any_append, List.any_cons, List.any_nil,
          Bool.or_false, hopen]

theorem total_gathers (effects : List Effect) :
    Gathers effects (total effects) := by
  induction effects using List.reverseRecOn with
  | nil =>
      constructor
      · rfl
      · rfl
      · exact ⟨.nil, by simp [total], .nil⟩
      · exact fun id => rfl
      · rfl
  | append_singleton effects last ih =>
      rw [total, List.foldl_concat]
      exact ih.gather last

/-- A card has a multiplier exactly if it is a target of an effect that promises one
to its targets. -/
theorem Gathers.cardMult?_isSome_iff (hgathers : Gathers effects carry)
    {id : CardId} : (carry.cardMult? id).isSome ↔ ∃ effect ∈ effects,
      ∃ promise, effect.script.promise = some promise ∧
        promise.targetMult.isSome ∧ id ∈ effect.targets := by
  rw [hgathers.cardMults, Amount.product?_isSome_iff, ne_eq,
    List.flatMap_eq_nil_iff]
  push Not
  refine exists_congr fun effect => and_congr_right fun _ => ?_
  unfold Effect.factors
  cases effect.script.promise with
  | none => simp
  | some promise =>
      cases hfactor : promise.targetMult <;>
        simp [hfactor, List.count_eq_zero]

theorem Gathers.mem_replays_iff (hgathers : Gathers effects carry)
    {id : CardId} : id ∈ carry.replays ↔ ∃ effect ∈ effects,
      ∃ promise, effect.script.promise = some promise ∧
        promise.replay = true ∧ id ∈ effect.targets := by
  rw [hgathers.replays.mem_iff, List.mem_flatMap]
  refine exists_congr fun effect => and_congr_right fun _ => ?_
  unfold Effect.replays
  cases effect.script.promise with
  | none => simp
  | some promise => cases hreplay : promise.replay <;> simp [hreplay]

/-- The effects carry over what they promise, and nothing if that changes nothing.
Which cards can be replayed, which cards have a multiplier and whether all cards are
free does not depend on the order of the effects. -/
theorem collect_total (effects : List Effect) :
    Gathers effects (total effects) ∧
    (∀ id, ((total effects).cardMult? id).isSome ↔ ∃ effect ∈ effects,
      ∃ promise, effect.script.promise = some promise ∧
        promise.targetMult.isSome ∧ id ∈ effect.targets) ∧
    (collect effects = none ↔
      ((total effects).add = .zero ∨ (total effects).add = .emptySum) ∧
      (total effects).mult = .one ∧ (total effects).replays = [] ∧
      (total effects).cardMults = .empty ∧
      (total effects).openCards = false) ∧
    (∀ carry, collect effects = some carry ↔
      carry = total effects ∧ carry.isIdentity = false) ∧
    ∀ others, effects.Perm others →
      (∀ id, id ∈ (total others).replays ↔ id ∈ (total effects).replays) ∧
      (∀ id, ((total others).cardMult? id).isSome ↔
        ((total effects).cardMult? id).isSome) ∧
      (total others).openCards = (total effects).openCards := by
  have hgathers := total_gathers effects
  refine ⟨hgathers, fun id => hgathers.cardMult?_isSome_iff, ?_, ?_, ?_⟩
  · rw [collect, ite_eq_left_iff]
    simp [isIdentity_iff, Amount.isZero_iff, Amount.isOne_iff]
  · intro carry
    rw [collect, ite_eq_iff]
    constructor
    · rintro (⟨-, ⟨⟩⟩ | ⟨hchanges, ⟨⟩⟩)
      exact ⟨rfl, by simpa using hchanges⟩
    · rintro ⟨rfl, hchanges⟩
      exact .inr ⟨by simpa using hchanges, rfl⟩
  · intro others hperm
    have hothers := total_gathers others
    refine ⟨fun id => ?_, fun id => ?_, ?_⟩
    · simp only [hothers.mem_replays_iff, hgathers.mem_replays_iff, hperm.mem_iff]
    · simp only [hothers.cardMult?_isSome_iff, hgathers.cardMult?_isSome_iff,
        hperm.mem_iff]
    · rw [hothers.openCards, hgathers.openCards]
      exact (hperm.filterMap _).symm.any_eq

def pledge (factor : Nat) (replay : Bool) (targets : List UInt32) : Effect :=
  let promise := { targetMult := some (.ofNat factor), replay }
  { play := ⟨0⟩
    script := { id := ⟨0⟩, name := "Pledge", promise := some promise }
    choice := { targets := targets.map CardId.mk } }

def pledges : List Effect :=
  [pledge 2 true [4, 2], pledge 3 true [7, 2, 7], pledge 5 false [9]]

/-- The multipliers of the card that is a target twice compound; in the other order
the same cards are listed for replay, but differently. -/
theorem collect_total_pledges : ∃ carry, collect pledges = some carry ∧
    carry.replays = [⟨4⟩, ⟨2⟩, ⟨7⟩] ∧
    carry.cardMult? ⟨7⟩ = some (.ofNat 9) ∧
    carry.cardMult? ⟨2⟩ = some (.ofNat 6) ∧ carry.isIdentity = false ∧
    pledges.Perm pledges.reverse ∧
    (total pledges.reverse).replays = [⟨7⟩, ⟨2⟩, ⟨4⟩] ∧
    ∀ id, id ∈ (total pledges.reverse).replays ↔ id ∈ carry.replays := by
  obtain ⟨hgathers, -, -, hsome, horder⟩ := collect_total pledges
  have hcollect : collect pledges = some (total pledges) :=
    (hsome _).mpr ⟨rfl, by decide +kernel⟩
  have hperm : pledges.Perm pledges.reverse := pledges.reverse_perm.symm
  refine ⟨_, hcollect, by decide +kernel, ?_, ?_, ((hsome _).mp hcollect).2,
    hperm, by decide +kernel, (horder _ hperm).1⟩
  · rw [hgathers.cardMults]
    decide +kernel
  · rw [hgathers.cardMults]
    decide +kernel

end CarryOver

end Tableau
