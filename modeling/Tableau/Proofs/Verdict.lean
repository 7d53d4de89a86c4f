import Tableau.Proofs.Availability
import Tableau.Proofs.LimitTotals
import Tableau.Proofs.Occupancy

/-!
The verdict on an effect that is to be played.  An effect in play that is checked
again is judged as if it was not there, and the order in which cards, effects and
names lie on the table only decides which obstacle is reported.  Main statements:
`recheck_eq_check` and `check_verdict`.
-/

namespace Tableau

section Slot

variable {script : Script} {rules : Rules} {table : Table}

/-- The verdict on a script that takes a slot while `used` general slots are in
use. -/
def Limits.slotVerdict (limits : Limits) (used : Nat) : Except Obstacle Unit :=
  if limits.openCards = true ∨ used < limits.cards.toNat then .ok ()
  else .error (.noCardSlot limits.cards)

theorem Limits.slotVerdict_eq_ok_iff {limits : Limits} {used : Nat} :
    limits.slotVerdict used = .ok () ↔
      limits.openCards = true ∨ used < limits.cards.toNat := by
  unfold slotVerdict
  split <;> simp [*]

theorem Limits.slotVerdict_toNat (limits : Limits) (used : UInt32) :
    limits.slotVerdict used.toNat =
      if !limits.openCards && limits.cards ≤ used then
        .error (.noCardSlot limits.cards)
      else .ok () := by
  simp only [slotVerdict, ← UInt32.lt_iff_toNat_lt]
  by_cases hopen : limits.openCards = true
  · simp [hopen]
  · by_cases hroom : used < limits.cards
    · simp [hopen, hroom]
    · simp [hopen, hroom, UInt32.not_lt.mp hroom]

/-- The slots in use can be counted, and an effect that is checked again gives up
one of them. -/
theorem Script.checkSlot_eq {others : List Effect} {again : Bool}
    (hsize : table.cards.length + table.effects.length < UInt32.size)
    (htakes : script.takesSlot = true) :
    script.checkSlot rules table others again =
      (Limits.resolve rules (others.map Effect.script) table.carry).map
        fun limits => limits.slotVerdict
          (limits.demand table - if again = true then 1 else 0) := by
  unfold checkSlot
  rw [if_pos htakes]
  cases Limits.resolve rules (others.map Effect.script) table.carry with
  | error cause => rfl
  | ok limits =>
      obtain ⟨occupied, hoccupied, hgeneral, -⟩ := limits.exists_occupancy hsize
      have hused : (if again && occupied.general != 0 then occupied.general - 1
          else occupied.general).toNat =
          limits.demand table - if again = true then 1 else 0 := by
        rw [← hgeneral]
        by_cases hzero : occupied.general = 0
        · simp [hzero]
        · have hone : (1 : UInt32) ≤ occupied.general := by
            rw [UInt32.le_iff_toNat_le, UInt32.toNat_one]
            refine Nat.pos_of_ne_zero fun hnone => hzero ?_
            exact UInt32.toNat_inj.mp hnone
          cases again <;> simp [hzero, UInt32.toNat_sub_of_le _ _ hone]
      simp only [Except.map]
      rw [← hused, Limits.slotVerdict_toNat]
      change (limits.occupancy table.cards table.effects >>= _) = _
      rw [hoccupied]
      exact (apply_ite Except.ok _ _ _).symm

end Slot

section Recheck

variable {rules : Rules} {table : Table} {effect : Effect}

theorem Limits.demand_erase (limits : Limits) (hmem : effect ∈ table.effects)
    (htakes : effect.script.takesSlot = true) :
    limits.demand { table with effects := table.effects.erase effect } =
      limits.demand table - 1 := by
  have hcount : table.effects.countP (fun other => other.script.takesSlot) =
      (table.effects.erase effect).countP (fun other => other.script.takesSlot) +
        1 := by
    rw [(List.perm_cons_erase hmem).countP_eq]
    exact List.countP_cons_of_pos htakes
  change limits.spill (table.slotted.map InPlay.card) + _ =
    limits.spill (table.slotted.map InPlay.card) + _ - 1
  rw [hcount]
  rfl

theorem filter_play_ne_eq_erase {effects : List Effect}
    (hnodup : (effects.map Effect.play).Nodup) (hmem : effect ∈ effects) :
    effects.filter (fun other => some other.play != some effect.play) =
      effects.erase effect := by
  have hsome : (effects.find? fun other => effect == other).isSome :=
    List.find?_isSome.mpr ⟨effect, hmem, beq_self_eq_true effect⟩
  obtain ⟨found, hfound⟩ := Option.isSome_iff_exists.mp hsome
  obtain rfl : effect = found := eq_of_beq (List.find?_some hfound)
  rw [List.erase_eq_eraseP, eraseP_eq_filter Effect.play hnodup hfound]
  rfl

theorem filter_play_ne_none (effects : List Effect) :
    effects.filter (fun other => some other.play != none) = effects :=
  List.filter_eq_self.mpr fun _ _ => rfl

/-- An effect in play finds at its slot what its script would find if the effect
was not there. -/
theorem checkSlot_eq_of_mem (hmem : effect ∈ table.effects)
    (hsize : table.cards.length + table.effects.length < UInt32.size) :
    effect.script.checkSlot rules table (table.effects.erase effect) true =
      effect.script.checkSlot rules
        { table with effects := table.effects.erase effect }
        (table.effects.erase effect) false := by
  by_cases htakes : effect.script.takesSlot = true
  · have hrest : table.cards.length + (table.effects.erase effect).length <
        UInt32.size := by
      have hle := List.length_erase_le (a := effect) (l := table.effects)
      omega
    rw [Script.checkSlot_eq hsize htakes, Script.checkSlot_eq hrest htakes]
    simp only [Limits.demand_erase _ hmem htakes, if_true, Bool.false_eq_true,
      if_false, Nat.sub_zero]
  · rw [Script.checkSlot, Script.checkSlot, if_neg htakes, if_neg htakes]

theorem checkHurdle_eq_of_mem (hnodup : (table.effects.map Effect.play).Nodup)
    (hsize : table.cards.length + table.effects.length < UInt32.size)
    (hmem : effect ∈ table.effects) (hurdle : Hurdle) :
    effect.script.checkHurdle rules table (some effect.play) hurdle =
      effect.script.checkHurdle rules
        { table with effects := table.effects.erase effect } none hurdle := by
  have hothers := filter_play_ne_eq_erase hnodup hmem
  cases hurdle with
  | requirement requirement => cases requirement <;> rfl
  | cap => simp only [Script.checkHurdle, hothers, filter_play_ne_none]
  | suits => rfl
  | slot =>
      have hagain : (table.effectAt? effect.play).isSome = true :=
        List.find?_isSome.mpr ⟨effect, hmem, beq_self_eq_true _⟩
      simp only [Script.checkHurdle, hothers, filter_play_ne_none,
        Option.any_some, Option.any_none, hagain]
      exact checkSlot_eq_of_mem hmem hsize
  | targets => rfl

theorem checkHurdle_eq_of_forall_ne {script : Script} {play : PlayId}
    (hother : ∀ other ∈ table.effects, other.play ≠ play) (hurdle : Hurdle) :
    script.checkHurdle rules table (some play) hurdle =
      script.checkHurdle rules table none hurdle := by
  have hothers : table.effects.filter (fun other => some other.play != some play) =
      table.effects := by
    rw [List.filter_eq_self]
    simpa using hother
  have hagain : (table.effectAt? play).isSome = false := by
    simpa [Table.effectAt?] using hother
  cases hurdle with
  | cap => simp only [Script.checkHurdle, hothers, filter_play_ne_none]
  | slot =>
      simp only [Script.checkHurdle, hothers, filter_play_ne_none,
        Option.any_some, Option.any_none, hagain]
  | _ => rfl

/-- An effect in play that is checked again gets the verdict that its script would
get if the effect was not there, and an effect that is not in play the one that its
script gets now. -/
theorem recheck_eq_check (rules : Rules) (table : Table) (effect : Effect) :
    ((table.effects.map Effect.play).Nodup →
      table.cards.length + table.effects.length < UInt32.size →
      effect ∈ table.effects →
      effect.recheck rules table = effect.script.check rules
        { table with effects := table.effects.erase effect }) ∧
    ((∀ other ∈ table.effects, other.play ≠ effect.play) →
      effect.recheck rules table = effect.script.check rules table) := by
  unfold Effect.recheck Script.check
  simp only [Script.checkWithout_eq_checkAll]
  refine ⟨fun hnodup hsize hmem => ?_, fun hother => ?_⟩
  · rw [funext (checkHurdle_eq_of_mem hnodup hsize hmem)]
  · rw [funext (checkHurdle_eq_of_forall_ne hother)]

def fullTable : Table :=
  { cards := [⟨⟨2⟩, ⟨⟨1⟩, "Roxy", .goth, 3⟩, false⟩]
    effects :=
      [.bind ⟨0⟩ { id := ⟨1⟩, name := "Guest", limits := [.takesSlot] } {},
        .bind ⟨1⟩ { id := ⟨2⟩, name := "Crowd"
                    limits := [.extraPlays 1 0, .takesSlot] } {}] }

/-- The second one, checked again, misses the slot that it adds itself, just as it
would if it was played now; and so does a third one that is not in play. -/
theorem recheck_eq_check_fullTable :
    ∃ crowd ∈ fullTable.effects, ∃ guest : Effect,
      crowd.recheck {} fullTable = crowd.script.check {}
        { fullTable with effects := fullTable.effects.erase crowd } ∧
      crowd.recheck {} fullTable = .ok (.error (.noCardSlot 2)) ∧
      guest.recheck {} fullTable = guest.script.check {} fullTable ∧
      guest.recheck {} fullTable = .ok (.error (.noCardSlot 3)) := by
  refine ⟨.bind ⟨1⟩ { id := ⟨2⟩, name := "Crowd"
                      limits := [.extraPlays 1 0, .takesSlot] } {}, by decide,
    .bind ⟨3⟩ { id := ⟨1⟩, name := "Guest", limits := [.takesSlot] } {}, ?_, rfl,
    ?_, rfl⟩
  · exact (recheck_eq_check _ _ _).1 (by decide) (by decide) (by decide)
  · exact (recheck_eq_check _ _ _).2 (by decide)

end Recheck

namespace TargetRule

variable {rule : TargetRule} {table other : Table}

theorem yield_perm {cards more : List Card} (hperm : cards.Perm more) :
    rule.yield cards = rule.yield more := by
  have hsuits : distinctSuits (cards.map Card.suit) =
      distinctSuits (more.map Card.suit) := by
    refine List.filter_congr fun suit _ => ?_
    rw [Bool.eq_iff_iff, List.contains_iff_mem, List.contains_iff_mem,
      (hperm.map Card.suit).mem_iff]
  rw [yield, yield, hsuits, hperm.length_eq]

end TargetRule

theorem LimitRule.onlySuits_eq_nil_iff {all : List LimitRule} :
    all.filterMap onlySuit? = [] ↔ ∀ suit, onlySuit suit ∉ all := by
  rw [List.filterMap_eq_nil_iff]
  constructor
  · intro hnone suit hmem
    cases hnone _ hmem
  · intro hnone rule hmem
    cases rule with
    | onlySuit suit => exact absurd hmem (hnone suit)
    | _ => rfl

namespace Script

variable {script : Script} {rules : Rules} {table : Table}

theorem checkCap_eq_ok_iff {others : List Effect}
    (hsize : others.length < UInt32.size) :
    script.checkCap others = .ok () ↔
      ∀ most, .effectCap most ∈ script.limits → others.length < most.toNat := by
  have hcount : (UInt32.ofNat others.length).toNat = others.length :=
    UInt32.toNat_ofNat_of_lt hsize
  unfold checkCap
  cases hcap : script.effectCap with
  | none =>
      have hnone := effectCap_eq_none_iff.mp hcap
      simp [hnone]
  | some cap =>
      obtain ⟨hmem, hleast⟩ := effectCap_eq_some_iff.mp hcap
      simp only [UInt32.le_iff_toNat_le, hcount] at hleast ⊢
      split
      · rename_i hreached
        simp only [reduceCtorEq, false_iff]
        exact fun hall => Nat.not_le.mpr (hall cap hmem) hreached
      · rename_i hfree
        simp only [true_iff]
        intro most hmost
        exact Nat.lt_of_lt_of_le (Nat.not_le.mp hfree) (hleast most hmost)

/-- The last suit restriction among the rules of the script. -/
def RestrictsTo (script : Script) (allowed : Suit) : Prop :=
  ∃ earlier later, script.limits = earlier ++ .onlySuit allowed :: later ∧
    ∀ suit, .onlySuit suit ∉ later

theorem onlySuit_eq_some_iff {allowed : Suit} :
    script.onlySuit = some allowed ↔ script.RestrictsTo allowed := by
  rw [onlySuit, List.getLast?_eq_some_iff]
  constructor
  · rintro ⟨before, hsplit⟩
    obtain ⟨front, back, hlimits, -, hback⟩ :=
      List.filterMap_eq_append_iff.mp hsplit
    obtain ⟨between, rule, later, rfl, -, hrule, hlater⟩ :=
      List.filterMap_eq_cons_iff.mp hback
    cases rule <;> cases hrule
    exact ⟨front ++ between, later, by rw [hlimits, List.append_assoc],
      LimitRule.onlySuits_eq_nil_iff.mp hlater⟩
  · rintro ⟨earlier, later, hlimits, hlater⟩
    refine ⟨earlier.filterMap LimitRule.onlySuit?, ?_⟩
    rw [hlimits, List.filterMap_append, List.filterMap_cons,
      LimitRule.onlySuits_eq_nil_iff.mpr hlater]
    rfl

theorem takesSlot_iff :
    script.takesSlot = true ↔ .takesSlot ∈ script.limits :=
  List.contains_iff_mem

theorem checkTargets_eq_ok_iff : script.checkTargets table = .ok () ↔
    (script.target.zone ≠ .deck →
      script.target.least ≤ script.target.yield (script.target.candidates table)) := by
  unfold checkTargets
  by_cases hzone : script.target.zone = .deck
  · simp [TargetRule.hasEnough, hzone]
  · rw [← TargetRule.hasEnough_iff hzone]
    simp [hzone]

/-- The script clears the hurdle on the table as it lies. -/
def Clears (script : Script) (rules : Rules) (table : Table) : Hurdle → Prop
  | .requirement requirement => requirement.Met table
  | .cap => ∀ most, .effectCap most ∈ script.limits →
      table.effects.length < most.toNat
  | .suits => ∀ allowed, script.RestrictsTo allowed →
      ∀ seat ∈ table.cards, seat.card.suit = allowed
  | .slot => .takesSlot ∈ script.limits →
      ∃ limits, Limits.ofTable rules table = .ok limits ∧
        (limits.openCards = true ∨ limits.demand table < limits.cards.toNat)
  | .targets => script.target.zone ≠ .deck → script.target.least ≤
      script.target.yield (script.target.candidates table)

/-- The hurdle is the first one that the script does not clear. -/
def FailsFirst (script : Script) (rules : Rules) (table : Table)
    (hurdle : Hurdle) : Prop :=
  ∃ cleared rest, script.hurdles = cleared ++ hurdle :: rest ∧
    (∀ earlier ∈ cleared, script.Clears rules table earlier) ∧
    ¬ script.Clears rules table hurdle

theorem checkSlot_eq_verdict
    (hsize : table.cards.length + table.effects.length < UInt32.size)
    (htakes : script.takesSlot = true) :
    script.checkSlot rules table table.effects false =
      (Limits.ofTable rules table).map fun limits =>
        limits.slotVerdict (limits.demand table) := by
  rw [checkSlot_eq hsize htakes]
  rfl

/-- The check at a hurdle is passed exactly if the script clears it. -/
theorem checkHurdle_eq_ok_iff
    (hsize : table.cards.length + table.effects.length < UInt32.size)
    {hurdle : Hurdle} :
    script.checkHurdle rules table none hurdle = .ok (.ok ()) ↔
      script.Clears rules table hurdle := by
  cases hurdle with
  | requirement requirement =>
      rw [checkHurdle, Except.ok.injEq]
      exact Requirement.check_eq_ok_iff
  | cap =>
      rw [checkHurdle, Except.ok.injEq, filter_play_ne_none]
      exact checkCap_eq_ok_iff (by omega)
  | suits =>
      rw [checkHurdle, Except.ok.injEq, checkSuits_eq_ok_iff]
      simp only [onlySuit_eq_some_iff, Clears]
  | slot =>
      rw [checkHurdle, filter_play_ne_none, Option.any_none, Clears,
        ← takesSlot_iff]
      by_cases htakes : script.takesSlot = true
      · rw [checkSlot_eq_verdict hsize htakes]
        cases Limits.ofTable rules table with
        | error cause => simp [Except.map, htakes]
        | ok limits =>
            simp [Except.map, htakes, Limits.slotVerdict_eq_ok_iff]
      · simp [checkSlot, htakes, pure_eq_ok_iff]
  | targets =>
      rw [checkHurdle, Except.ok.injEq]
      exact checkTargets_eq_ok_iff

/-- Only the check for a slot breaks off, if the limits cannot be summed up. -/
theorem checkHurdle_eq_error_iff
    (hsize : table.cards.length + table.effects.length < UInt32.size)
    {hurdle : Hurdle} {cause : Overflow} :
    script.checkHurdle rules table none hurdle = .error cause ↔
      hurdle = .slot ∧ script.takesSlot = true ∧
        Limits.ofTable rules table = .error cause := by
  cases hurdle with
  | slot =>
      rw [checkHurdle, filter_play_ne_none, Option.any_none]
      by_cases htakes : script.takesSlot = true
      · rw [checkSlot_eq_verdict hsize htakes]
        cases Limits.ofTable rules table with
        | error cause => simp [Except.map, htakes]
        | ok limits => simp [Except.map]
      · simp [checkSlot, htakes, pure, Except.pure]
  | _ => simp [checkHurdle]

/-- The first hurdle that is not cleared decides. -/
theorem check_of_failsFirst
    (hsize : table.cards.length + table.effects.length < UInt32.size)
    {hurdle : Hurdle} (hfails : script.FailsFirst rules table hurdle) :
    script.check rules table = script.checkHurdle rules table none hurdle := by
  obtain ⟨cleared, rest, hhurdles, hcleared, hnot⟩ := hfails
  have hpassed : ∀ earlier ∈ cleared,
      script.checkHurdle rules table none earlier = .ok (.ok ()) :=
    fun earlier hmem => (checkHurdle_eq_ok_iff hsize).mpr (hcleared earlier hmem)
  rw [check, checkWithout_eq_checkAll, hhurdles,
    Hurdle.checkAll_append_of_ok hpassed,
    Hurdle.checkAll_cons_of_ne_ok (mt (checkHurdle_eq_ok_iff hsize).mp hnot)]

theorem exists_failsFirst
    (hsize : table.cards.length + table.effects.length < UInt32.size)
    (hcheck : script.check rules table ≠ .ok (.ok ())) :
    ∃ hurdle, script.FailsFirst rules table hurdle := by
  rw [check, checkWithout_eq_checkAll] at hcheck
  obtain ⟨cleared, hurdle, rest, hhurdles, hcleared, hstops, -⟩ :=
    Hurdle.exists_of_checkAll_ne_ok hcheck
  exact ⟨hurdle, cleared, rest, hhurdles,
    fun earlier hmem => (checkHurdle_eq_ok_iff hsize).mp (hcleared earlier hmem),
    mt (checkHurdle_eq_ok_iff hsize).mpr hstops⟩

theorem check_eq_ok_iff
    (hsize : table.cards.length + table.effects.length < UInt32.size) :
    script.check rules table = .ok (.ok ()) ↔
      ∀ hurdle ∈ script.hurdles, script.Clears rules table hurdle := by
  rw [check, checkWithout_eq_checkAll, Hurdle.checkAll_eq_ok_iff]
  simp only [checkHurdle_eq_ok_iff hsize]

theorem check_eq_error_iff
    (hsize : table.cards.length + table.effects.length < UInt32.size)
    {cause : Overflow} :
    script.check rules table = .error cause ↔
      script.FailsFirst rules table .slot ∧
        Limits.ofTable rules table = .error cause := by
  constructor
  · intro hbreaks
    obtain ⟨hurdle, hfails⟩ := exists_failsFirst hsize (by rw [hbreaks]; simp)
    have hcheck := check_of_failsFirst hsize hfails
    rw [hbreaks, eq_comm, checkHurdle_eq_error_iff hsize] at hcheck
    obtain ⟨rfl, -, hlimits⟩ := hcheck
    exact ⟨hfails, hlimits⟩
  · rintro ⟨hfails, hlimits⟩
    have htakes : script.takesSlot = true := by
      obtain ⟨-, -, -, -, hnot⟩ := hfails
      by_contra hfree
      exact hnot fun htakes => absurd (takesSlot_iff.mpr htakes) hfree
    rw [check_of_failsFirst hsize hfails]
    exact (checkHurdle_eq_error_iff hsize).mpr ⟨rfl, htakes, hlimits⟩

theorem mem_orderedRequirements {requirement : Requirement} :
    requirement ∈ script.orderedRequirements ↔ requirement ∈ script.requires := by
  rw [orderedRequirements, List.mem_append, List.mem_filter, List.mem_filter]
  cases requirement.isBespoke <;> simp

theorem hurdles_eq (script : Script) :
    script.hurdles = script.orderedRequirements.map .requirement ++
      [.cap, .suits, .slot, .targets] := by
  rw [hurdles, orderedRequirements, List.map_append]

theorem forall_hurdles_iff {holds : Hurdle → Prop} :
    (∀ hurdle ∈ script.hurdles, holds hurdle) ↔
      (∀ requirement ∈ script.requires, holds (.requirement requirement)) ∧
        holds .cap ∧ holds .suits ∧ holds .slot ∧ holds .targets := by
  rw [hurdles_eq, List.forall_mem_append, List.forall_mem_map]
  simp only [mem_orderedRequirements, List.forall_mem_cons]
  simp

theorem failsFirst_slot_iff :
    script.FailsFirst rules table .slot ↔
      (∀ requirement ∈ script.requires, requirement.Met table) ∧
        script.Clears rules table .cap ∧ script.Clears rules table .suits ∧
        ¬ script.Clears rules table .slot := by
  let front := script.orderedRequirements.map .requirement ++
    [Hurdle.cap, .suits]
  have hhurdles : script.hurdles = front ++ .slot :: [.targets] := by
    rw [hurdles_eq, List.append_assoc]
    rfl
  have hfront : (∀ hurdle ∈ front, script.Clears rules table hurdle) ↔
      (∀ requirement ∈ script.requires, requirement.Met table) ∧
        script.Clears rules table .cap ∧ script.Clears rules table .suits := by
    rw [List.forall_mem_append, List.forall_mem_map]
    simp only [mem_orderedRequirements, List.forall_mem_cons]
    simp [Clears]
  constructor
  · rintro ⟨cleared, rest, hsplit, hcleared, hnot⟩
    -- There is only one hurdle of this kind.
    have hbefore : Hurdle.slot ∉ front := by simp [front]
    obtain ⟨rfl, -, -⟩ := (List.append_cons_inj_of_notMem hbefore (by simp)).mp
      (hhurdles.symm.trans hsplit)
    obtain ⟨hrequires, hcap, hsuits⟩ := hfront.mp hcleared
    exact ⟨hrequires, hcap, hsuits, hnot⟩
  · rintro ⟨hrequires, hcap, hsuits, hnot⟩
    exact ⟨front, [.targets], hhurdles,
      hfront.mpr ⟨hrequires, hcap, hsuits⟩, hnot⟩

end Script

/-- The same table with its cards, effects and names in another order. -/
structure Table.Rearranged (table other : Table) : Prop where
  cards : other.cards.Perm table.cards
  effects : other.effects.Perm table.effects
  discard : other.discard.Perm table.discard
  history : other.history.Perm table.history
  frame : other = { table with
    cards := other.cards, effects := other.effects
    discard := other.discard, history := other.history }

section Rearranged

variable {rules : Rules} {table other : Table}

theorem Requirement.met_rearranged (hother : table.Rearranged other)
    (requirement : Requirement) :
    requirement.Met other ↔ requirement.Met table := by
  cases requirement with
  | soleCard name =>
      have hsole (seat : InPlay) : other.cards = [seat] ↔ table.cards = [seat] := by
        rw [← List.perm_singleton, ← List.perm_singleton]
        exact ⟨hother.cards.symm.trans, hother.cards.trans⟩
      simp only [Met, hsole]
  | discardCount suit least =>
      rw [Met, Met, Table.discardCount, Table.discardCount,
        hother.discard.countP_eq]
  | historyStart start => simp only [Met, hother.history.mem_iff]
  | _ => simp only [Met, hother.discard.mem_iff]

/-- The limits but for the suit restriction do not depend on the order of the
effects. -/
theorem Limits.ofTable_rearranged (rules : Rules)
    (hother : table.Rearranged other) :
    (ofTable rules other).map anySuit = (ofTable rules table).map anySuit := by
  have hcarry : other.carry = table.carry := by rw [hother.frame]
  have hperm : (table.scripts.flatMap Script.limits).Perm
      (other.scripts.flatMap Script.limits) :=
    (hother.effects.symm.map Effect.script).flatMap_right _
  rw [ofTable, ofTable, hcarry]
  rcases resolve_cases rules table.scripts table.carry with
    ⟨hfits, limits, hlimits, htotals⟩ | ⟨hexceeded, hbreaks⟩
  · rcases resolve_cases rules other.scripts table.carry with
      ⟨-, wider, hwider, hsame⟩ | ⟨hexceeded, -⟩
    · rw [hlimits, hwider]
      exact congrArg Except.ok (htotals.anySuit_eq hsame hperm)
    · exact absurd (hexceeded.perm hperm.symm) hfits
  · rcases resolve_cases rules other.scripts table.carry with
      ⟨hfits, -⟩ | ⟨-, hother⟩
    · exact absurd (hexceeded.perm hperm) hfits
    · rw [hbreaks, hother]

/-- Whether a general slot is left does not depend on the order either. -/
theorem Limits.room_rearranged (hother : table.Rearranged other) :
    (∃ limits, ofTable rules other = .ok limits ∧
      (limits.openCards = true ∨ limits.demand other < limits.cards.toNat)) ↔
    ∃ limits, ofTable rules table = .ok limits ∧
      (limits.openCards = true ∨ limits.demand table < limits.cards.toNat) := by
  have hlimits := ofTable_rearranged rules hother
  cases hafter : ofTable rules other with
  | error cause =>
      cases hbefore : ofTable rules table with
      | error cause => simp
      | ok limits => simp [hafter, hbefore, Except.map] at hlimits
  | ok wider =>
      cases hbefore : ofTable rules table with
      | error cause => simp [hafter, hbefore, Except.map] at hlimits
      | ok limits =>
          rw [hafter, hbefore] at hlimits
          have hsame : wider.anySuit = limits.anySuit := Except.ok.inj hlimits
          simp only [Except.ok.injEq, exists_eq_left',
            wider.demand_perm hother.cards hother.effects]
          -- The suit restriction plays no part.
          change wider.anySuit.openCards = true ∨
            wider.anySuit.demand table < wider.anySuit.cards.toNat ↔ _
          rw [hsame]
          rfl

theorem Script.clears_rearranged {script : Script} (requires : List Requirement)
    (hother : table.Rearranged other) (hurdle : Hurdle) :
    { script with requires }.Clears rules other hurdle ↔
      script.Clears rules table hurdle := by
  cases hurdle with
  | requirement requirement => exact requirement.met_rearranged hother
  | cap => simp only [Clears, hother.effects.length_eq]
  | suits =>
      change (∀ allowed, script.RestrictsTo allowed → _) ↔ _
      simp only [Clears, hother.cards.mem_iff]
  | slot => exact imp_congr_right fun _ => Limits.room_rearranged hother
  | targets =>
      have hcandidates : (script.target.candidates other).Perm
          (script.target.candidates table) := by
        refine List.Perm.filter _ ?_
        cases script.target.zone with
        | play => exact hother.cards.map InPlay.card
        | deck =>
            rw [hother.frame]
            exact List.Perm.refl _
        | discard => exact hother.discard
      simp only [Clears, TargetRule.yield_perm hcandidates]

theorem Limits.ofTable_eq_error_rearranged (hother : table.Rearranged other)
    {cause : Overflow} :
    ofTable rules other = .error cause ↔ ofTable rules table = .error cause := by
  have hlimits := ofTable_rearranged rules hother
  cases hafter : ofTable rules other <;> cases hbefore : ofTable rules table <;>
    simp_all [Except.map]

end Rearranged

namespace Script

variable {script : Script} {rules : Rules} {table : Table}

theorem check_eq_ok_rearranged {other : Table} {requires : List Requirement}
    (hsize : table.cards.length + table.effects.length < UInt32.size)
    (hrequires : requires.Perm script.requires) (hother : table.Rearranged other) :
    { script with requires }.check rules other = .ok (.ok ()) ↔
      script.check rules table = .ok (.ok ()) := by
  have hsame : other.cards.length + other.effects.length < UInt32.size := by
    rwa [hother.cards.length_eq, hother.effects.length_eq]
  rw [check_eq_ok_iff hsize, check_eq_ok_iff hsame, forall_hurdles_iff,
    forall_hurdles_iff]
  simp only [clears_rearranged requires hother, hrequires.mem_iff]

theorem check_eq_error_rearranged {other : Table} {requires : List Requirement}
    {cause : Overflow}
    (hsize : table.cards.length + table.effects.length < UInt32.size)
    (hrequires : requires.Perm script.requires) (hother : table.Rearranged other) :
    { script with requires }.check rules other = .error cause ↔
      script.check rules table = .error cause := by
  have hsame : other.cards.length + other.effects.length < UInt32.size := by
    rwa [hother.cards.length_eq, hother.effects.length_eq]
  rw [check_eq_error_iff hsize, check_eq_error_iff hsame, failsFirst_slot_iff,
    failsFirst_slot_iff]
  simp only [clears_rearranged requires hother, hrequires.mem_iff,
    Requirement.met_rearranged hother, Limits.ofTable_eq_error_rearranged hother]

/-- A script is accepted if it clears all hurdles; the check breaks off if the
first one that it does not clear is the slot, and the limits cannot be summed up;
and an obstacle is of the kind of the first hurdle that is not cleared.  The order
of the requirements and of the table does not decide whether the script is
accepted, or the check breaks off. -/
theorem check_verdict (script : Script) (rules : Rules) (table : Table)
    (hsize : table.cards.length + table.effects.length < UInt32.size) :
    (script.check rules table = .ok (.ok ()) ↔
      ∀ hurdle ∈ script.hurdles, script.Clears rules table hurdle) ∧
    (script.check rules table = .error .addition ↔
      script.FailsFirst rules table .slot ∧
        Limits.ofTable rules table = .error .addition) ∧
    (∀ obstacle, script.check rules table = .ok (.error obstacle) →
      ∃ hurdle, script.FailsFirst rules table hurdle ∧
        obstacle.kind = hurdle.kind) ∧
    ∀ (requires : List Requirement) (other : Table),
      requires.Perm script.requires → table.Rearranged other →
      (({ script with requires }.check rules other = .ok (.ok ()) ↔
          script.check rules table = .ok (.ok ())) ∧
        ({ script with requires }.check rules other = .error .addition ↔
          script.check rules table = .error .addition)) := by
  refine ⟨check_eq_ok_iff hsize, check_eq_error_iff hsize, ?_, ?_⟩
  · intro obstacle hcheck
    obtain ⟨hurdle, hfails⟩ := exists_failsFirst hsize (by rw [hcheck]; simp)
    rw [check_of_failsFirst hsize hfails] at hcheck
    exact ⟨hurdle, hfails, kind_of_checkHurdle hcheck⟩
  · intro requires other hrequires hother
    exact ⟨check_eq_ok_rearranged hsize hrequires hother,
      check_eq_error_rearranged hsize hrequires hother⟩

def backroom : Table :=
  { cards :=
      [⟨⟨0⟩, ⟨⟨1⟩, "Roxy", .goth, 3⟩, false⟩,
        ⟨⟨1⟩, ⟨⟨2⟩, "Mia", .alt, 4⟩, true⟩]
    effects :=
      [.bind ⟨2⟩ { id := ⟨1⟩, name := "Crowd"
                   limits := [.extraPlays 1 0, .onlySuit .alt] } {},
        .bind ⟨3⟩ { id := ⟨2⟩, name := "Coven"
                    limits := [.extraSuit .goth 1, .onlySuit .goth] } {}]
    discard := [⟨⟨3⟩, "Jade", .goth, 5⟩, ⟨⟨4⟩, "Zoe", .fitness, 2⟩]
    history := ["Roxy", "Mia"] }

def backroomReversed : Table :=
  { backroom with
    cards := backroom.cards.reverse, effects := backroom.effects.reverse
    discard := backroom.discard.reverse, history := backroom.history.reverse }

/-- A script that misses its requirements, its cap and a target. -/
def picky : Script :=
  { id := ⟨3⟩, name := "Picky"
    requires := [.discardHolds "Ruby", .historyStart "Lady"]
    limits := [.effectCap 0], target := { count := .one, suit := some .milf } }

/-- A script that takes a slot and the pair of suits in the discard pile. -/
def keen : Script :=
  { id := ⟨4⟩, name := "Keen"
    requires := [.discardCount .goth 1, .historyStart "Mi", .discardBase 2]
    limits := [.effectCap 4, .takesSlot, .effectCap 3]
    target := { count := .between 2 2, distinct := true, zone := .discard } }

/-- The first script is told about the requirement that it declares last, and the
second one is accepted, also if all lists are reversed. -/
theorem check_verdict_backroom :
    picky.check {} backroom = .ok (.error (.neverPlayed "Lady")) ∧
      (∃ hurdle, picky.FailsFirst {} backroom hurdle ∧
        Obstacle.Kind.neverPlayed = hurdle.kind) ∧
      (∀ hurdle ∈ keen.hurdles, keen.Clears {} backroom hurdle) ∧
      { keen with requires := keen.requires.reverse }.check {} backroomReversed =
        .ok (.ok ()) := by
  have hpicky : picky.check {} backroom = .ok (.error (.neverPlayed "Lady")) := by
    decide
  have hkeen : keen.check {} backroom = .ok (.ok ()) := by decide
  have hreversed : backroom.Rearranged backroomReversed :=
    ⟨List.reverse_perm _, List.reverse_perm _, List.reverse_perm _,
      List.reverse_perm _, rfl⟩
  obtain ⟨-, -, hobstacle, -⟩ := check_verdict picky {} backroom (by decide)
  obtain ⟨haccepts, -, -, horder⟩ := check_verdict keen {} backroom (by decide)
  obtain ⟨hsame, -⟩ := horder _ _ (List.reverse_perm _) hreversed
  exact ⟨hpicky, hobstacle _ hpicky, haccepts.mp hkeen, hsame.mpr hkeen⟩

end Script

end Tableau
