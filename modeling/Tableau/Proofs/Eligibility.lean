import Tableau.Eligibility

/-!
What it takes to play an effect.  The checks are hurdles in a row, and the first
one that is not passed decides what is reported.  Main statements:
`checkWithout_eq_checkAll`, the row of hurdles; `kind_of_checkHurdle`, what a
hurdle can report; and `checkWithout_eq_ok_iff`, what it takes to pass them all.
-/

namespace Tableau

/-- The kinds of obstacles, without what they tell about the table. -/
inductive Obstacle.Kind where
  | notSoleCard
  | missingFromDiscard
  | tooFewOfSuit
  | neverPlayed
  | noBaseInDiscard
  | effectCapReached
  | wrongSuitInPlay
  | noCardSlot
  | noTargets
deriving DecidableEq, Repr

def Obstacle.kind : Obstacle → Kind
  | notSoleCard _ => .notSoleCard
  | missingFromDiscard _ => .missingFromDiscard
  | tooFewOfSuit _ _ _ => .tooFewOfSuit
  | neverPlayed _ => .neverPlayed
  | noBaseInDiscard _ => .noBaseInDiscard
  | effectCapReached _ => .effectCapReached
  | wrongSuitInPlay _ _ => .wrongSuitInPlay
  | noCardSlot _ => .noCardSlot
  | noTargets => .noTargets

namespace Requirement

def kind : Requirement → Obstacle.Kind
  | soleCard _ => .notSoleCard
  | discardHolds _ => .missingFromDiscard
  | discardCount _ _ => .tooFewOfSuit
  | historyStart _ => .neverPlayed
  | discardBase _ => .noBaseInDiscard

/-- What the table has to show. -/
def Met (requirement : Requirement) (table : Table) : Prop :=
  match requirement with
  | soleCard name => ∃ seat, table.cards = [seat] ∧ seat.card.name = name
  | discardHolds name => ∃ card ∈ table.discard, card.name = name
  | discardCount suit least => least.toNat ≤ table.discardCount suit
  | historyStart start => ∃ name ∈ table.history, beginsWith name start = true
  | discardBase score => ∃ card ∈ table.discard, card.base = score

variable {requirement : Requirement} {table : Table}

theorem check_eq_ok_iff :
    requirement.check table = .ok () ↔ requirement.Met table := by
  cases requirement with
  | soleCard name => simp [check, Met, List.map_eq_singleton_iff]
  | _ => simp [check, Met]

theorem check_historyStart_iff {start : String} :
    (historyStart start).check table = .ok () ↔
      ∃ name ∈ table.history, beginsWith name start = true :=
  check_eq_ok_iff

theorem kind_of_check_eq_error {obstacle : Obstacle}
    (hcheck : requirement.check table = .error obstacle) :
    obstacle.kind = requirement.kind := by
  cases requirement <;> simp only [check] at hcheck
  all_goals
    split at hcheck
    · cases hcheck
    · cases hcheck
      rfl

end Requirement

/-- One of the checks that an effect has to pass. -/
inductive Hurdle where
  | requirement (requirement : Requirement)
  | cap
  | suits
  | slot
  | targets
deriving DecidableEq, Repr

namespace Hurdle

def kind : Hurdle → Obstacle.Kind
  | .requirement wanted => wanted.kind
  | cap => .effectCapReached
  | suits => .wrongSuitInPlay
  | slot => .noCardSlot
  | targets => .noTargets

/-- Checks one after the other.  The first one that is not passed decides. -/
def checkAll (check : Hurdle → Checked (Except Obstacle Unit)) :
    List Hurdle → Checked (Except Obstacle Unit)
  | [] => pure (.ok ())
  | hurdle :: rest => do
      match ← check hurdle with
      | .error obstacle => pure (.error obstacle)
      | .ok () => checkAll check rest

variable {check : Hurdle → Checked (Except Obstacle Unit)}
  {cleared rest : List Hurdle} {hurdle : Hurdle}

theorem checkAll_cons_of_ok (hhead : check hurdle = .ok (.ok ())) :
    checkAll check (hurdle :: rest) = checkAll check rest := by
  rw [checkAll, hhead]
  rfl

theorem checkAll_cons_of_ne_ok (hhead : check hurdle ≠ .ok (.ok ())) :
    checkAll check (hurdle :: rest) = check hurdle := by
  rw [checkAll]
  rcases hcheck : check hurdle with cause | obstacle | _
  · rfl
  · rfl
  · exact absurd hcheck hhead

theorem checkAll_append_of_ok
    (hcleared : ∀ earlier ∈ cleared, check earlier = .ok (.ok ())) :
    checkAll check (cleared ++ rest) = checkAll check rest := by
  induction cleared with
  | nil => rfl
  | cons head tail ih =>
      obtain ⟨hhead, htail⟩ := List.forall_mem_cons.mp hcleared
      rw [List.cons_append, checkAll_cons_of_ok hhead, ih htail]

theorem checkAll_eq_ok_iff {all : List Hurdle} :
    checkAll check all = .ok (.ok ()) ↔
      ∀ hurdle ∈ all, check hurdle = .ok (.ok ()) := by
  induction all with
  | nil => simp [checkAll, pure_eq_ok_iff]
  | cons head tail ih =>
      rw [List.forall_mem_cons]
      by_cases hhead : check head = .ok (.ok ())
      · rw [checkAll_cons_of_ok hhead, ih]
        simp [hhead]
      · rw [checkAll_cons_of_ne_ok hhead]
        simp [hhead]

/-- Checks that do not pass all hurdles stop at the first one that is not
passed. -/
theorem exists_of_checkAll_ne_ok {all : List Hurdle}
    (hcheck : checkAll check all ≠ .ok (.ok ())) :
    ∃ cleared hurdle rest, all = cleared ++ hurdle :: rest ∧
      (∀ earlier ∈ cleared, check earlier = .ok (.ok ())) ∧
      check hurdle ≠ .ok (.ok ()) ∧ checkAll check all = check hurdle := by
  induction all with
  | nil => exact absurd rfl hcheck
  | cons head tail ih =>
      by_cases hhead : check head = .ok (.ok ())
      · rw [checkAll_cons_of_ok hhead] at hcheck ⊢
        obtain ⟨cleared, hurdle, rest, rfl, hcleared, hstops⟩ := ih hcheck
        exact ⟨head :: cleared, hurdle, rest, rfl,
          List.forall_mem_cons.mpr ⟨hhead, hcleared⟩, hstops⟩
      · exact ⟨[], head, tail, rfl, by simp, hhead,
          checkAll_cons_of_ne_ok hhead⟩

theorem checkAll_map_append {requirements : List Requirement} {table : Table}
    (hcheck : ∀ requirement, check (.requirement requirement) =
      .ok (requirement.check table)) :
    checkAll check (requirements.map .requirement ++ rest) =
      match requirements.forM (fun requirement => requirement.check table) with
      | .error obstacle => pure (.error obstacle)
      | .ok () => checkAll check rest := by
  induction requirements with
  | nil => rfl
  | cons head tail ih =>
      rw [List.map_cons, List.cons_append, checkAll, hcheck]
      change (match head.check table with | .error _ => _ | .ok () => _) = _
      rw [ih, List.forM]
      cases head.check table with
      | error obstacle => rfl
      | ok passed => rfl

end Hurdle

namespace Script

/-- The hurdles in the order in which they are taken. -/
def hurdles (script : Script) : List Hurdle :=
  (script.requires.filter Requirement.isBespoke).map .requirement ++
    (script.requires.filter fun requirement => !requirement.isBespoke).map
      .requirement ++
    [.cap, .suits, .slot, .targets]

/-- The check at a hurdle, leaving out of account the effects with the given play
number. -/
def checkHurdle (script : Script) (rules : Rules) (table : Table)
    (excluded : Option PlayId) : Hurdle → Checked (Except Obstacle Unit)
  | .requirement requirement => .ok (requirement.check table)
  | .cap => .ok (script.checkCap
      (table.effects.filter fun effect => some effect.play != excluded))
  | .suits => .ok (script.checkSuits table)
  | .slot => script.checkSlot rules table
      (table.effects.filter fun effect => some effect.play != excluded)
      (excluded.any fun play => (table.effectAt? play).isSome)
  | .targets => .ok (script.checkTargets table)

variable {script : Script} {rules : Rules} {table : Table}
  {excluded : Option PlayId}

theorem checkWithout_eq_checkAll :
    script.checkWithout rules table excluded =
      Hurdle.checkAll (script.checkHurdle rules table excluded)
        script.hurdles := by
  rw [hurdles, ← List.map_append, ← orderedRequirements,
    Hurdle.checkAll_map_append fun _ => rfl]
  unfold checkWithout checkRequirements Hurdle.checkAll checkHurdle
  dsimp only
  cases script.orderedRequirements.forM fun requirement =>
    requirement.check table with
  | error obstacle => rfl
  | ok passed =>
      cases script.checkCap
        (table.effects.filter fun effect => some effect.play != excluded) with
      | error obstacle => rfl
      | ok passed =>
          cases script.checkSuits table with
          | error obstacle => rfl
          | ok passed =>
              -- Only the check for a slot can break off.
              refine congrArg (script.checkSlot rules table _ _ >>= ·) ?_
              funext verdict
              cases verdict with
              | error obstacle => rfl
              | ok passed => cases script.checkTargets table <;> rfl

/-- Every hurdle reports obstacles of its own kind. -/
theorem kind_of_checkHurdle {hurdle : Hurdle} {obstacle : Obstacle}
    (hcheck : script.checkHurdle rules table excluded hurdle =
      .ok (.error obstacle)) : obstacle.kind = hurdle.kind := by
  cases hurdle with
  | requirement requirement =>
      exact Requirement.kind_of_check_eq_error (Except.ok.inj hcheck)
  | cap =>
      simp only [checkHurdle, checkCap, Except.ok.injEq] at hcheck
      split at hcheck
      · cases hcheck
      · split at hcheck
        · cases hcheck
          rfl
        · cases hcheck
  | suits =>
      simp only [checkHurdle, checkSuits, Except.ok.injEq] at hcheck
      split at hcheck
      · cases hcheck
      · split at hcheck
        · cases hcheck
        · cases hcheck
          rfl
  | slot =>
      simp only [checkHurdle, checkSlot] at hcheck
      split at hcheck
      · simp only [bind_eq_ok_iff] at hcheck
        obtain ⟨limits, -, occupied, -, hroom⟩ := hcheck
        -- Both with and without a slot that is given up first.
        split at hroom <;> split at hroom <;> cases pure_eq_ok_iff.mp hroom
        all_goals rfl
      · cases pure_eq_ok_iff.mp hcheck
  | targets =>
      simp only [checkHurdle, checkTargets, Except.ok.injEq] at hcheck
      split at hcheck
      · cases hcheck
      · cases hcheck
        rfl

/-- The script passes every check, leaving out of account the effects with the
given play number. -/
structure Eligible (script : Script) (rules : Rules) (table : Table)
    (excluded : Option PlayId) : Prop where
  requirements : script.checkRequirements table = .ok ()
  cap : script.checkCap
    (table.effects.filter fun effect => some effect.play != excluded) = .ok ()
  suits : script.checkSuits table = .ok ()
  slot : script.checkSlot rules table
    (table.effects.filter fun effect => some effect.play != excluded)
    (excluded.any fun play => (table.effectAt? play).isSome) = .ok (.ok ())
  targets : script.checkTargets table = .ok ()

/-- The checks are passed together exactly if each of them is passed. -/
theorem checkWithout_eq_ok_iff :
    script.checkWithout rules table excluded = .ok (.ok ()) ↔
      script.Eligible rules table excluded := by
  unfold checkWithout
  dsimp only
  constructor
  · intro hcheck
    split at hcheck
    · simp [pure_eq_ok_iff] at hcheck
    · rename_i hbefore
      simp only [bind_eq_ok_iff] at hbefore
      obtain ⟨_, hrequirements, _, hcap, hsuits⟩ := hbefore
      rw [bind_eq_ok_iff] at hcheck
      obtain ⟨verdict, hslot, htargets⟩ := hcheck
      cases verdict with
      | error obstacle => simp [pure_eq_ok_iff] at htargets
      | ok room =>
          exact ⟨hrequirements, hcap, hsuits, hslot,
            pure_eq_ok_iff.mp htargets⟩
  · rintro ⟨hrequirements, hcap, hsuits, hslot, htargets⟩
    rw [hrequirements, hcap, hsuits, hslot, htargets]
    rfl

theorem checkSuits_eq_ok_iff :
    script.checkSuits table = .ok () ↔
      ∀ allowed, script.onlySuit = some allowed →
        ∀ seat ∈ table.cards, seat.card.suit = allowed := by
  unfold checkSuits
  cases script.onlySuit with
  | none => simp
  | some allowed =>
      dsimp only
      cases hwrong : table.cards.find? (fun seat => seat.card.suit != allowed) with
      | none => simpa using hwrong
      | some wrong =>
          have hmem := List.mem_of_find?_eq_some hwrong
          have hsuit := List.find?_some hwrong
          simp only [reduceCtorEq, false_iff]
          intro hall
          simp [hall allowed rfl wrong hmem] at hsuit

/-- An obstacle is reported at a hurdle of its kind. -/
theorem exists_hurdle_of_checkWithout {obstacle : Obstacle}
    (hcheck : script.checkWithout rules table excluded =
      .ok (.error obstacle)) :
    ∃ hurdle, obstacle.kind = hurdle.kind ∧
      script.checkHurdle rules table excluded hurdle = .ok (.error obstacle) := by
  rw [checkWithout_eq_checkAll] at hcheck
  obtain ⟨-, hurdle, -, -, -, -, hstops⟩ :=
    Hurdle.exists_of_checkAll_ne_ok (by rw [hcheck]; simp)
  rw [hcheck] at hstops
  exact ⟨hurdle, kind_of_checkHurdle hstops.symm, hstops.symm⟩

theorem hasEnough_eq_false_of_checkWithout
    (hcheck : script.checkWithout rules table excluded =
      .ok (.error .noTargets)) :
    script.target.hasEnough table = false := by
  obtain ⟨hurdle, hkind, hfails⟩ := exists_hurdle_of_checkWithout hcheck
  cases hurdle with
  | requirement requirement => cases requirement <;> cases hkind
  | targets =>
      simp only [checkHurdle, checkTargets, Except.ok.injEq] at hfails
      split at hfails
      · cases hfails
      · rename_i hfew
        simpa using hfew
  | _ => cases hkind

theorem checkCap_of_checkWithout {cap : UInt32}
    (hcheck : script.checkWithout rules table excluded =
      .ok (.error (.effectCapReached cap))) :
    script.checkCap
        (table.effects.filter fun effect => some effect.play != excluded) =
      .error (.effectCapReached cap) := by
  obtain ⟨hurdle, hkind, hfails⟩ := exists_hurdle_of_checkWithout hcheck
  cases hurdle with
  | requirement requirement => cases requirement <;> cases hkind
  | cap => exact Except.ok.inj hfails
  | _ => cases hkind

end Script

end Tableau
