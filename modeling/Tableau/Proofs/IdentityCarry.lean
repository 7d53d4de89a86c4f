import Tableau.Proofs.Trace

/-!
A carry-over that changes nothing cannot be told from none at all: neither by a
report, nor by the answers that a game gives to any actions.  The end of the turn
then forgets the difference.  Main statement: `identity_unobservable`.
-/

namespace Tableau

/-- There is no carry-over, or it changes nothing. -/
def Idle (carry : Option CarryOver) : Prop :=
  ∀ promised ∈ carry, promised.isIdentity = true

theorem idle_none : Idle none := by simp [Idle]

namespace Table

variable {table : Table} {carry : Option CarryOver}

/-- The same table with another carry-over. -/
def withCarry (table : Table) (carry : Option CarryOver) : Table :=
  { table with carry }

@[simp] theorem cards_withCarry : (table.withCarry carry).cards = table.cards :=
  rfl

@[simp] theorem effects_withCarry :
    (table.withCarry carry).effects = table.effects := rfl

@[simp] theorem cardsIn_withCarry (zone : Zone) :
    (table.withCarry carry).cardsIn zone = table.cardsIn zone := by
  cases zone <;> rfl

@[simp] theorem find?_withCarry (zone : Zone) (id : CardId) :
    (table.withCarry carry).find? zone id = table.find? zone id := by
  rw [find?, find?, cardsIn_withCarry]

@[simp] theorem cardAt?_withCarry (play : PlayId) :
    (table.withCarry carry).cardAt? play = table.cardAt? play := rfl

@[simp] theorem effectAt?_withCarry (play : PlayId) :
    (table.withCarry carry).effectAt? play = table.effectAt? play := rfl

@[simp] theorem remember_withCarry (name : String) :
    (table.withCarry carry).remember name =
      (table.remember name).withCarry carry := rfl

@[simp] theorem enter_withCarry (seat : InPlay) :
    (table.withCarry carry).enter seat = (table.enter seat).withCarry carry := rfl

@[simp] theorem withdraw_withCarry (id : CardId) :
    (table.withCarry carry).withdraw id = (table.withdraw id).withCarry carry := by
  by_cases hdeck : table.deck.any fun card => card.id == id
  · simp [withdraw, withCarry, hdeck]
  · simp [withdraw, withCarry, hdeck]

theorem takeOut?_withCarry (move : Move) :
    (table.withCarry carry).takeOut? move =
      (table.takeOut? move).map fun (card, left, rest) =>
        (card, left, rest.withCarry carry) := by
  simp only [takeOut?]
  cases move.source <;> simp only [Option.map_map] <;> rfl

/-- Moves do not look at the carry-over, and leave it as it is. -/
theorem carryOut_withCarry (next : PlayId) (move : Move) :
    (table.withCarry carry).carryOut next move =
      (Option.map fun (made, moved, later) =>
        (made, moved.withCarry carry, later)) <$> table.carryOut next move := by
  rw [carryOut, carryOut, takeOut?_withCarry]
  cases table.takeOut? move with
  | none => rfl
  | some taken =>
      obtain ⟨card, left, rest⟩ := taken
      simp only [Option.map_some]
      cases move.dest with
      | play =>
          cases move.play with
          | none => cases hnext : next.next <;> rfl
          | some play => rfl
      | deck => rfl
      | discard => rfl

theorem carryOutAll_withCarry (next : PlayId) (moves : List Move) :
    (table.withCarry carry).carryOutAll next moves =
      (fun (moved, later) => (moved.withCarry carry, later)) <$>
        table.carryOutAll next moves := by
  induction moves generalizing table next with
  | nil => rfl
  | cons move rest ih =>
      rw [carryOutAll, carryOutAll, carryOut_withCarry]
      cases table.carryOut next move with
      | error cause => rfl
      | ok answer =>
          cases answer with
          | none => exact ih next
          | some made => exact ih made.2.2

end Table

namespace Game

theorem moveTargets_withCarry (source dest : Zone) (targets : List CardId)
    (table : Table) (carry : Option CarryOver) (next : PlayId)
    (moves : List Move) :
    moveTargets source dest targets (table.withCarry carry) next moves =
      (fun (result, later) => (result.map fun (moved, made) =>
        (moved.withCarry carry, made), later)) <$>
        moveTargets source dest targets table next moves := by
  induction targets generalizing table next moves with
  | nil => rfl
  | cons card rest ih =>
      rw [moveTargets, moveTargets, Table.carryOut_withCarry]
      cases table.carryOut next { card, source, dest } with
      | error cause => rfl
      | ok answer =>
          cases answer with
          | none => rfl
          | some made =>
              obtain ⟨move, moved, later⟩ := made
              have hwelcome : (moved.withCarry carry).welcome dest =
                  (moved.welcome dest).withCarry carry := by
                unfold Table.welcome
                rw [Table.cards_withCarry]
                split
                · split <;> rfl
                · rfl
              change moveTargets source dest rest
                ((moved.withCarry carry).welcome dest) later (moves ++ [move]) = _
              rw [hwelcome]
              exact ih (moved.welcome dest) later (moves ++ [move])

theorem relocate_withCarry (script : Script) (choice : Choice) (table : Table)
    (carry : Option CarryOver) (next : PlayId) :
    relocate script choice (table.withCarry carry) next =
      (fun (result, later) => (result.map fun (moved, made) =>
        (moved.withCarry carry, made), later)) <$>
        relocate script choice table next := by
  unfold relocate
  cases script.relocation with
  | none => rfl
  | some relocation => exact moveTargets_withCarry _ _ _ _ _ _ _

end Game

section Checks

variable {carry : Option CarryOver} {table : Table} {rules : Rules}

/-- Limits in force are those without a carry-over. -/
theorem Idle.resolve (hidle : Idle carry) (rules : Rules)
    (scripts : List Script) :
    Limits.resolve rules scripts carry = Limits.resolve rules scripts none := by
  have hopen : carry.any CarryOver.openCards = false := by
    cases carry with
    | none => rfl
    | some promised => exact (CarryOver.isIdentity_iff.mp (hidle _ rfl)).2.2.2.2
  simp only [Limits.resolve, LimitFold.start, hopen, Option.any_none]

theorem Idle.ofTable (hidle : Idle carry) (rules : Rules) (table : Table) :
    Limits.ofTable rules (table.withCarry carry) =
      Limits.ofTable rules (table.withCarry none) :=
  hidle.resolve rules table.scripts

theorem Requirement.check_withCarry (requirement : Requirement) :
    requirement.check (table.withCarry carry) = requirement.check table := by
  cases requirement <;> rfl

theorem Script.checkTargets_withCarry (script : Script) :
    script.checkTargets (table.withCarry carry) = script.checkTargets table := by
  have hcandidates : script.target.candidates (table.withCarry carry) =
      script.target.candidates table := by
    rw [TargetRule.candidates, TargetRule.candidates, Table.cardsIn_withCarry]
  rw [checkTargets, checkTargets, TargetRule.hasEnough, TargetRule.hasEnough,
    hcandidates]

theorem Idle.checkSlot (hidle : Idle carry) (script : Script) (rules : Rules)
    (table : Table) (others : List Effect) (again : Bool) :
    script.checkSlot rules (table.withCarry carry) others again =
      script.checkSlot rules (table.withCarry none) others again := by
  simp only [Script.checkSlot, Table.withCarry, hidle.resolve]

theorem Idle.check (hidle : Idle carry) (script : Script) (rules : Rules)
    (table : Table) :
    script.check rules (table.withCarry carry) =
      script.check rules (table.withCarry none) := by
  have hrequirements : script.checkRequirements (table.withCarry carry) =
      script.checkRequirements (table.withCarry none) := by
    simp only [Script.checkRequirements, Requirement.check_withCarry]
  simp only [Script.check, Script.checkWithout, hrequirements, hidle.checkSlot,
    Script.checkTargets_withCarry]
  rfl

theorem TargetRule.validate_withCarry (rule : TargetRule) (selected : List CardId) :
    rule.validate (table.withCarry carry) selected = rule.validate table selected := by
  have heach (seen : List CardId) :
      rule.checkEach (table.withCarry carry) seen selected =
        rule.checkEach table seen selected := by
    induction selected generalizing seen with
    | nil => rfl
    | cons id rest ih =>
        simp only [TargetRule.checkEach, TargetRule.checkOne,
          Table.find?_withCarry, ih]
  simp only [TargetRule.validate, heach]

end Checks

namespace Game

variable {game : Game} {carry : Option CarryOver}

/-- The same game with another carry-over. -/
def withCarry (game : Game) (carry : Option CarryOver) : Game :=
  { game with table := game.table.withCarry carry }

/-- Nothing can be replayed without a slot. -/
theorem isFreeReplay_withCarry (hidle : Idle carry) (id : CardId) :
    (game.withCarry carry).isFreeReplay id = false := by
  cases carry with
  | none => rfl
  | some promised =>
      have hreplays := (CarryOver.isIdentity_iff.mp (hidle _ rfl)).2.2.1
      simp [isFreeReplay, withCarry, Table.withCarry, CarryOver.isReplayable,
        hreplays]

theorem playCard_withCarry (hidle : Idle carry) (card : Card) :
    (game.withCarry carry).playCard card =
      (fun (result, after) => (result, after.withCarry carry)) <$>
        (game.withCarry none).playCard card := by
  rw [playCard, playCard, isFreeReplay_withCarry hidle,
    isFreeReplay_withCarry idle_none]
  simp only [withCarry, hidle.ofTable, Table.withdraw_withCarry,
    Table.remember_withCarry, Table.enter_withCarry, Bool.false_eq_true, ↓reduceIte,
    map_bind]
  refine bind_congr fun limits => bind_congr fun verdict => ?_
  cases verdict with
  | error fault => rfl
  | ok _ =>
      simp only [map_bind]
      rfl

theorem playFromDeck_withCarry (hidle : Idle carry) (id : CardId) :
    (game.withCarry carry).playFromDeck id =
      (fun (result, after) => (result, after.withCarry carry)) <$>
        (game.withCarry none).playFromDeck id := by
  simp only [playFromDeck, withCarry, Table.find?_withCarry]
  cases game.table.find? .deck id with
  | none => rfl
  | some card => exact playCard_withCarry hidle card

theorem canPlay_withCarry (hidle : Idle carry) (script : Script) :
    (game.withCarry carry).canPlay script =
      (game.withCarry none).canPlay script := by
  have hresolve := hidle.resolve game.rules (game.table.scripts ++ [script])
  simp only [canPlay, withCarry, hidle.check]
  exact congrArg (· >>= _) hresolve

theorem playEffect_withCarry (hidle : Idle carry) (script : Script)
    (choice : Choice) :
    (game.withCarry carry).playEffect script choice =
      (fun (result, after) => (result, after.withCarry carry)) <$>
        (game.withCarry none).playEffect script choice := by
  rw [playEffect, playEffect, canPlay_withCarry hidle]
  simp only [withCarry, TargetRule.validate_withCarry, relocate_withCarry, map_bind]
  refine bind_congr fun allowed => ?_
  cases allowed with
  | error refusal => rfl
  | ok _ =>
      cases script.target.validate game.table choice.targets with
      | error fault => rfl
      | ok _ =>
          simp only [map_bind, bind_map_left]
          refine bind_congr fun next => bind_congr ?_
          rintro ⟨moved, later⟩
          cases moved with
          | error fault => rfl
          | ok made =>
              simp only [Except.map, map_bind]
              rfl

theorem removeCard_withCarry (play : PlayId) (dest : Zone) :
    (game.withCarry carry).removeCard play dest =
      ((game.withCarry none).removeCard play dest).map id
        (fun after => after.withCarry carry) := by
  simp only [removeCard, withCarry, Table.cardAt?_withCarry]
  cases game.table.cardAt? play with
  | none => rfl
  | some seat => cases dest <;> rfl

theorem removeEffect_withCarry (play : PlayId) :
    (game.withCarry carry).removeEffect play =
      (fun (result, after) => (result, after.withCarry carry)) <$>
        (game.withCarry none).removeEffect play := by
  simp only [removeEffect, withCarry, Table.effectAt?_withCarry]
  cases game.table.effectAt? play with
  | none => rfl
  | some effect =>
      change (Table.carryOutAll ((game.table.withoutEffect play).withCarry carry)
        game.nextPlay effect.reversedMoves >>= _) = _ <$>
          (Table.carryOutAll ((game.table.withoutEffect play).withCarry none)
            game.nextPlay effect.reversedMoves >>= _)
      simp only [Table.carryOutAll_withCarry, map_bind, bind_map_left]
      rfl

/-- The end of a turn forgets the carry-over. -/
theorem endTurn_withCarry :
    (game.withCarry carry).endTurn = (game.withCarry none).endTurn := rfl

/-- Until the turn ends, every action gives the same answer with and without an idle
carry-over, and does the same to the game. -/
theorem perform_withCarry (hidle : Idle carry) {action : PlayerAction}
    (hstays : action ≠ .endTurn) :
    (game.withCarry carry).perform action =
      (fun (result, after) => (result, after.withCarry carry)) <$>
        (game.withCarry none).perform action := by
  cases action with
  | stockDeck cards => rfl
  | playCard card =>
      simp only [perform, playCard_withCarry hidle, map_bind, bind_map_left]
      rfl
  | playFromDeck id =>
      simp only [perform, playFromDeck_withCarry hidle, map_bind, bind_map_left]
      rfl
  | canPlay script =>
      simp only [perform, canPlay_withCarry hidle, map_bind]
      rfl
  | playEffect script choice =>
      simp only [perform, playEffect_withCarry hidle, map_bind, bind_map_left]
      rfl
  | removeCard play dest =>
      rw [perform, removeCard_withCarry]
      rfl
  | removeEffect play =>
      rw [perform, removeEffect_withCarry, perform]
      simp only [map_bind, bind_map_left]
      rfl
  | endTurn => exact absurd rfl hstays

/-- The answers to the actions of a run, and the game in the end. -/
def outcome (game : Game) (actions : List PlayerAction) :
    Checked (List (Except Refusal Answer) × Game) := do
  let (steps, final) ← game.trace actions
  pure (steps.map Performed.result, final)

theorem outcome_cons (action : PlayerAction) (rest : List PlayerAction) :
    game.outcome (action :: rest) = (do
      let (result, after) ← game.perform action
      let (results, final) ← after.outcome rest
      pure (result :: results, final)) := by
  simp only [outcome, trace, bind_assoc, pure_bind]
  rfl

/-- A run forgets the carry-over when its first turn ends, and gives the same answers
before and after that. -/
theorem outcome_withCarry (hidle : Idle carry) (actions : List PlayerAction) :
    (game.withCarry carry).outcome actions =
      (fun (results, final) => (results,
        if .endTurn ∈ actions then final else final.withCarry carry)) <$>
        (game.withCarry none).outcome actions := by
  induction actions generalizing game with
  | nil => rfl
  | cons action rest ih =>
      rw [outcome_cons, outcome_cons]
      by_cases hend : action = .endTurn
      · have hforgets : (game.withCarry carry).perform action =
            (game.withCarry none).perform action := by
          rw [hend, perform, perform, endTurn_withCarry]
        rw [hforgets, hend]
        simp only [List.mem_cons, true_or, if_true]
        exact (id_map _).symm
      · rw [perform_withCarry hidle hend]
        -- Without a carry-over the game stays without one.
        conv_rhs => rw [perform_withCarry idle_none hend]
        simp only [bind_map_left, ih, map_bind]
        refine bind_congr fun performed => bind_congr ?_
        rintro ⟨results, final⟩
        simp [Ne.symm hend]

end Game

section Score

variable {carry : Option CarryOver} {table : Table}

theorem Table.targetBase_withCarry (effect : Effect) (targets : List CardId)
    (base : Int64) (lines : List String) :
    (table.withCarry carry).targetBase effect targets base lines =
      table.targetBase effect targets base lines := by
  have hbase (id : CardId) :
      (table.withCarry carry).baseOf? id = table.baseOf? id := rfl
  induction targets generalizing base lines with
  | nil => rfl
  | cons id rest ih => simp only [targetBase, hbase, ih]

/-- Scoring steps do not look at the carry-over. -/
theorem Tally.applyStep_withCarry (tally : Tally) (effect : Effect) (step : Step) :
    tally.applyStep (table.withCarry carry) effect step =
      tally.applyStep table effect step := by
  simp only [applyStep, addTargetBase, Table.targetBase_withCarry]
  rfl

theorem Table.foldlM_stepStages_withCarry (tally : Tally) :
    (table.withCarry carry).stepStages.foldlM
        (fun tally stage => stage.apply (table.withCarry carry) tally) tally =
      table.stepStages.foldlM (fun tally stage => stage.apply table tally)
        tally := by
  rw [List.foldlM_eq_foldl, List.foldlM_eq_foldl]
  refine List.foldl_ext _ _ _ fun before stage hstage => ?_
  simp only [stepStages, List.mem_flatMap, List.mem_map] at hstage
  obtain ⟨effect, -, step, -, rfl⟩ := hstage
  exact bind_congr fun tally => tally.applyStep_withCarry effect step

/-- Nothing is multiplied, and the cards are summed up already. -/
theorem Idle.applyCarriedMults (hidle : Idle carry) (table : Table) :
    (Tally.start table.cards).applyCarriedMults (table.withCarry carry) =
      Tally.start table.cards := by
  cases carry with
  | none => rfl
  | some promised =>
      have hmults := (CarryOver.isIdentity_iff.mp (hidle _ rfl)).2.2.2.1
      have hnone (id : CardId) : promised.cardMult? id = none := by
        rw [CarryOver.cardMult?, hmults, FinMap.get?_empty]
      have hkeeps : Tally.carryMult promised = id := by
        funext standing
        simp [Tally.carryMult, hnone]
      have hsilent : Tally.carryMultLine? promised = fun _ => none := by
        funext standing
        simp [Tally.carryMultLine?, hnone]
      simp [Tally.applyCarriedMults, Table.withCarry, hkeeps, hsilent, Tally.note,
        Tally.resum, Tally.start, Tally.cardSum]

theorem Idle.applyCarriedFinal (hidle : Idle carry) (table : Table)
    (tally : Tally) :
    tally.applyCarriedFinal (table.withCarry carry) = tally := by
  cases carry with
  | none => rfl
  | some promised =>
      obtain ⟨hadd, hmult, -⟩ := CarryOver.isIdentity_iff.mp (hidle _ rfl)
      simp [Tally.applyCarriedFinal, Table.withCarry, hadd, hmult]

theorem Idle.finalTally (hidle : Idle carry) (table : Table) :
    (table.withCarry carry).finalTally =
      table.stepStages.foldlM (fun tally stage => stage.apply table tally)
        (Tally.start table.cards) := by
  rw [Table.finalTally, Table.stages, List.foldlM_append, List.foldlM_cons]
  have hfirst : Stage.carriedMults.apply (table.withCarry carry)
      (Tally.start table.cards) = pure (Tally.start table.cards) :=
    congrArg pure (hidle.applyCarriedMults table)
  have hlast (tally : Tally) : [Stage.carriedFinal].foldlM
      (fun tally stage => stage.apply (table.withCarry carry) tally) tally =
        pure tally := by
    simp only [List.foldlM_cons, List.foldlM_nil, bind_pure]
    exact congrArg pure (hidle.applyCarriedFinal table tally)
  simp only [Table.cards_withCarry, hfirst, hlast, pure_bind, bind_pure,
    Table.foldlM_stepStages_withCarry]

theorem Idle.report (hidle : Idle carry) (rules : Rules) (table : Table) :
    (table.withCarry carry).report rules = (table.withCarry none).report rules := by
  simp only [Table.report, Table.score, hidle.finalTally, idle_none.finalTally,
    hidle.ofTable, Table.effects_withCarry]

end Score

/-- A carry-over that changes nothing shows neither in the report on a turn nor in
what a game answers.  Until the turn ends, the game with it and the game without it
differ in the carry-over alone, and from then on in nothing. -/
theorem identity_unobservable {carry : CarryOver}
    (hidentity : carry.isIdentity = true) :
    (∀ (rules : Rules) (table : Table),
      (table.withCarry (some carry)).report rules =
        (table.withCarry none).report rules) ∧
    ∀ (game : Game) (actions : List PlayerAction),
      (game.withCarry (some carry)).outcome actions =
        (fun (results, final) => (results,
          if .endTurn ∈ actions then final else final.withCarry (some carry))) <$>
          (game.withCarry none).outcome actions := by
  have hidle : Idle (some carry) := by simpa [Idle] using hidentity
  exact ⟨hidle.report, fun game => Game.outcome_withCarry hidle⟩

/-- A carry-over that adds minus zero. -/
def minusZero : CarryOver := { add := .emptySum }

/-- A card is played twice and taken out of play once, and an effect comes and
goes. -/
def shortEvening : List PlayerAction :=
  let roxy : Card := ⟨⟨1⟩, "Roxy", .goth, 3⟩
  [.playCard roxy, .playCard roxy, .removeCard ⟨1⟩ .discard,
    .playEffect (.mover "Call" .discard .play) { targets := [⟨1⟩] },
    .removeEffect ⟨2⟩, .removeEffect ⟨2⟩]

/-- With and without a carry-over of minus zero the evening goes alike, its last
action, which is refused, included. -/
theorem identity_unobservable_minusZero :
    minusZero.isIdentity = true ∧
    (∀ rules, (({} : Table).withCarry (some minusZero)).report rules =
      (({} : Table).withCarry none).report rules) ∧
    ∃ results final,
      (({} : Game).withCarry none).outcome shortEvening = .ok (results, final) ∧
      results.getLast? = some (.error (.unknownPlay ⟨2⟩)) ∧
      (({} : Game).withCarry (some minusZero)).outcome shortEvening =
        .ok (results, final.withCarry (some minusZero)) := by
  have hidentity : minusZero.isIdentity = true := by decide
  obtain ⟨hreport, houtcome⟩ := identity_unobservable hidentity
  obtain ⟨results, final, hplain, hlast⟩ : ∃ results final,
      (({} : Game).withCarry none).outcome shortEvening = .ok (results, final) ∧
        results.getLast? = some (.error (.unknownPlay ⟨2⟩)) := ⟨_, _, rfl, rfl⟩
  refine ⟨hidentity, fun rules => hreport rules {}, results, final, hplain, hlast, ?_⟩
  rw [houtcome, hplain]
  rfl

end Tableau
