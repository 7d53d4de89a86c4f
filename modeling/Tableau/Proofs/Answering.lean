import Tableau.Proofs.Restoring
import Tableau.Proofs.Verdict

/-!
Which plays answer and which break off at a sum.  A card is always played or
refused, and the slots of a table can always be counted.  An effect breaks off if
the rules of the effects in play and its own add up to more than can be counted, or
if it is accepted but the game runs out of strokes or play numbers on it.  Main
statement: `play_answers_iff`.
-/

namespace Tableau

section Answers

variable {α β : Type}

/-- The computation does not break off. -/
def Answers (computation : Checked α) : Prop :=
  ∃ answer, computation = .ok answer

@[simp] theorem answers_pure (value : α) : Answers (pure value : Checked α) :=
  ⟨value, rfl⟩

theorem answers_bind_iff {first : Checked α} {rest : α → Checked β} :
    Answers (first >>= rest) ↔
      ∃ value, first = .ok value ∧ Answers (rest value) := by
  simp only [Answers, bind_eq_ok_iff]
  constructor
  · rintro ⟨answer, value, hfirst, hrest⟩
    exact ⟨value, hfirst, answer, hrest⟩
  · rintro ⟨value, hfirst, answer, hrest⟩
    exact ⟨answer, value, hfirst, hrest⟩

theorem answers_addCounts_iff {left right : UInt32} :
    Answers (addCounts left right) ↔
      left.toNat + right.toNat < UInt32.size := by
  unfold Answers addCounts
  split <;> simp [*]

theorem PlayId.answers_next_iff {play : PlayId} :
    Answers play.next ↔ play.number.toNat + 1 < UInt32.size := by
  rw [next, answers_bind_iff, ← UInt32.toNat_one, ← answers_addCounts_iff]
  simp only [answers_pure, and_true]
  rfl

end Answers

theorem Limits.answers_resolve_iff {rules : Rules} {scripts : List Script}
    {carry : Option CarryOver} : Answers (resolve rules scripts carry) ↔
      ¬ rules.Exceeded (scripts.flatMap Script.limits) := by
  rcases resolve_cases rules scripts carry with ⟨hfits, limits, hok, -⟩ |
    ⟨hexceeded, herror⟩
  · exact ⟨fun _ => hfits, fun _ => ⟨limits, hok⟩⟩
  · rw [herror]
    refine ⟨?_, absurd hexceeded⟩
    rintro ⟨limits, hok⟩
    cases hok

theorem Script.answers_check {rules : Rules} {table : Table} (script : Script)
    (hsize : table.cards.length + table.effects.length < UInt32.size)
    (hlimits : Answers (Limits.ofTable rules table)) :
    Answers (script.check rules table) := by
  cases hcheck : script.check rules table with
  | ok verdict => exact ⟨verdict, rfl⟩
  | error cause =>
      obtain ⟨limits, hok⟩ := hlimits
      have herror := ((check_eq_error_iff hsize).mp hcheck).2
      cases hok.symm.trans herror

namespace Table

variable {source dest : Zone} {card : CardId} {targets : List CardId}
  {table moved : Table} {next later : PlayId} {move : Move}

theorem toNat_later_of_carryOut
    (hcarry : table.carryOut next { card, source, dest } =
      .ok (some (move, moved, later))) :
    later.number.toNat =
      next.number.toNat + if dest = .play then 1 else 0 := by
  obtain ⟨taken, others, hspec⟩ := carryOut_eq_some hcarry
  rcases hspec.numbered with ⟨hleaves, -, rfl⟩ | ⟨-, hgiven, -⟩ |
    ⟨henters, -, -, hnext⟩
  · rw [if_neg hleaves]
    rfl
  · cases hgiven
  · rw [if_pos henters]
    exact PlayId.next_eq_ok_iff.mp hnext

theorem answers_carryOut_iff {placement : Placement}
    (hmem : placement ∈ table.placements)
    (hpicks : Move.Picks { card, source, dest } placement) :
    Answers (table.carryOut next { card, source, dest }) ↔
      (dest = .play → next.number.toNat + 1 < UInt32.size) := by
  by_cases henters : dest = .play
  · rw [← PlayId.answers_next_iff]
    simp only [henters, forall_const]
    cases htaken : table.takeOut? { card, source, dest } with
    | none => exact absurd hpicks (takeOut?_eq_none_iff.mp htaken placement hmem)
    | some answer =>
        obtain ⟨found, left, rest⟩ := answer
        subst henters
        simp only [carryOut, htaken, answers_bind_iff, answers_pure, and_true]
        rfl
  · obtain ⟨done, after, hcarry⟩ :=
      exists_carryOut next hmem hpicks fun hdest => absurd hdest henters
    exact ⟨fun _ hdest => absurd hdest henters, fun _ => ⟨_, hcarry⟩⟩

/-- Targets are moved to the last one unless they come into play and there are not
enough play numbers for them. -/
theorem answers_moveTargets_iff {before : List Move}
    (hmovable : table.Movable source targets) :
    Answers (Game.moveTargets source dest targets table next before) ↔
      (dest = .play →
        next.number.toNat + targets.length < UInt32.size) := by
  induction targets generalizing table next before with
  | nil =>
      have hsize := UInt32.toNat_lt_size next.number
      simp [Game.moveTargets, hsize]
  | cons card rest ih =>
      obtain ⟨placement, hmem, hpicks⟩ := hmovable.exists_picks dest
      rw [Game.moveTargets, answers_bind_iff]
      constructor
      · rintro ⟨answer, hcarry, hrest⟩ henters
        cases answer with
        | none =>
            exact absurd hpicks (carryOut_eq_none_iff.mp hcarry placement hmem)
        | some made =>
            obtain ⟨move, moved, middle⟩ := made
            have hlast := (ih (hmovable.rest hcarry)).mp hrest henters
            have hmiddle := toNat_later_of_carryOut hcarry
            rw [if_pos henters] at hmiddle
            rw [List.length_cons]
            omega
      · intro hroom
        have hfirst (henters : dest = .play) :
            next.number.toNat + 1 < UInt32.size := by
          have hlength := hroom henters
          rw [List.length_cons] at hlength
          omega
        obtain ⟨answer, hcarry⟩ :=
          (answers_carryOut_iff hmem hpicks).mpr hfirst
        refine ⟨answer, hcarry, ?_⟩
        cases answer with
        | none => exact answers_pure _
        | some made =>
            obtain ⟨move, moved, middle⟩ := made
            refine (ih (hmovable.rest hcarry)).mpr fun henters => ?_
            have hlength := hroom henters
            have hmiddle := toNat_later_of_carryOut hcarry
            rw [if_pos henters] at hmiddle
            rw [List.length_cons] at hlength
            omega

end Table

namespace Game

variable {game : Game} {script : Script} {choice : Choice}

theorem answers_relocate_iff {table : Table} {next : PlayId}
    (hmovable : table.Movable script.target.zone choice.targets) :
    Answers (relocate script choice table next) ↔
      (script.relocation = some ⟨.play⟩ →
        next.number.toNat + choice.targets.length < UInt32.size) := by
  unfold relocate
  cases script.relocation with
  | none => simp
  | some relocation =>
      rw [Table.answers_moveTargets_iff hmovable, Option.some.injEq]
      cases relocation
      simp

/-- The limits of a game in progress can be summed up. -/
theorem Orderly.answers_ofTable (horderly : game.Orderly) :
    Answers (Limits.ofTable game.rules game.table) :=
  Limits.answers_resolve_iff.mpr horderly.limited

theorem Orderly.answers_playCard (horderly : game.Orderly) (card : Card)
    (hnext : Answers game.nextPlay.next) : Answers (game.playCard card) := by
  obtain ⟨limits, hlimits⟩ := horderly.answers_ofTable
  obtain ⟨used, hused, -⟩ :=
    limits.exists_occupancy (count_inPlay_lt horderly.numbered)
  obtain ⟨next, hnext⟩ := hnext
  have hverdict : Answers (if game.isFreeReplay card.id then
      (pure (limits.checkSuit card.suit) : Checked (Except LimitFault Unit))
      else limits.checkCard game.table card.suit) := by
    obtain ⟨verdict, hcheck, -⟩ := Limits.exists_checkCard hused
    split
    · exact answers_pure _
    · exact ⟨verdict, hcheck⟩
  obtain ⟨verdict, hverdict⟩ := hverdict
  rw [playCard, answers_bind_iff]
  refine ⟨limits, hlimits, ?_⟩
  -- A free replay and any other play only differ in the check that is made.
  dsimp only
  split
  all_goals
    rename_i hfree
    simp only [hfree, Bool.false_eq_true, reduceIte] at hverdict
    refine answers_bind_iff.mpr ⟨verdict, hverdict, ?_⟩
    cases verdict with
    | error fault => exact answers_pure _
    | ok accepted => exact answers_bind_iff.mpr ⟨next, hnext, answers_pure _⟩

theorem Orderly.answers_canPlay_iff (horderly : game.Orderly) :
    Answers (game.canPlay script) ↔
      ¬ game.rules.Exceeded
        ((game.table.scripts ++ [script]).flatMap Script.limits) := by
  rw [← Limits.answers_resolve_iff, canPlay, answers_bind_iff]
  constructor
  · rintro ⟨limits, hlimits, -⟩
    exact ⟨limits, hlimits⟩
  · rintro ⟨limits, hlimits⟩
    refine ⟨limits, hlimits, ?_⟩
    cases limits.checkEffect game.table with
    | error fault => exact answers_pure _
    | ok room =>
        obtain ⟨verdict, hverdict⟩ := script.answers_check
          (count_inPlay_lt horderly.numbered) horderly.answers_ofTable
        rw [answers_bind_iff]
        refine ⟨verdict, hverdict, ?_⟩
        cases verdict <;> exact answers_pure _

/-- The strokes paid so far and the cost of the script can be summed up, and there
are play numbers left for the effect and the targets that it brings into play. -/
structure Affords (game : Game) (script : Script) (choice : Choice) : Prop where
  strokes : game.strokes.toNat + script.cost.toNat < UInt32.size
  plays : script.relocation = some ⟨.play⟩ →
    game.nextPlay.number.toNat + 1 + choice.targets.length < UInt32.size

/-- The effect is accepted with the choices made for it. -/
def Accepts (game : Game) (script : Script) (choice : Choice) : Prop :=
  game.canPlay script = .ok (.ok ()) ∧
    script.target.validate game.table choice.targets = .ok ()

/-- Once it is accepted, an effect is played if the game affords it. -/
theorem answers_playEffect_of_accepts (haccepts : game.Accepts script choice)
    (hnext : Answers game.nextPlay.next) :
    Answers (game.playEffect script choice) ↔ game.Affords script choice := by
  obtain ⟨hallowed, hvalid⟩ := haccepts
  obtain ⟨first, hfirst⟩ := hnext
  have hmoved : Answers (relocate script choice game.table first) ↔
      (script.relocation = some ⟨.play⟩ →
        game.nextPlay.number.toNat + 1 + choice.targets.length <
          UInt32.size) := by
    rw [answers_relocate_iff (Table.movable_of_validate hvalid),
      PlayId.next_eq_ok_iff.mp hfirst]
  simp only [playEffect, hallowed, hvalid, hfirst]
  change Answers (relocate script choice game.table first >>= _) ↔ _
  rw [answers_bind_iff]
  constructor
  · rintro ⟨⟨outcome, later⟩, hrelocated, hpaid⟩
    refine ⟨?_, hmoved.mp ⟨_, hrelocated⟩⟩
    cases outcome with
    | error fault => exact absurd hrelocated (relocate_ne_error hvalid)
    | ok made =>
        obtain ⟨strokes, hpaid, -⟩ := answers_bind_iff.mp hpaid
        exact answers_addCounts_iff.mp ⟨strokes, hpaid⟩
  · rintro ⟨hstrokes, hplays⟩
    obtain ⟨⟨outcome, later⟩, hrelocated⟩ := hmoved.mpr hplays
    refine ⟨_, hrelocated, ?_⟩
    cases outcome with
    | error fault => exact answers_pure _
    | ok made =>
        obtain ⟨strokes, hpaid⟩ := answers_addCounts_iff.mpr hstrokes
        exact answers_bind_iff.mpr ⟨strokes, hpaid, answers_pure _⟩

theorem answers_playEffect_iff (hnext : Answers game.nextPlay.next) :
    Answers (game.playEffect script choice) ↔
      Answers (game.canPlay script) ∧
        (game.Accepts script choice → game.Affords script choice) := by
  constructor
  · intro hanswers
    refine ⟨?_, fun haccepts =>
      (answers_playEffect_of_accepts haccepts hnext).mp hanswers⟩
    obtain ⟨verdict, hverdict, -⟩ := answers_bind_iff.mp hanswers
    exact ⟨verdict, hverdict⟩
  · rintro ⟨⟨verdict, hverdict⟩, haffords⟩
    cases verdict with
    | error refusal =>
        exact answers_bind_iff.mpr ⟨_, hverdict, answers_pure _⟩
    | ok allowed =>
        cases hvalid : script.target.validate game.table choice.targets with
        | error fault =>
            refine answers_bind_iff.mpr ⟨_, hverdict, ?_⟩
            simp only [hvalid, answers_pure]
        | ok legal =>
            exact (answers_playEffect_of_accepts ⟨hverdict, hvalid⟩ hnext).mpr
              (haffords ⟨hverdict, hvalid⟩)

/-- After every run that leaves half of the play numbers unused, playing a card
answers, and the slots of the table can be counted.  The check of an effect answers
exactly if the rules of the effects in play and its own can be summed up, and the
play of an effect if its check does and the game affords what it accepts. -/
theorem play_answers_iff (hreachable : game.Reachable)
    (hfew : game.nextPlay.number.toNat < 2 ^ 31) :
    (∀ card, Answers (game.playCard card)) ∧
    (∀ id, Answers (game.playFromDeck id)) ∧
    (∀ limits : Limits,
      Answers (limits.occupancy game.table.cards game.table.effects)) ∧
    (∀ script, Answers (game.canPlay script) ↔
      ¬ game.rules.Exceeded
        ((game.table.scripts ++ [script]).flatMap Script.limits)) ∧
    ∀ script choice, Answers (game.playEffect script choice) ↔
      Answers (game.canPlay script) ∧
        (game.Accepts script choice → game.Affords script choice) := by
  have horderly := hreachable.orderly
  have hnext : Answers game.nextPlay.next := by
    have hsize : 2 ^ 31 < UInt32.size := by decide
    exact PlayId.answers_next_iff.mpr (by omega)
  refine ⟨?_, ?_, ?_, ?_, ?_⟩
  · exact fun card => horderly.answers_playCard card hnext
  · intro id
    unfold playFromDeck
    cases game.table.find? .deck id with
    | none => exact answers_pure _
    | some card => exact horderly.answers_playCard card hnext
  · intro limits
    obtain ⟨used, hused, -⟩ :=
      limits.exists_occupancy (count_inPlay_lt horderly.numbered)
    exact ⟨used, hused⟩
  · exact fun script => horderly.answers_canPlay_iff
  · exact fun script choice => answers_playEffect_iff hnext

def fee (cost : UInt32) : Script := { id := ⟨0⟩, name := "Fee", cost }

/-- Once as many strokes are paid as can be counted, an effect for one stroke more
can be played by its check, but not be paid for. -/
theorem play_answers_iff_lastStroke : ∃ game,
    run {} [.playEffect (fee 4294967295) {}] = .ok game ∧
      Answers (game.canPlay (fee 1)) ∧
      ¬ Answers (game.playEffect (fee 1) {}) ∧
      ∀ card, Answers (game.playCard card) := by
  obtain ⟨game, hrun, haccepts, hstrokes, hnext⟩ : ∃ game,
      run {} [.playEffect (fee 4294967295) {}] = .ok game ∧
      game.Accepts (fee 1) {} ∧ game.strokes = 4294967295 ∧
      game.nextPlay = ⟨1⟩ := ⟨_, rfl, ⟨rfl, rfl⟩, rfl, rfl⟩
  obtain ⟨hcards, -, -, -, heffects⟩ :=
    play_answers_iff ⟨{}, _, hrun⟩ (by rw [hnext]; decide)
  refine ⟨game, hrun, ⟨_, haccepts.1⟩, ?_, hcards⟩
  rw [heffects]
  rintro ⟨-, haffords⟩
  have hpaid := (haffords haccepts).strokes
  rw [hstrokes] at hpaid
  exact absurd hpaid (by decide)

/-- An effect with more card slots than can be counted beside the two of the
rules. -/
def hugeHouse : Script :=
  { id := ⟨1⟩, name := "House", limits := [.extraPlays 4294967295 0] }

/-- In a new game the check of such an effect breaks off. -/
theorem not_play_answers :
    ¬ ∀ game : Game, game.Reachable → game.nextPlay.number.toNat < 2 ^ 31 →
      ∀ script choice card, Answers (game.canPlay script) ∧
        Answers (game.playEffect script choice) ∧
        Answers (game.playCard card) := by
  intro hanswers
  have hreachable : Reachable {} := ⟨{}, [], rfl⟩
  obtain ⟨⟨verdict, hverdict⟩, -⟩ :=
    hanswers {} hreachable (by decide) hugeHouse {} ⟨⟨1⟩, "Roxy", .goth, 3⟩
  have herror : canPlay {} hugeHouse = .error .addition := rfl
  cases hverdict.symm.trans herror

end Game

end Tableau
