import Mathlib.Data.List.Flatten
import Tableau.Proofs.LimitTotals
import Tableau.Proofs.Reversals

/-!
Going on from a table without the game that led to it.  The play numbers then
start behind those in play, so a number that an effect remembers can be handed out
a second time, and taking the effect back moves the wrong card.  Main statement:
`ofTable_reversals_iff`.
-/

namespace Tableau

instance instLawfulOrderMaxUInt32 : Std.LawfulOrderMax UInt32 where
  max_eq_or left right := by
    rw [← UInt32.toNat_inj, ← UInt32.toNat_inj, UInt32.toNat_max]
    omega
  max_le_iff left right bound := by
    simp only [UInt32.le_iff_toNat_le, UInt32.toNat_max]
    omega

theorem PlayId.exists_next {play later : PlayId} (hlt : play.number < later.number) :
    ∃ next, play.next = .ok next ∧
      next.number.toNat = play.number.toNat + 1 := by
  have hbelow := UInt32.lt_iff_toNat_lt.mp hlt
  have hsize := UInt32.toNat_lt_size later.number
  have hnext : (⟨UInt32.ofNat (play.number.toNat + 1)⟩ : PlayId).number.toNat =
      play.number.toNat + 1 := UInt32.toNat_ofNat_of_lt (by omega)
  exact ⟨_, PlayId.next_eq_ok_iff.mpr hnext, hnext⟩

/-- When the moves of an effect were made: those out of play took numbers that were
handed out before that of the effect. -/
structure Effect.Dated (effect : Effect) : Prop where
  numbered : ∀ move ∈ effect.moves,
    move.source = .play ∨ move.dest = .play → move.play.isSome
  vacated : ∀ move ∈ effect.moves, move.dest ≠ .play → ∀ play,
    move.play = some play → play.number.toNat < effect.play.number.toNat

theorem Table.Relocated.dated {source dest : Zone} {targets : List CardId}
    {table after : Table} {next later : PlayId} {moves : List Move}
    {bound : Nat}
    (hmoved : Relocated source dest targets table next moves after later)
    (hbelow : dest ≠ .play → ∀ placement ∈ table.placements, ∀ play,
      placement.play = some play → play.number.toNat < bound) :
    ∀ move ∈ moves,
      (move.source = .play ∨ move.dest = .play → move.play.isSome) ∧
      (move.dest ≠ .play → ∀ play, move.play = some play →
        play.number.toNat < bound) := by
  induction hmoved with
  | nil => simp
  | @cons card rest table moved after next middle later move moves hcarry htail
      ih =>
      obtain ⟨taken, others, hspec⟩ := carryOut_eq_some hcarry
      have hsource := hspec.source_eq
      have hdest := hspec.dest_eq
      have hbefore (placement : Placement) (hmem : placement ∈ others) :
          placement ∈ table.placements :=
        hspec.before ▸ Multiset.mem_cons_of_mem hmem
      have htaken : taken ∈ table.placements :=
        hspec.before ▸ Multiset.mem_cons_self taken others
      refine List.forall_mem_cons.mpr ⟨⟨?_, ?_⟩, ih ?_⟩
      · rw [hsource, hdest]
        rcases hspec.numbered with
          ⟨hleaves, hplay, -⟩ | ⟨-, hgiven, -⟩ | ⟨-, -, hplay, -⟩
        · intro hzones
          rw [hplay]
          exact hspec.taken_play_isSome_iff.mpr (hzones.resolve_right hleaves)
        · cases hgiven
        · simp [hplay]
      · rw [hdest]
        intro hleaves play hplay
        rcases hspec.numbered with
          ⟨-, hleft, -⟩ | ⟨henters, -⟩ | ⟨henters, -⟩
        · exact hbelow hleaves taken htaken play (hleft ▸ hplay)
        · exact absurd henters hleaves
        · exact absurd henters hleaves
      · intro hleaves placement hmem play hplay
        rw [placements_welcome, hspec.placed, Multiset.mem_cons] at hmem
        rcases hmem with rfl | hmem
        · simp [Move.landing, hdest, hleaves] at hplay
        · exact hbelow hleaves placement (hbefore placement hmem) play hplay

namespace Game

variable {game after : Game}

theorem EffectPlayed.dated {script : Script} {choice : Choice} {first : PlayId}
    {moves : List Move} {rest : Table}
    (hplayed : game.EffectPlayed script choice first moves rest after)
    (hnumbered : game.ledger.Numbered game.nextPlay) :
    Effect.Dated { Effect.bind game.nextPlay script choice with moves } := by
  obtain ⟨dest, -, hmoved⟩ := relocate_eq_ok hplayed.moved
  have hdated := hmoved.dated fun _ placement hmem play hplay =>
    hnumbered.tied play placement.card.id
      (.inl ⟨placement, hmem, hplay, rfl⟩)
  exact ⟨fun move hmove => (hdated move hmove).1,
    fun move hmove => (hdated move hmove).2⟩

/-- An effect in play with dated moves can be taken back. -/
theorem exists_removeEffect {effect : Effect}
    (hnodup : (game.table.effects.map Effect.play).Nodup)
    (heffect : effect ∈ game.table.effects) (hdated : effect.Dated) :
    ∃ after, game.removeEffect effect.play = .ok (.ok effect, after) := by
  have hfound := Table.effectAt?_of_mem hnodup heffect
  obtain ⟨table, hundone⟩ :=
    (game.table.withoutEffect effect.play).exists_carryOutAll game.nextPlay
      effect.reversedMoves fun reverse hreverse henters =>
        hdated.numbered reverse.inverse
          (Effect.mem_reversedMoves.mp hreverse).2 (.inl henters)
  let after : Game := { game with
    table := table
    strokes := if effect.script.reversalRule.refunds then
      refund game.strokes effect.paid else game.strokes }
  exact ⟨after, removeEffect_eq_ok.mpr
    (.inr ⟨effect, rfl, hfound, hundone, rfl, rfl⟩)⟩

theorem ofTable_eq_ok {rules : Rules} {table : Table} {restored : Game}
    (hrestored : ofTable rules table = .ok restored) :
    restored = { rules, table, nextPlay := restored.nextPlay } ∧
      ∀ used ∈ table.playIds,
        used.number.toNat < restored.nextPlay.number.toNat := by
  simp only [ofTable, bind_eq_ok_iff, pure_eq_ok_iff] at hrestored
  obtain ⟨next, hnext, rfl⟩ := hrestored
  refine ⟨rfl, ?_⟩
  intro used hused
  have hmem := List.mem_map_of_mem (f := PlayId.number) hused
  unfold Table.nextPlay at hnext
  cases hmax : (table.playIds.map PlayId.number).max? with
  | none =>
      rw [List.max?_eq_none_iff] at hmax
      simp [hmax] at hmem
  | some last =>
      rw [hmax] at hnext
      have hlast := List.max?_eq_some_iff.mp hmax
      have hle := UInt32.le_iff_toNat_le.mp (hlast.2 _ hmem)
      have hsucc := PlayId.next_eq_ok_iff.mp hnext
      simp only at hsucc ⊢
      omega

theorem exists_ofTable (rules : Rules) {table : Table} {play : PlayId}
    (hbehind : ∀ used ∈ table.playIds, used.number < play.number) :
    ∃ restored, ofTable rules table = .ok restored ∧
      restored.nextPlay.number.toNat ≤ play.number.toNat := by
  have hnext : ∃ next, table.nextPlay = .ok next ∧
      next.number.toNat ≤ play.number.toNat := by
    unfold Table.nextPlay
    cases hmax : (table.playIds.map PlayId.number).max? with
    | none => exact ⟨⟨0⟩, rfl, Nat.zero_le _⟩
    | some last =>
        obtain ⟨used, hused, rfl⟩ :=
          List.mem_map.mp (List.max?_eq_some_iff.mp hmax).1
        obtain ⟨next, hnext, hsucc⟩ := PlayId.exists_next (hbehind used hused)
        have hlt := UInt32.lt_iff_toNat_lt.mp (hbehind used hused)
        exact ⟨next, hnext, by omega⟩
  obtain ⟨next, hok, hle⟩ := hnext
  exact ⟨_, by rw [ofTable, hok]; rfl, hle⟩

/-- The play numbers stay in order if all records name numbers in front of the
first one that is handed out. -/
theorem ofTable_ledgerOf_numbered {rules : Rules} {restored : Game}
    {recalls : Effect → List Move}
    (hknown : (game.ledgerOf recalls).Numbered game.nextPlay)
    (hrestored : ofTable rules game.table = .ok restored)
    (hrecord : ∀ record ∈ (game.ledgerOf recalls).records, ∀ play,
      record.play = some play →
        play.number.toNat < restored.nextPlay.number.toNat) :
    (restored.ledgerOf recalls).Numbered restored.nextPlay := by
  obtain ⟨hframe, hbehind⟩ := ofTable_eq_ok hrestored
  have htable : restored.table = game.table := by rw [hframe]
  have hledger : restored.ledgerOf recalls = game.ledgerOf recalls := by
    rw [ledgerOf, htable, ledgerOf]
  have hinPlay (placement : Placement) (hmem : placement ∈ game.table.placements)
      (play : PlayId) (hplay : placement.play = some play) :
      play.number.toNat < restored.nextPlay.number.toNat := by
    apply hbehind
    rw [Table.playIds, List.mem_append, ← Multiset.mem_coe,
      ← Table.filterMap_play_placements]
    exact .inl ((Multiset.mem_filterMap _ _).mpr ⟨placement, hmem, hplay⟩)
  rw [hledger]
  refine ⟨hknown.distinct, ?_, ?_, hknown.agree⟩
  · intro play hspent
    rw [Ledger.spent, Multiset.mem_add, Multiset.mem_add] at hspent
    rcases hspent with (hcard | heffect) | hvacated
    · obtain ⟨placement, hmem, hplay⟩ := (Multiset.mem_filterMap _ _).mp hcard
      exact hinPlay placement hmem play hplay
    · exact hbehind play (List.mem_append_right _ heffect)
    · obtain ⟨record, hmem, hplay⟩ := (Multiset.mem_filterMap _ _).mp hvacated
      refine hrecord record hmem play ?_
      unfold Move.vacated? at hplay
      split at hplay
      · exact hplay
      · cases hplay
  · rintro play id (⟨placement, hmem, hplay, -⟩ | ⟨record, hmem, hplay, -⟩)
    · exact hinPlay placement hmem play hplay
    · exact hrecord record hmem play hplay

/-- What holds after every run: the play numbers are in order, the moves of the
effects in play are dated, and the limits of these effects can be summed up. -/
structure Orderly (game : Game) : Prop where
  numbered : game.ledger.Numbered game.nextPlay
  dated : ∀ effect ∈ game.table.effects, effect.Dated
  limited : ¬ game.rules.Exceeded (game.table.scripts.flatMap Script.limits)

theorem perform_limited {action : PlayerAction} {result : Except Refusal Answer}
    (hlimited : ¬ game.rules.Exceeded
      (game.table.scripts.flatMap Script.limits))
    (hperform : game.perform action = .ok (result, after)) :
    ¬ after.rules.Exceeded (after.table.scripts.flatMap Script.limits) := by
  have hkept (hrules : after.rules = game.rules)
      (heffects : after.table.effects = game.table.effects) :
      ¬ after.rules.Exceeded (after.table.scripts.flatMap Script.limits) := by
    rw [hrules, Table.scripts, heffects]
    exact hlimited
  rcases perform_eq_ok hperform with ⟨-, -, rfl⟩ | ⟨answer, -, haccepted⟩
  · exact hlimited
  · cases haccepted with
    | deckStocked cards => exact hlimited
    | cardPlayed hplayed =>
        exact hkept (by rw [hplayed.frame]) (by rw [hplayed.table_frame])
    | deckPlayed _ hplayed =>
        exact hkept (by rw [hplayed.frame]) (by rw [hplayed.table_frame])
    | effectAllowed _ => exact hlimited
    | @effectPlayed script _ _ _ _ _ hplayed =>
        obtain ⟨limits, hlimits, -, -⟩ := canPlay_eq_ok hplayed.allowed
        rw [hplayed.scripts, hplayed.frame]
        exact (Limits.totals_of_resolve hlimits).1
    | cardRemoved hremoved =>
        exact hkept (by rw [hremoved.frame]) (by rw [hremoved.frame])
    | @effectRemoved play effect _ hremoved =>
        rw [Table.scripts, hremoved.effects, hremoved.frame]
        intro hexceeded
        apply hlimited
        exact hexceeded.mono
          ((List.eraseP_sublist.map Effect.script).flatMap _)
    | turnEnded hended =>
        rw [hended.frame]
        exact Rules.not_exceeded_nil _

theorem Reachable.orderly (hreachable : game.Reachable) : game.Orderly := by
  have hdated : ∀ effect ∈ game.table.effects, effect.Dated := by
    refine hreachable.forall_effects fun before _ _ _ _ _ _ hbefore hplayed => ?_
    obtain ⟨rules, actions, hrun⟩ := hbefore
    exact hplayed.dated (ledger_numbered_run hrun)
  obtain ⟨rules, actions, hrun⟩ := hreachable
  refine ⟨ledger_numbered_run hrun, hdated, ?_⟩
  exact run_induction (motive := fun current => ¬ current.rules.Exceeded
      (current.table.scripts.flatMap Script.limits))
    (fun _ _ _ _ hlimited => perform_limited hlimited)
    (Rules.not_exceeded_nil rules) hrun

/-- Every record that can be reversed names a play number that is not behind all
those in use. -/
def RecordsInUse (game : Game) : Prop :=
  ∀ effect ∈ game.table.effects, effect.script.reversalRule.restores = true →
    ∀ move ∈ effect.moves, move.dest = .play → ∀ play, move.play = some play →
      ∃ used ∈ game.table.playIds, play.number ≤ used.number

/-- No number that can come back is handed out a second time then. -/
theorem Orderly.restored_numbered {rules : Rules} {restored : Game}
    (horderly : game.Orderly) (hused : game.RecordsInUse)
    (hrestored : ofTable rules game.table = .ok restored) :
    (restored.ledgerOf Effect.undoable).Numbered restored.nextPlay := by
  obtain ⟨-, hbehind⟩ := ofTable_eq_ok hrestored
  refine ofTable_ledgerOf_numbered
    (ledgerOf_numbered recalls_undoable.made horderly.numbered) hrestored ?_
  intro record hmem play hplay
  obtain ⟨effect, heffect, hundone⟩ := List.mem_flatMap.mp hmem
  obtain ⟨move, hmove, rfl⟩ := List.mem_map.mp hundone
  obtain ⟨hrestores, hmade⟩ := Effect.mem_reversedMoves.mp hmove
  by_cases hdest : move.inverse.dest = .play
  · obtain ⟨used, hmem, hle⟩ :=
      hused effect heffect hrestores move.inverse hmade hdest play hplay
    have hlt := hbehind used hmem
    have hle := UInt32.le_iff_toNat_le.mp hle
    omega
  · have hearly := (horderly.dated effect heffect).vacated move.inverse hmade
      hdest play hplay
    have hlt := hbehind effect.play
      (List.mem_append_right _ (List.mem_map_of_mem heffect))
    omega

end Game

end Tableau
