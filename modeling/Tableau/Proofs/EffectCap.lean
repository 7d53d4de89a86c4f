import Tableau.Proofs.Actions
import Tableau.Proofs.Verdict

/-!
The two gates that an effect cap passes.  The cap of a script is checked by the
limits that are in force with its effect in play, and once more by the script
itself.  The second gate only ever closes while there is no effect limit at all.
Main statement: `canPlay_effectCap`.
-/

namespace Tableau

theorem Limits.effects_le_of_mem {rules : Rules} {scripts : List Script}
    {carry : Option CarryOver} {limits : Limits} {script : Script} {most : UInt32}
    (hlimits : resolve rules scripts carry = .ok limits)
    (hmem : script ∈ scripts) (hcap : .effectCap most ∈ script.limits) :
    limits.effects.toNat ≤ most.toNat := by
  have hdeclared := LimitRule.mem_effectCaps.mpr
    (List.mem_flatMap.mpr ⟨script, hmem, hcap⟩)
  rw [(totals_of_resolve hlimits).2.effects, List.foldl_min]
  exact (Nat.min_le_right _ _).trans
    (List.min?_getD_le_of_mem (List.mem_map_of_mem hdeclared))

namespace Game

/-- The limits that are in force with an effect of the script in play. -/
def limitsWith (game : Game) (script : Script) : Checked Limits :=
  Limits.resolve game.rules (game.table.scripts ++ [script]) game.table.carry

variable {game : Game} {script : Script}

theorem canPlay_eq_ineligible {obstacle : Obstacle}
    (hbarred : game.canPlay script = .ok (.error (.ineligible obstacle))) :
    ∃ limits, game.limitsWith script = .ok limits ∧
      limits.checkEffect game.table = .ok () ∧
      script.check game.rules game.table = .ok (.error obstacle) := by
  rw [canPlay, bind_eq_ok_iff] at hbarred
  obtain ⟨limits, hlimits, hbarred⟩ := hbarred
  cases heffect : limits.checkEffect game.table with
  | error fault => simp [heffect, pure_eq_ok_iff] at hbarred
  | ok room =>
      simp only [heffect, bind_eq_ok_iff] at hbarred
      obtain ⟨verdict, hverdict, hbarred⟩ := hbarred
      cases verdict with
      | error found =>
          simp only [pure_eq_ok_iff, Except.error.injEq,
            Refusal.ineligible.injEq] at hbarred
          exact ⟨limits, hlimits, heffect, hbarred ▸ hverdict⟩
      | ok eligible => simp [pure_eq_ok_iff] at hbarred

/-- Where there is an effect limit, passing it leaves room under every cap of the
script. -/
theorem lt_effectCap_of_checkEffect {limits : Limits} {most : UInt32}
    (hsize : game.table.effects.length < UInt32.size)
    (hlimits : game.limitsWith script = .ok limits)
    (hlimited : ¬ limits.openEffects = true)
    (hcheck : limits.checkEffect game.table = .ok ())
    (hcap : .effectCap most ∈ script.limits) :
    game.table.effects.length < most.toNat := by
  have hroom := (Limits.checkEffect_eq_ok_iff hsize).mp hcheck
  have hle := Limits.effects_le_of_mem hlimits
    (List.mem_append_right _ List.mem_cons_self) hcap
  exact Nat.lt_of_lt_of_le (hroom.resolve_left hlimited) hle

/-- The script itself finds its cap reached only while there is no effect limit, for
otherwise passing the effect limit leaves room under the cap.  The limits that the
play of an effect is checked against are those in force after it. -/
theorem canPlay_effectCap (game : Game) (script : Script)
    (hsize : game.table.effects.length < UInt32.size) :
    (∀ cap, game.canPlay script =
        .ok (.error (.ineligible (.effectCapReached cap))) →
      ∃ limits, game.limitsWith script = .ok limits ∧
        limits.openEffects = true) ∧
    (∀ limits, game.limitsWith script = .ok limits →
      ¬ limits.openEffects = true → limits.checkEffect game.table = .ok () →
      ∀ cap, script.effectCap = some cap →
        game.table.effects.length < cap.toNat) ∧
    ∀ choice play after,
      game.playEffect script choice = .ok (.ok play, after) →
      ∃ limits, game.limitsWith script = .ok limits ∧
        limits.checkEffect game.table = .ok () ∧
        Limits.ofTable after.rules after.table = .ok limits := by
  refine ⟨?_, ?_, ?_⟩
  · intro cap hbarred
    obtain ⟨limits, hlimits, hroom, hcheck⟩ := canPlay_eq_ineligible hbarred
    refine ⟨limits, hlimits, ?_⟩
    by_contra hlimited
    have hfree : script.checkCap game.table.effects = .ok () :=
      (Script.checkCap_eq_ok_iff hsize).mpr fun most hcap =>
        lt_effectCap_of_checkEffect hsize hlimits hlimited hroom hcap
    have hreached := Script.checkCap_of_checkWithout hcheck
    rw [filter_play_ne_none, hfree] at hreached
    cases hreached
  · intro limits hlimits hlimited hroom cap hcap
    exact lt_effectCap_of_checkEffect hsize hlimits hlimited hroom
      (Script.effectCap_eq_some_iff.mp hcap).1
  · intro choice play after hplay
    rcases playEffect_eq_ok hplay with ⟨_, hfault, -⟩ | ⟨-, _, _, _, hplayed⟩
    · cases hfault
    · obtain ⟨limits, hlimits, hroom, -⟩ := canPlay_eq_ok hplayed.allowed
      exact ⟨limits, hlimits, hroom, hplayed.ofTable_eq.trans hlimits⟩

def openHouse : Game :=
  { table := { effects :=
      [.bind ⟨0⟩ { id := ⟨1⟩, name := "Crowd", limits := [.openEffects] } {}] }
    nextPlay := ⟨1⟩ }

def quietHouse : Game :=
  { table := { effects := [.bind ⟨0⟩ { id := ⟨1⟩, name := "Guest" } {}] }
    nextPlay := ⟨1⟩ }

def capped (most : UInt32) : Script :=
  { id := ⟨2⟩, name := "Solo", limits := [.effectCap 3, .effectCap most] }

/-- Without an effect limit the cap itself stops the effect; with one, room under
the limit is room under the cap, and the limits stay as they were checked. -/
theorem canPlay_effectCap_houses :
    openHouse.canPlay (capped 1) =
        .ok (.error (.ineligible (.effectCapReached 1))) ∧
      (∃ limits, openHouse.limitsWith (capped 1) = .ok limits ∧
        limits.openEffects = true) ∧
      ∃ limits after, quietHouse.limitsWith (capped 2) = .ok limits ∧
        quietHouse.playEffect (capped 2) {} = .ok (.ok ⟨1⟩, after) ∧
        quietHouse.table.effects.length < (2 : UInt32).toNat ∧
        Limits.ofTable after.rules after.table = .ok limits := by
  have hbarred : openHouse.canPlay (capped 1) =
      .ok (.error (.ineligible (.effectCapReached 1))) := by decide
  obtain ⟨hopen, -, -⟩ := canPlay_effectCap openHouse (capped 1) (by decide)
  obtain ⟨-, hcap, hforce⟩ := canPlay_effectCap quietHouse (capped 2) (by decide)
  obtain ⟨after, hplay⟩ : ∃ after, quietHouse.playEffect (capped 2) {} =
      .ok (.ok ⟨1⟩, after) := ⟨_, rfl⟩
  obtain ⟨limits, hlimits, hroom, hafter⟩ := hforce {} ⟨1⟩ after hplay
  have hlimited : ¬ limits.openEffects = true := by
    cases hlimits
    decide
  exact ⟨hbarred, hopen 1 hbarred, limits, after, hlimits, hplay,
    hcap limits hlimits hlimited hroom 2 (by decide), hafter⟩

end Game

end Tableau
