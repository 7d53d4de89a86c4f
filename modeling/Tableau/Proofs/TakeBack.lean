import Tableau.Proofs.Holdings
import Tableau.Proofs.Numbering

/-!
Taking effects back.  A move that is reversed puts a card at the end of its zone,
so that tables before and after agree in their layout only: which cards lie where
and under which play numbers, in any order.  Main statement:
`takenBack_restores`.
-/

namespace Tableau

namespace Table

/-- The place and the identity of every card of the table. -/
def layout (table : Table) : Multiset (Zone × Option PlayId × CardId) :=
  table.placements.map Placement.spot

theorem filterMap_layout (table : Table) :
    table.layout.filterMap (fun spot => spot.2.1) =
      (table.cards.map InPlay.play : List PlayId) := by
  rw [layout, Multiset.filterMap_map, ← filterMap_play_placements]
  rfl

theorem nodup_plays_of_layout_eq {table other : Table}
    (hlayout : other.layout = table.layout)
    (hnodup : (table.cards.map InPlay.play).Nodup) :
    (other.cards.map InPlay.play).Nodup := by
  rw [← Multiset.coe_nodup, ← filterMap_layout] at hnodup ⊢
  rw [hlayout]
  exact hnodup

/-- Where an identity stands for one card, the layout and the cards say where
every card lies. -/
theorem placements_eq_of_layout_eq {table other : Table}
    (hlayout : other.layout = table.layout)
    (hholdings : other.holdings = table.holdings)
    (hprint : ∀ left ∈ table.holdings, ∀ right ∈ table.holdings,
      left.id = right.id → left = right) :
    other.placements = table.placements := by
  have hrel := Multiset.rel_map.mp (Multiset.rel_eq.mpr hlayout)
  apply Multiset.rel_eq.mp
  apply hrel.mono
  intro left hleft right hright heq
  have hcard : left.card = right.card := by
    refine hprint left.card ?_ right.card ?_ (congrArg (fun spot => spot.2.2) heq)
    · rw [← hholdings, holdings_eq]
      exact Multiset.mem_map_of_mem _ hleft
    · rw [holdings_eq]
      exact Multiset.mem_map_of_mem _ hright
  obtain ⟨zone, play, card⟩ := left
  obtain ⟨zone', play', card'⟩ := right
  simp only [Placement.spot, Prod.mk.injEq] at heq hcard
  rw [heq.1, heq.2.1, hcard]

theorem coe_seats (table : Table) :
    (table.cards.map (fun seat => (seat.play, seat.card)) : Multiset _) =
      table.placements.filterMap
        (fun placement => placement.play.map (·, placement.card)) := by
  simp [placements, InPlay.placement, Function.comp_def]

theorem placement_unique {table : Table} {left right : Placement} {play : PlayId}
    (hnodup : (table.cards.map InPlay.play).Nodup)
    (hleft : left ∈ table.placements) (hright : right ∈ table.placements)
    (hplay : left.play = some play) (hsame : right.play = some play) :
    left = right := by
  rcases mem_placements.mp hleft with
    ⟨seat, hseat, rfl⟩ | ⟨card, -, rfl⟩ | ⟨card, -, rfl⟩
  · rcases mem_placements.mp hright with
      ⟨other, hother, rfl⟩ | ⟨card, -, rfl⟩ | ⟨card, -, rfl⟩
    · have heq : seat.play = other.play :=
        Option.some.inj (hplay.trans hsame.symm)
      rw [List.inj_on_of_nodup_map hnodup hseat hother heq]
    · cases hsame
    · cases hsame
  · cases hplay
  · cases hplay

section Reversal

variable {table after other : Table} {next later : PlayId} {move done : Move}
  {taken : Placement} {rest : Multiset Placement}

theorem Carried.landing_play
    (hspec : table.Carried next move done after later taken rest)
    (hplay : move.play = none) :
    (done.landing taken.card).play =
      if move.dest = .play then some next else none := by
  rcases hspec.numbered with
    ⟨hdest, -, -⟩ | ⟨-, hgiven, -⟩ | ⟨hdest, -, hnew, -⟩
  · simp [Move.landing, hspec.dest_eq, hdest]
  · simp [hplay] at hgiven
  · simp [Move.landing, hspec.dest_eq, hdest, hnew]

theorem Carried.exists_spot_eq
    (hspec : table.Carried next move done after later taken rest)
    (hlayout : other.layout = after.layout) :
    ∃ found ∈ other.placements,
      found.spot = (done.landing taken.card).spot := by
  have hspot : (done.landing taken.card).spot ∈ other.layout := by
    rw [hlayout, layout, hspec.placed]
    exact Multiset.mem_map_of_mem _ (Multiset.mem_cons_self _ _)
  exact Multiset.mem_map.mp hspot

/-- On a table with the layout that a move left, the reverse of the move picks
the card that has moved, or another one with its identity from the same zone. -/
theorem Carried.picks_inverse_iff
    (hspec : table.Carried next move done after later taken rest)
    (hplay : move.play = none)
    (hnodup : (after.cards.map InPlay.play).Nodup)
    (hlayout : other.layout = after.layout) {found : Placement}
    (hfound : found ∈ other.placements) :
    done.inverse.Picks found ↔ found.spot = (done.landing taken.card).spot := by
  have hid : taken.card.id = move.card := by
    simpa [hplay] using hspec.picks.2
  have hland := hspec.landing_play hplay
  have hisSome := play_isSome_iff hfound
  by_cases hdest : move.dest = .play
  · have hnew : done.play = some next := by
      simpa [Move.landing, hspec.dest_eq, hdest] using hland
    constructor
    · intro hpicks
      have hnumber : found.play = some next := by
        simpa [Move.inverse, hspec.dest_eq, hdest, hnew] using hpicks.2
      -- The number of the card that has moved finds one card on both tables.
      obtain ⟨same, hsame, heq⟩ := hspec.exists_spot_eq hlayout
      have hother : same.play = some next := by
        have hplays := congrArg (fun spot => spot.2.1) heq
        simpa [Placement.spot, hland, hdest] using hplays
      rw [placement_unique (nodup_plays_of_layout_eq hlayout hnodup) hfound
        hsame hnumber hother, heq]
    · intro heq
      simp only [Placement.spot, hland, hdest, if_true, Prod.mk.injEq] at heq
      refine ⟨heq.1, ?_⟩
      simp [Move.inverse, hspec.dest_eq, hdest, hnew, heq.2.1]
  · have hzone : (done.landing taken.card).zone = move.dest := hspec.dest_eq
    have hnone : found.zone = move.dest → found.play = none := by
      intro heq
      simpa [heq, hdest] using hisSome
    simp only [Move.Picks, Move.inverse, hspec.dest_eq, hspec.card_eq, hdest,
      false_and, if_false, Placement.spot, Prod.mk.injEq, hzone, hland,
      Move.landing_card, hid]
    constructor
    · rintro ⟨heq, hcard⟩
      exact ⟨heq, hnone heq, hcard⟩
    · rintro ⟨heq, -, hcard⟩
      exact ⟨heq, hcard⟩

theorem Carried.landing_reverse {back : Table} {number final : PlayId}
    {redone : Move} {retaken : Placement} {others : Multiset Placement}
    (hspec : table.Carried next move done after later taken rest)
    (hloop : ¬ (move.source = .play ∧ move.dest = .play))
    (hundo : other.Carried number done.inverse redone back final retaken others)
    (hcard : retaken.card.id = taken.card.id) :
    (redone.landing retaken.card).spot = taken.spot := by
  have hgoal : redone.dest = move.source := hundo.dest_eq.trans hspec.source_eq
  have hland : (redone.landing retaken.card).play = taken.play := by
    by_cases hsource : move.source = .play
    · have hleft := hspec.play_eq hloop hsource
      have hgiven := hspec.taken_play_isSome_iff.mpr hsource
      rcases hundo.numbered with ⟨hdest, -⟩ | ⟨-, -, hold, -⟩ | ⟨-, hnone, -⟩
      · exact absurd (hspec.source_eq.trans hsource) hdest
      · simp [Move.landing, hgoal, hsource, hold, Move.inverse, hleft]
      · simp [← hleft, show done.play = none from hnone] at hgiven
    · have hnone : taken.play = none := by
        simpa [hsource] using hspec.taken_play_isSome_iff
      simp [Move.landing, hgoal, hsource, hnone]
  simp only [Placement.spot, hland, Move.landing_card, hcard, hspec.picks.1,
    Prod.mk.injEq, and_true]
  exact hgoal

/-- The reverse of a move finds the card where the move left it, also on a table
that agrees in its layout only, and brings it back. -/
theorem Carried.reverse
    (hspec : table.Carried next move done after later taken rest)
    (hplay : move.play = none)
    (hloop : ¬ (move.source = .play ∧ move.dest = .play))
    (hnodup : (after.cards.map InPlay.play).Nodup)
    (hlayout : other.layout = after.layout) (number : PlayId) :
    ∃ redone back,
      other.carryOut number done.inverse = .ok (some (redone, back, number)) ∧
      back.layout = table.layout ∧
      ((∀ seat ∈ other.slotted, seat.play ≠ next) →
        back.slotted = other.slotted) := by
  obtain ⟨found, hfound, hsame⟩ := hspec.exists_spot_eq hlayout
  have hpicks := (hspec.picks_inverse_iff hplay hnodup hlayout hfound).mpr hsame
  have hgiven : done.inverse.dest = .play → done.inverse.play.isSome := by
    intro hdest
    have hsource : move.source = .play := hspec.source_eq ▸ hdest
    change done.play.isSome
    rw [hspec.play_eq hloop hsource]
    exact hspec.taken_play_isSome_iff.mpr hsource
  obtain ⟨redone, back, hback⟩ := exists_carryOut number hfound hpicks hgiven
  obtain ⟨retaken, others, hundo⟩ := carryOut_eq_some hback
  have hretaken : retaken.spot = (done.landing taken.card).spot := by
    refine (hspec.picks_inverse_iff hplay hnodup hlayout ?_).mp hundo.picks
    exact hundo.before ▸ Multiset.mem_cons_self _ _
  have hothers : others.map Placement.spot = rest.map Placement.spot := by
    have heq := hlayout
    rw [layout, layout, hundo.before, hspec.placed, Multiset.map_cons,
      Multiset.map_cons, hretaken] at heq
    exact (Multiset.cons_inj_right _).mp heq
  refine ⟨redone, back, hback, ?_, ?_⟩
  · have hspot := hspec.landing_reverse hloop hundo
      (congrArg (fun spot => spot.2.2) hretaken)
    rw [layout, layout, hundo.placed, hspec.before, Multiset.map_cons,
      Multiset.map_cons, hothers, hspot]
  · intro hfresh
    rw [hundo.slotted (nodup_plays_of_layout_eq hlayout hnodup)]
    apply List.filter_eq_self.mpr
    intro seat hseat
    have hne := hfresh seat hseat
    have hnumber : retaken.play = (done.landing taken.card).play :=
      congrArg (fun spot => spot.2.1) hretaken
    rw [hnumber, hspec.landing_play hplay]
    split
    · simpa using hne
    · rfl

end Reversal

/-- Moves one after the other of which none is left out. -/
inductive CarriesAll : Table → PlayId → List Move → Table → PlayId → Prop where
  | nil {table : Table} {next : PlayId} : CarriesAll table next [] table next
  | cons {table moved after : Table} {next middle later : PlayId}
      {move done : Move} {rest : List Move}
      (hcarry : table.carryOut next move = .ok (some (done, moved, middle)))
      (htail : CarriesAll moved middle rest after later) :
      CarriesAll table next (move :: rest) after later

theorem CarriesAll.carryOutAll_eq_ok {table after : Table} {next later : PlayId}
    {moves : List Move} (hall : CarriesAll table next moves after later) :
    table.carryOutAll next moves = .ok (after, later) := by
  induction hall with
  | nil => rfl
  | cons hcarry htail ih =>
      rw [carryOutAll, bind_eq_ok_iff]
      exact ⟨_, hcarry, ih⟩

theorem CarriesAll.concat {table middle after : Table} {next between later : PlayId}
    {moves : List Move} {move done : Move}
    (hall : CarriesAll table next moves middle between)
    (hcarry : middle.carryOut between move = .ok (some (done, after, later))) :
    CarriesAll table next (moves ++ [move]) after later := by
  induction hall with
  | nil => exact .cons hcarry .nil
  | cons hfirst _ ih => exact .cons hfirst (ih hcarry)

section Relocation

variable {source dest : Zone} {targets : List CardId} {table after : Table}
  {next later : PlayId} {moves : List Move} {effects : Multiset PlayId}
  {records : Multiset Move}

theorem Relocated.slotted
    (hmoved : Relocated source dest targets table next moves after later)
    (hloop : ¬ (source = .play ∧ dest = .play))
    (hnumbered : Ledger.Numbered ⟨table.placements, effects, records⟩ next) :
    after.slotted = table.slotted.filter
      (fun seat => seat.play ∉ moves.filterMap Move.vacated?) := by
  induction hmoved generalizing records with
  | nil => simp
  | @cons card rest table moved after next middle later move moves hcarry htail
      ih =>
      obtain ⟨taken, others, hspec⟩ := carryOut_eq_some hcarry
      have hone := hnumbered.moved hspec rfl
      rw [← placements_welcome moved dest] at hone
      have hwelcome : (moved.welcome dest).slotted = moved.slotted := by
        simp [Table.slotted]
      rw [ih hone, hwelcome, hspec.slotted hnumbered.nodup_plays,
        List.filter_filter]
      apply List.filter_congr
      intro seat _
      rw [← hspec.vacated?_eq hloop, List.filterMap_cons]
      cases move.vacated? with
      | none => simp
      | some play => by_cases hsame : seat.play = play <;> simp [hsame]

/-- The moves of a relocation can all be reversed, latest first, on any table
with the layout that it left. -/
theorem Relocated.reverse {other : Table}
    (hmoved : Relocated source dest targets table next moves after later)
    (hloop : ¬ (source = .play ∧ dest = .play))
    (hnumbered : Ledger.Numbered ⟨table.placements, effects, records⟩ next)
    (hlayout : other.layout = after.layout) (number : PlayId) :
    ∃ back,
      CarriesAll other number (moves.reverse.map Move.inverse) back number ∧
      back.layout = table.layout ∧
      (other.slotted ⊆ after.slotted → back.slotted = other.slotted) := by
  induction hmoved generalizing records with
  | nil => exact ⟨other, .nil, hlayout, fun _ => rfl⟩
  | @cons card rest table moved after next middle later move moves hcarry htail
      ih =>
      obtain ⟨taken, others, hspec⟩ := carryOut_eq_some hcarry
      have hone := hnumbered.moved hspec rfl
      have hwelcome := hone
      rw [← placements_welcome moved dest] at hwelcome
      obtain ⟨between, hall, hbetween, hkept⟩ := ih hwelcome hlayout
      have hsame : between.layout = moved.layout := by
        rw [hbetween, layout, placements_welcome, layout]
      obtain ⟨redone, back, hback, hreturned, hslots⟩ :=
        hspec.reverse rfl hloop hone.nodup_plays hsame number
      refine ⟨back, ?_, hreturned, ?_⟩
      · rw [List.reverse_cons, List.map_append]
        exact hall.concat hback
      · intro hsub
        have hmiddle := hkept hsub
        rw [hslots ?_, hmiddle]
        intro seat hseat
        have hslotted := (Relocated.cons hcarry htail).slotted hloop hnumbered
        rw [hmiddle] at hseat
        have hafter := hsub hseat
        rw [hslotted] at hafter
        exact hnumbered.play_ne (List.mem_of_mem_filter
          (List.mem_of_mem_filter hafter))

end Relocation

end Table

section LastEffect

variable {table other : Table} {effect : Effect}

theorem Table.effectAt?_of_append
    (heffects : other.effects = table.effects ++ [effect])
    (hfresh : ∀ earlier ∈ table.effects, earlier.play ≠ effect.play) :
    other.effectAt? effect.play = some effect := by
  have hnone : table.effects.find? (fun earlier => earlier.play == effect.play) =
      none := List.find?_eq_none.mpr (by simpa using hfresh)
  rw [effectAt?, heffects, List.find?_append, hnone]
  simp

theorem Table.effects_withoutEffect_of_append
    (heffects : other.effects = table.effects ++ [effect])
    (hfresh : ∀ earlier ∈ table.effects, earlier.play ≠ effect.play) :
    (other.withoutEffect effect.play).effects = table.effects := by
  change other.effects.eraseP (fun earlier => earlier.play == effect.play) = _
  rw [heffects, List.eraseP_append_right _ (by simpa using hfresh)]
  simp

end LastEffect

namespace Game

section Effects

variable {game after other : Game} {script : Script} {choice : Choice}
  {first : PlayId} {moves : List Move} {rest : Table}

theorem effect_play_ne (hnumbered : game.ledger.Numbered game.nextPlay)
    {effect : Effect} (heffect : effect ∈ game.table.effects) :
    effect.play ≠ game.nextPlay := by
  intro heq
  refine Nat.lt_irrefl _ (hnumbered.below game.nextPlay ?_)
  refine Multiset.mem_add.mpr (.inl (Multiset.mem_add.mpr (.inr ?_)))
  exact List.mem_map.mpr ⟨effect, heffect, heq⟩

/-- An effect that was played can be taken back with all its moves, on any table
with the layout and the effects that it left, and this restores the layout and
the effects from before. -/
theorem EffectPlayed.takenBack
    (hplayed : game.EffectPlayed script choice first moves rest after)
    (hnumbered : game.ledger.Numbered game.nextPlay)
    (hrestores : script.reversalRule.restores = true) (hloop : ¬ script.IsLoop)
    (hlayout : other.table.layout = after.table.layout)
    (heffects : other.table.effects = after.table.effects) :
    ∃ effect back, other.EffectRemoved game.nextPlay effect back ∧
      effect.script = script ∧ effect.paid = script.cost ∧
      (other.table.withoutEffect game.nextPlay).CarriesAll other.nextPlay
        effect.undoMoves back.table back.nextPlay ∧
      back.table.layout = game.table.layout ∧
      back.table.effects = game.table.effects ∧
      (other.table.slotted ⊆ after.table.slotted →
        back.table.slotted = other.table.slotted) := by
  obtain ⟨dest, hstays, hmoved⟩ := hplayed.relocated hloop
  let effect : Effect := { Effect.bind game.nextPlay script choice with moves }
  have hadded : other.table.effects = game.table.effects ++ [effect] := by
    rw [heffects, hplayed.table, hmoved.frame]
  have hfresh : ∀ earlier ∈ game.table.effects, earlier.play ≠ effect.play :=
    fun _ hearlier => effect_play_ne hnumbered hearlier
  have hstart : (other.table.withoutEffect game.nextPlay).layout =
      rest.layout := by
    change other.table.layout = rest.layout
    rw [hlayout, hplayed.table]
    rfl
  obtain ⟨back, hall, hback, hslotted⟩ := hmoved.reverse hstays
    (hplayed.numbered_first hnumbered) hstart other.nextPlay
  have hundone := hall.carryOutAll_eq_ok
  have hundo : effect.reversedMoves = effect.undoMoves := if_pos hrestores
  have hafter : rest.slotted = after.table.slotted := by
    rw [hplayed.table]
    rfl
  let strokes := if script.reversalRule.refunds then
    refund other.strokes script.cost else other.strokes
  refine ⟨effect, { other with table := back, strokes }, ?_, rfl, rfl, hall,
    hback, ?_, ?_⟩
  · exact ⟨Table.effectAt?_of_append hadded hfresh, hundo ▸ hundone, rfl, rfl⟩
  · rw [Table.carryOutAll_frame hundone]
    exact Table.effects_withoutEffect_of_append hadded hfresh
  · intro hsub
    exact hslotted (hafter ▸ hsub)

theorem refund_of_addCounts {before cost after : UInt32}
    (hpaid : addCounts before cost = .ok after) : refund after cost = before := by
  have hsum := addCounts_eq_ok_iff.mp hpaid
  have hle : cost ≤ after := UInt32.le_iff_toNat_le.mpr (by omega)
  have hback := refund_toNat hle
  apply UInt32.toNat_inj.mp
  omega

/-- Two games agree in all that is restored when effects are taken back: in the
cards and where they lie, up to their order, and in the rest exactly. -/
structure Alike (game other : Game) : Prop where
  layout : other.table.layout = game.table.layout
  holdings : other.table.holdings = game.table.holdings
  effects : other.table.effects = game.table.effects
  strokes : other.strokes = game.strokes
  turn : other.table.turn = game.table.turn
  carry : other.table.carry = game.table.carry

theorem Alike.takeBack
    (halike : after.Alike other)
    (hplayed : game.EffectPlayed script choice first moves rest after)
    (hnumbered : game.ledger.Numbered game.nextPlay)
    (hreversal : script.reversalRule = {}) (hloop : ¬ script.IsLoop) :
    ∃ effect back, other.removeEffect game.nextPlay = .ok (.ok effect, back) ∧
      (other.table.withoutEffect game.nextPlay).CarriesAll other.nextPlay
        effect.undoMoves back.table back.nextPlay ∧
      game.Alike back := by
  obtain ⟨effect, back, hremoved, hscript, hpaid, hall, hlayout, heffects, -⟩ :=
    hplayed.takenBack hnumbered (by rw [hreversal]) hloop halike.layout
      halike.effects
  refine ⟨effect, back, removeEffect_eq_ok.mpr (.inr ⟨effect, rfl, hremoved⟩),
    hall, hlayout, ?_, heffects, ?_, ?_, ?_⟩
  · rw [hremoved.holdings, halike.holdings, hplayed.holdings]
  · rw [hremoved.refunded, hscript, hreversal, hpaid, halike.strokes]
    exact refund_of_addCounts hplayed.paid
  · rw [hremoved.table_frame]
    exact halike.turn.trans (by rw [hplayed.table_frame])
  · rw [hremoved.table_frame]
    exact halike.carry.trans (by rw [hplayed.table_frame])

end Effects

/-- Effects are played one after the other; the latest is listed first.  Each can
be taken back in full, and none moves cards within the play area. -/
inductive Played (game : Game) : List PlayId → Game → Prop where
  | nil : Played game [] game
  | cons {plays : List PlayId} {middle after : Game} {script : Script}
      {choice : Choice} {play : PlayId}
      (hplayed : Played game plays middle)
      (hplay : middle.playEffect script choice = .ok (.ok play, after))
      (hreversal : script.reversalRule = {}) (hloop : ¬ script.IsLoop) :
      Played game (play :: plays) after

/-- Effects are taken back one after the other, and none of their moves is left
out. -/
inductive TakenBack : Game → List PlayId → Game → Prop where
  | nil {game : Game} : TakenBack game [] game
  | cons {plays : List PlayId} {game middle after : Game} {play : PlayId}
      {effect : Effect}
      (hremove : game.removeEffect play = .ok (.ok effect, middle))
      (hall : (game.table.withoutEffect play).CarriesAll game.nextPlay
        effect.undoMoves middle.table middle.nextPlay)
      (htail : TakenBack middle plays after) :
      TakenBack game (play :: plays) after

theorem Played.ledger_numbered {game after : Game} {plays : List PlayId}
    (hplayed : game.Played plays after)
    (hnumbered : game.ledger.Numbered game.nextPlay) :
    after.ledger.Numbered after.nextPlay := by
  induction hplayed with
  | nil => exact hnumbered
  | cons _ hplay _ _ ih =>
      rcases playEffect_eq_ok hplay with ⟨_, hfault, -⟩ | ⟨-, _, _, _, hone⟩
      · cases hfault
      · exact hone.ledgerOf_numbered recalls_moves ih

/-- From any game like the one after the last effect, taking the effects back
leads to a game like the one before the first. -/
theorem Played.takenBack {game after other : Game} {plays : List PlayId}
    (hplayed : game.Played plays after)
    (hnumbered : game.ledger.Numbered game.nextPlay)
    (halike : after.Alike other) :
    ∃ back, other.TakenBack plays back ∧ game.Alike back := by
  induction hplayed generalizing other with
  | nil => exact ⟨other, .nil, halike⟩
  | cons hearlier hplay hreversal hloop ih =>
      rcases playEffect_eq_ok hplay with
        ⟨_, hfault, -⟩ | ⟨hnumber, _, _, _, hone⟩
      · cases hfault
      · cases hnumber
        obtain ⟨effect, middle, hremove, hall, hmiddle⟩ :=
          halike.takeBack hone (hearlier.ledger_numbered hnumbered) hreversal
            hloop
        obtain ⟨back, hback, hlike⟩ := ih hmiddle
        exact ⟨back, .cons hremove hall hback, hlike⟩

/-- Effects that were played one after the other can be taken back in reverse
order, with every move that they made.  This restores every zone, up to the order
of its cards, the effects in play, the strokes, the turn and the carry-over. -/
theorem takenBack_restores {game after : Game} {plays : List PlayId}
    (hreachable : game.Reachable)
    (hprint : ∀ left ∈ game.table.holdings, ∀ right ∈ game.table.holdings,
      left.id = right.id → left = right)
    (hplayed : game.Played plays after) :
    ∃ back, after.TakenBack plays back ∧
      back.table.deck.Perm game.table.deck ∧
      back.table.discard.Perm game.table.discard ∧
      (back.table.cards.map (fun seat => (seat.play, seat.card))).Perm
        (game.table.cards.map (fun seat => (seat.play, seat.card))) ∧
      back.table.effects = game.table.effects ∧
      back.strokes = game.strokes ∧
      back.table.turn = game.table.turn ∧
      back.table.carry = game.table.carry := by
  obtain ⟨rules, actions, hrun⟩ := hreachable
  obtain ⟨back, hback, hlike⟩ := hplayed.takenBack (ledger_numbered_run hrun)
    ⟨rfl, rfl, rfl, rfl, rfl, rfl⟩
  have hplacements := Table.placements_eq_of_layout_eq hlike.layout
    hlike.holdings hprint
  have hzone : ∀ zone, (back.table.cardsIn zone).Perm
      (game.table.cardsIn zone) := by
    intro zone
    rw [← Multiset.coe_eq_coe, Table.coe_cardsIn, Table.coe_cardsIn, hplacements]
  refine ⟨back, hback, hzone .deck, hzone .discard, ?_, hlike.effects,
    hlike.strokes, hlike.turn, hlike.carry⟩
  rw [← Multiset.coe_eq_coe, Table.coe_seats, Table.coe_seats, hplacements]

def roxyAndMia : Game :=
  { table :=
      { cards := [⟨⟨0⟩, ⟨⟨2⟩, "Mia", .alt, 4⟩, false⟩]
        deck := [⟨⟨1⟩, "Roxy", .goth, 3⟩]
        history := ["Mia"] }
    nextPlay := ⟨1⟩ }

/-- The card from the deck is called into play and the other one is banished;
both effects are taken back. -/
theorem takenBack_restores_roxyAndMia :
    ∃ after back, roxyAndMia.Played [⟨3⟩, ⟨1⟩] after ∧
      after.TakenBack [⟨3⟩, ⟨1⟩] back ∧
      back.table.deck.Perm roxyAndMia.table.deck ∧
      back.table.discard.Perm roxyAndMia.table.discard ∧
      (back.table.cards.map (fun seat => (seat.play, seat.card))).Perm
        (roxyAndMia.table.cards.map (fun seat => (seat.play, seat.card))) ∧
      back.table.effects = roxyAndMia.table.effects ∧
      back.strokes = roxyAndMia.strokes ∧
      back.table.turn = roxyAndMia.table.turn ∧
      back.table.carry = roxyAndMia.table.carry := by
  have hreachable : roxyAndMia.Reachable :=
    ⟨{}, [.stockDeck [⟨⟨1⟩, "Roxy", .goth, 3⟩],
      .playCard ⟨⟨2⟩, "Mia", .alt, 4⟩], rfl⟩
  obtain ⟨called, after, hcall, hbanish⟩ : ∃ called after,
      roxyAndMia.playEffect (.mover "Call" .deck .play) { targets := [⟨1⟩] } =
        .ok (.ok ⟨1⟩, called) ∧
      called.playEffect (.mover "Banish" .play .discard) { targets := [⟨2⟩] } =
        .ok (.ok ⟨3⟩, after) := ⟨_, _, rfl, rfl⟩
  have hplayed : roxyAndMia.Played [⟨3⟩, ⟨1⟩] after :=
    .cons (.cons .nil hcall rfl (by decide)) hbanish rfl (by decide)
  obtain ⟨back, hback⟩ := takenBack_restores hreachable (by decide) hplayed
  exact ⟨after, back, hplayed, hback⟩

end Game

end Tableau
