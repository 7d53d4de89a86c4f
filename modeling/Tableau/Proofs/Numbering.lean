import Mathlib.Data.Multiset.Range
import Tableau.Proofs.Actions

/-!
Play numbers over the runs of a game.  A number stays spent while a card or an
effect is in play under it, and also while an effect remembers that it took a
card out of play under it: taking that effect back brings the number back.
Main statement: `run_playIds`.
-/

namespace Tableau

/-- The play number that a recorded move has taken out of play. -/
def Move.vacated? (move : Move) : Option PlayId :=
  if move.source = .play ∧ move.dest ≠ .play then move.play else none

/-- What decides which play numbers are spent: the places of the cards, the play
numbers of the effects in play, and the moves that the effects remember. -/
structure Ledger where
  placements : Multiset Placement
  effects : Multiset PlayId
  records : Multiset Move

namespace Ledger

def spent (ledger : Ledger) : Multiset PlayId :=
  ledger.placements.filterMap Placement.play + ledger.effects +
    ledger.records.filterMap Move.vacated?

/-- A card in play or a recorded move ties the play number to the card. -/
def Ties (ledger : Ledger) (play : PlayId) (id : CardId) : Prop :=
  (∃ placement ∈ ledger.placements,
    placement.play = some play ∧ placement.card.id = id) ∨
  ∃ record ∈ ledger.records, record.play = some play ∧ record.card = id

/-- Play numbers are in order: `next` is not spent yet. -/
structure Numbered (ledger : Ledger) (next : PlayId) : Prop where
  distinct : ledger.spent.Nodup
  below : ∀ play ∈ ledger.spent, play.number.toNat < next.number.toNat
  tied : ∀ play id, ledger.Ties play id → play.number.toNat < next.number.toNat
  agree : ∀ play left right,
    ledger.Ties play left → ledger.Ties play right → left = right

variable {ledger later : Ledger} {next after : PlayId}

/-- Spending less and tying less keeps the order. -/
theorem Numbered.shrink (hnumbered : ledger.Numbered next)
    (hspent : later.spent ≤ ledger.spent)
    (hties : ∀ play id, later.Ties play id → ledger.Ties play id) :
    later.Numbered next where
  distinct := Multiset.nodup_of_le hspent hnumbered.distinct
  below play hplay := hnumbered.below play (Multiset.mem_of_le hspent hplay)
  tied play id htie := hnumbered.tied play id (hties play id htie)
  agree play left right hleft hright :=
    hnumbered.agree play left right (hties play left hleft)
      (hties play right hright)

/-- Handing out the next number, for one card or one effect, keeps the order. -/
theorem Numbered.grow (hnumbered : ledger.Numbered next) (card : CardId)
    (hafter : next.next = .ok after)
    (hspent : later.spent ≤ next ::ₘ ledger.spent)
    (hties : ∀ play id, later.Ties play id →
      ledger.Ties play id ∨ play = next ∧ id = card) :
    later.Numbered after := by
  have hnext := PlayId.next_eq_ok_iff.mp hafter
  have hfresh : next ∉ ledger.spent := fun hmem =>
    Nat.lt_irrefl _ (hnumbered.below next hmem)
  have hloose : ∀ id, ¬ ledger.Ties next id := fun id htie =>
    Nat.lt_irrefl _ (hnumbered.tied next id htie)
  refine ⟨?_, ?_, ?_, ?_⟩
  · exact Multiset.nodup_of_le hspent
      (Multiset.nodup_cons.mpr ⟨hfresh, hnumbered.distinct⟩)
  · intro play hplay
    rcases Multiset.mem_cons.mp (Multiset.mem_of_le hspent hplay) with
      rfl | hplay
    · omega
    · have hbelow := hnumbered.below play hplay
      omega
  · intro play id htie
    rcases hties play id htie with htie | ⟨rfl, -⟩
    · have hbelow := hnumbered.tied play id htie
      omega
    · omega
  · intro play left right hleft hright
    rcases hties play left hleft with hleft | ⟨rfl, rfl⟩
    · rcases hties play right hright with hright | ⟨rfl, rfl⟩
      · exact hnumbered.agree play left right hleft hright
      · exact absurd hleft (hloose left)
    · rcases hties play right hright with hright | ⟨-, rfl⟩
      · exact absurd hright (hloose right)
      · rfl

/-- There are no more spent numbers than numbers that were handed out. -/
theorem Numbered.card_spent_le (hnumbered : ledger.Numbered next) :
    ledger.spent.card ≤ next.number.toNat := by
  have hinj : Function.Injective fun play : PlayId => play.number.toNat := by
    rintro ⟨left⟩ ⟨right⟩ heq
    exact congrArg PlayId.mk (UInt32.toNat_inj.mp heq)
  have hnodup := hnumbered.distinct.map hinj
  have hsub : ledger.spent.map (fun play => play.number.toNat) ⊆
      Multiset.range next.number.toNat := by
    intro number hnumber
    obtain ⟨play, hplay, rfl⟩ := Multiset.mem_map.mp hnumber
    exact Multiset.mem_range.mpr (hnumbered.below play hplay)
  have hcard := Multiset.card_le_card
    ((Multiset.le_iff_subset hnodup).mpr hsub)
  rwa [Multiset.card_map, Multiset.card_range] at hcard

section Entries

variable {placement : Placement} {placements : Multiset Placement}
  {effects : Multiset PlayId} {record : Move} {records : Multiset Move}
  {play : PlayId} {id : CardId}

theorem spent_placement :
    spent ⟨placement ::ₘ placements, effects, records⟩ =
      placement.play.toList + spent ⟨placements, effects, records⟩ := by
  simp only [spent, Multiset.filterMap_cons, Multiset.add_assoc]
  cases placement.play <;> rfl

theorem spent_effect :
    spent ⟨placements, play ::ₘ effects, records⟩ =
      play ::ₘ spent ⟨placements, effects, records⟩ := by
  simp [spent]

theorem spent_record :
    spent ⟨placements, effects, record ::ₘ records⟩ =
      record.vacated?.toList + spent ⟨placements, effects, records⟩ := by
  simp only [spent, Multiset.filterMap_cons]
  rw [add_left_comm]
  cases record.vacated? <;> rfl

theorem ties_placement :
    Ties ⟨placement ::ₘ placements, effects, records⟩ play id ↔
      placement.play = some play ∧ placement.card.id = id ∨
        Ties ⟨placements, effects, records⟩ play id := by
  simp [Ties, or_assoc]

theorem ties_record :
    Ties ⟨placements, effects, record ::ₘ records⟩ play id ↔
      record.play = some play ∧ record.card = id ∨
        Ties ⟨placements, effects, records⟩ play id := by
  simp [Ties, or_left_comm]

theorem Numbered.mono {placements' : Multiset Placement}
    {effects' : Multiset PlayId} {records' : Multiset Move} {next : PlayId}
    (hnumbered : Numbered ⟨placements, effects, records⟩ next)
    (hplacements : placements' ≤ placements) (heffects : effects' ≤ effects)
    (hrecords : records' ≤ records) :
    Numbered ⟨placements', effects', records'⟩ next := by
  apply hnumbered.shrink
  · exact add_le_add
      (add_le_add (Multiset.filterMap_le_filterMap _ hplacements) heffects)
      (Multiset.filterMap_le_filterMap _ hrecords)
  · rintro play id (⟨placement, hmem, htie⟩ | ⟨record, hmem, htie⟩)
    · exact .inl ⟨placement, Multiset.mem_of_le hplacements hmem, htie⟩
    · exact .inr ⟨record, Multiset.mem_of_le hrecords hmem, htie⟩

theorem Numbered.idle {next : PlayId}
    (hnumbered : Numbered ⟨placements, effects, records⟩ next)
    (hplay : placement.play = none) :
    Numbered ⟨placement ::ₘ placements, effects, records⟩ next := by
  refine hnumbered.shrink (le_of_eq ?_) ?_
  · simp [spent_placement, hplay]
  · intro play id htie
    simpa [ties_placement, hplay] using htie

theorem Numbered.enter {next after : PlayId}
    (hnumbered : Numbered ⟨placements, effects, records⟩ next)
    (hafter : next.next = .ok after) (hplay : placement.play = some next) :
    Numbered ⟨placement ::ₘ placements, effects, records⟩ after := by
  refine hnumbered.grow placement.card.id hafter (le_of_eq ?_) ?_
  · rw [spent_placement, hplay]
    rfl
  · intro play id htie
    rw [ties_placement, hplay, Option.some.injEq] at htie
    rcases htie with ⟨rfl, rfl⟩ | htie
    · exact .inr ⟨rfl, rfl⟩
    · exact .inl htie

/-- It does not matter whether a card is in play under a number or a record has
taken it out of play under that number. -/
theorem numbered_vacate_iff {next : PlayId}
    (hvacated : record.vacated? = placement.play)
    (hplay : record.play = placement.play)
    (hcard : record.card = placement.card.id) :
    Numbered ⟨placements, effects, record ::ₘ records⟩ next ↔
      Numbered ⟨placement ::ₘ placements, effects, records⟩ next := by
  have hspent : spent ⟨placements, effects, record ::ₘ records⟩ =
      spent ⟨placement ::ₘ placements, effects, records⟩ := by
    rw [spent_record, spent_placement, hvacated]
  have hties : ∀ play id, Ties ⟨placements, effects, record ::ₘ records⟩ play id ↔
      Ties ⟨placement ::ₘ placements, effects, records⟩ play id := by
    intro play id
    rw [ties_record, ties_placement, hplay, hcard]
  constructor
  · intro hnumbered
    exact hnumbered.shrink hspent.ge fun play id => (hties play id).mpr
  · intro hnumbered
    exact hnumbered.shrink hspent.le fun play id => (hties play id).mp

end Entries

end Ledger

section Moves

variable {table after : Table} {next later : PlayId} {move done : Move}
  {taken : Placement} {rest : Multiset Placement} {effects : Multiset PlayId}
  {records : Multiset Move}

theorem Table.Carried.vacated?_eq
    (hspec : table.Carried next move done after later taken rest)
    (hloop : ¬ (move.source = .play ∧ move.dest = .play)) :
    done.vacated? = taken.play := by
  by_cases hsource : move.source = .play
  · have hdest : move.dest ≠ .play := fun hdest => hloop ⟨hsource, hdest⟩
    rw [← hspec.play_eq hloop hsource, Move.vacated?, hspec.source_eq,
      hspec.dest_eq, if_pos ⟨hsource, hdest⟩]
  · have hnone : taken.play = none := by
      simpa [hsource] using hspec.taken_play_isSome_iff
    simp [Move.vacated?, hspec.source_eq, hsource, hnone]

/-- A target that is moved brings no old number back.  The number under which it
leaves the table goes over to the record of the move. -/
theorem Ledger.Numbered.moved
    (hnumbered : Ledger.Numbered ⟨table.placements, effects, records⟩ next)
    (hspec : table.Carried next move done after later taken rest)
    (hplay : move.play = none) :
    Ledger.Numbered ⟨after.placements, effects, done ::ₘ records⟩ later := by
  have hid : taken.card.id = move.card := by
    simpa [hplay] using hspec.picks.2
  rw [hspec.before] at hnumbered
  rw [hspec.placed]
  rcases hspec.numbered with
    ⟨hdest, hleft, rfl⟩ | ⟨-, hgiven, -, -⟩ | ⟨hdest, -, hnew, hnext⟩
  · have hland : (done.landing taken.card).play = none := by
      simp [Move.landing, hspec.dest_eq, hdest]
    have hvacated := hspec.vacated?_eq (fun hloop => hdest hloop.2)
    have hcard : done.card = taken.card.id := hspec.card_eq.trans hid.symm
    exact ((numbered_vacate_iff hvacated hleft hcard).mpr hnumbered).idle hland
  · simp [hplay] at hgiven
  · have hland : (done.landing taken.card).play = some next := by
      simp [Move.landing, hspec.dest_eq, hdest, hnew]
    have hvacated : done.vacated? = none := by
      simp [Move.vacated?, hspec.dest_eq, hdest]
    apply hnumbered.grow move.card hnext
    · simp only [spent_placement, spent_record, hland, hvacated,
        Option.toList_none, Multiset.coe_nil, zero_add]
      exact Multiset.cons_le_cons next (Multiset.le_add_left _ _)
    · intro play id htie
      simp only [ties_placement, ties_record, hland, hnew, hspec.card_eq,
        Move.landing_card, hid, Option.some.injEq] at htie ⊢
      rcases htie with ⟨rfl, rfl⟩ | ⟨rfl, rfl⟩ | htie
      · exact .inr ⟨rfl, rfl⟩
      · exact .inr ⟨rfl, rfl⟩
      · exact .inl (.inr htie)

/-- A move that is taken back spends no number that it had not spent before.  A
card that comes back under its old number takes it over from the record. -/
theorem Ledger.Numbered.undone
    (hnumbered : Ledger.Numbered
      ⟨table.placements, effects, move.inverse ::ₘ records⟩ next)
    (hspec : table.Carried next move done after later taken rest) :
    Ledger.Numbered ⟨after.placements, effects, records⟩ later := by
  rw [hspec.before] at hnumbered
  rw [hspec.placed]
  have hrest : Ledger.Numbered ⟨rest, effects, records⟩ next :=
    hnumbered.mono (Multiset.le_cons_self _ _) le_rfl (Multiset.le_cons_self _ _)
  rcases hspec.numbered with
    ⟨hdest, -, rfl⟩ | ⟨hdest, hgiven, hold, rfl⟩ | ⟨hdest, -, hnew, hnext⟩
  · have hland : (done.landing taken.card).play = none := by
      simp [Move.landing, hspec.dest_eq, hdest]
    exact hrest.idle hland
  · have hland : (done.landing taken.card).play = move.play := by
      simp [Move.landing, hspec.dest_eq, hdest, hold]
    by_cases hsource : move.source = .play
    · -- The card leaves play and comes back under the same number.
      have htaken : taken.play = move.play := by
        simpa [hsource, hgiven] using hspec.picks.2
      have hkept := hnumbered.mono le_rfl le_rfl (Multiset.le_cons_self _ _)
      refine hkept.shrink (le_of_eq ?_) ?_
      · rw [spent_placement, spent_placement, hland, htaken]
      · intro play id htie
        rw [ties_placement, htaken, ← hland]
        exact ties_placement.mp htie
    · have hid : taken.card.id = move.card := by
        simpa [hsource] using hspec.picks.2
      have hvacated : move.inverse.vacated? = (done.landing taken.card).play := by
        simp [Move.vacated?, Move.inverse, hdest, hsource, hland]
      have hleft := hnumbered.mono (Multiset.le_cons_self _ _) le_rfl le_rfl
      exact (numbered_vacate_iff hvacated hland.symm hid.symm).mp hleft
  · have hland : (done.landing taken.card).play = some next := by
      simp [Move.landing, hspec.dest_eq, hdest, hnew]
    exact hrest.enter hnext hland

end Moves

section Runs

variable {table after : Table} {next later : PlayId}
  {effects : Multiset PlayId} {records : Multiset Move} {moves : List Move}

theorem Ledger.Numbered.nodup_plays
    (hnumbered : Ledger.Numbered ⟨table.placements, effects, records⟩ next) :
    (table.cards.map InPlay.play).Nodup := by
  rw [← Multiset.coe_nodup, ← Table.filterMap_play_placements]
  refine Multiset.nodup_of_le ?_ hnumbered.distinct
  exact (Multiset.le_add_right _ _).trans (Multiset.le_add_right _ _)

theorem Ledger.Numbered.play_ne {seat : InPlay}
    (hnumbered : Ledger.Numbered ⟨table.placements, effects, records⟩ next)
    (hseat : seat ∈ table.cards) : seat.play ≠ next := by
  intro hsame
  subst hsame
  refine Nat.lt_irrefl _ (hnumbered.tied seat.play seat.card.id (.inl ?_))
  exact ⟨seat.placement, Table.placement_mem hseat, rfl, rfl⟩

theorem Ledger.Numbered.relocated {source dest : Zone} {targets : List CardId}
    (hnumbered : Ledger.Numbered ⟨table.placements, effects, records⟩ next)
    (hmoved : Table.Relocated source dest targets table next moves after
      later) :
    Ledger.Numbered ⟨after.placements, effects, records + moves⟩ later := by
  induction hmoved generalizing records with
  | nil => simpa using hnumbered
  | @cons card rest table moved after next middle later move moves hcarry htail
      ih =>
      obtain ⟨taken, others, hspec⟩ := Table.carryOut_eq_some hcarry
      have hone := hnumbered.moved hspec rfl
      rw [← Table.placements_welcome moved dest] at hone
      have hrest := ih hone
      rw [Multiset.cons_add] at hrest
      rw [← Multiset.cons_coe, Multiset.add_cons]
      exact hrest

/-- Whatever of its moves can be taken back, an effect that is taken back leaves
the play numbers in order. -/
theorem Ledger.Numbered.carriedOut
    (hnumbered : Ledger.Numbered
      ⟨table.placements, effects, records + (moves.map Move.inverse)⟩ next)
    (hcarry : table.carryOutAll next moves = .ok (after, later)) :
    Ledger.Numbered ⟨after.placements, effects, records⟩ later := by
  have hfinal := Table.carryOutAll_induction
    (motive := fun current number rest => Ledger.Numbered
      ⟨current.placements, effects, records + (rest.map Move.inverse)⟩ number)
    ?_ ?_ hnumbered hcarry
  · simpa using hfinal
  · intro current number move rest hcurrent _
    rw [List.map_cons, ← Multiset.cons_coe, Multiset.add_cons] at hcurrent
    exact hcurrent.mono le_rfl le_rfl (Multiset.le_cons_self _ _)
  · intro current moved number middle move done rest hcurrent hone
    obtain ⟨taken, others, hspec⟩ := Table.carryOut_eq_some hone
    rw [List.map_cons, ← Multiset.cons_coe, Multiset.add_cons] at hcurrent
    exact hcurrent.undone hspec

/-- The reverse of a move that is remembered picks the card of the move. -/
theorem Ledger.Numbered.picks_card {move : Move} {placement : Placement}
    (hnumbered : Ledger.Numbered ⟨table.placements, effects, records⟩ next)
    (hrecord : move.inverse ∈ records) (hmem : placement ∈ table.placements)
    (hpicks : move.Picks placement) : placement.card.id = move.card := by
  obtain ⟨-, hkey⟩ := hpicks
  split at hkey
  · rename_i hplay
    obtain ⟨play, hsome⟩ := Option.isSome_iff_exists.mp hplay.2
    refine hnumbered.agree play placement.card.id move.card (.inl ?_) (.inr ?_)
    · exact ⟨placement, hmem, hkey.trans hsome, rfl⟩
    · exact ⟨move.inverse, hrecord, hsome, rfl⟩
  · exact hkey

end Runs

theorem Table.effectAt?_of_mem {table : Table} {effect : Effect}
    (hnodup : (table.effects.map Effect.play).Nodup)
    (heffect : effect ∈ table.effects) :
    table.effectAt? effect.play = some effect := by
  cases hfound : table.effectAt? effect.play with
  | none =>
      have hnone := List.find?_eq_none.mp hfound effect heffect
      simp at hnone
  | some other =>
      have hplay : other.play = effect.play := by
        simpa using List.find?_some hfound
      rw [List.inj_on_of_nodup_map hnodup (List.mem_of_find?_eq_some hfound)
        heffect hplay]

namespace Game

def ledger (game : Game) : Ledger :=
  ⟨game.table.placements, game.table.effects.map Effect.play,
    game.table.effects.flatMap Effect.moves⟩

/-- The ledger if effects remember only some of their moves. -/
def ledgerOf (recalls : Effect → List Move) (game : Game) : Ledger :=
  ⟨game.table.placements, game.table.effects.map Effect.play,
    game.table.effects.flatMap recalls⟩

/-- Effects remember what is reversed when they are taken back, and nothing that
they have not done. -/
structure Recalls (recalls : Effect → List Move) : Prop where
  reversed : ∀ effect : Effect,
    (effect.reversedMoves.map Move.inverse : Multiset Move) ≤ recalls effect
  made : ∀ effect : Effect, (recalls effect : Multiset Move) ≤ effect.moves

theorem reversedMoves_le (effect : Effect) :
    (effect.reversedMoves.map Move.inverse : Multiset Move) ≤
      effect.moves := by
  unfold Effect.reversedMoves
  split
  · simp [Effect.undoMoves, Function.comp_def, Move.inverse_inverse]
  · exact Multiset.zero_le _

theorem recalls_moves : Recalls Effect.moves :=
  ⟨reversedMoves_le, fun _ => le_rfl⟩

variable {game after : Game} {recalls : Effect → List Move}

theorem ties_of_mem_moves {effect : Effect} {move : Move} {play : PlayId}
    (heffect : effect ∈ game.table.effects) (hmove : move ∈ effect.moves)
    (hplay : move.play = some play) : game.ledger.Ties play move.card :=
  .inr ⟨move, List.mem_flatMap.mpr ⟨effect, heffect, hmove⟩, hplay, rfl⟩

/-- Play numbers that are in order stay so when moves are forgotten. -/
theorem ledgerOf_numbered {next : PlayId}
    (hmade : ∀ effect : Effect, (recalls effect : Multiset Move) ≤ effect.moves)
    (hnumbered : game.ledger.Numbered next) :
    (game.ledgerOf recalls).Numbered next := by
  apply hnumbered.mono le_rfl le_rfl
  induction game.table.effects with
  | nil => exact le_rfl
  | cons effect rest ih =>
      rw [List.flatMap_cons, List.flatMap_cons, ← Multiset.coe_add,
        ← Multiset.coe_add]
      exact add_le_add (hmade effect) ih

theorem CardPlayed.ledgerOf_numbered {card : Card}
    (hplayed : game.CardPlayed card after)
    (hnumbered : (game.ledgerOf recalls).Numbered game.nextPlay) :
    (after.ledgerOf recalls).Numbered after.nextPlay := by
  let rest := game.table.withdraw card.id
  have hrest : Ledger.Numbered ⟨rest.placements,
      (game.ledgerOf recalls).effects, (game.ledgerOf recalls).records⟩
      game.nextPlay := by
    rcases game.table.placements_withdraw card.id with
      ⟨-, hsame⟩ | ⟨old, zone, -, -, htaken⟩
    · rw [show rest = game.table from hsame]
      exact hnumbered
    · rw [ledgerOf, htaken] at hnumbered
      exact hnumbered.mono (Multiset.le_cons_self _ _) le_rfl le_rfl
  have heffects : after.table.effects = game.table.effects := by
    rw [hplayed.table]
    exact game.table.effects_withdraw card.id
  rw [ledgerOf, heffects, hplayed.table, Table.placements_enter,
    Table.placements_remember]
  exact hrest.enter hplayed.numbered rfl

/-- The number of the effect itself is handed out before those of its moves. -/
theorem EffectPlayed.numbered_first {script : Script} {choice : Choice}
    {first : PlayId} {moves : List Move} {rest : Table}
    {effects : Multiset PlayId} {records : Multiset Move}
    (hplayed : game.EffectPlayed script choice first moves rest after)
    (hnumbered : Ledger.Numbered ⟨game.table.placements, effects, records⟩
      game.nextPlay) :
    Ledger.Numbered ⟨game.table.placements, game.nextPlay ::ₘ effects, records⟩
      first :=
  hnumbered.grow default hplayed.numbered
    (le_of_eq Ledger.spent_effect) (fun _ _ htie => .inl htie)

theorem EffectPlayed.ledgerOf_numbered {script : Script} {choice : Choice}
    {first : PlayId} {moves : List Move} {rest : Table}
    (hplayed : game.EffectPlayed script choice first moves rest after)
    (hrecalls : Recalls recalls)
    (hnumbered : (game.ledgerOf recalls).Numbered game.nextPlay) :
    (after.ledgerOf recalls).Numbered after.nextPlay := by
  obtain ⟨dest, -, hmoved⟩ := relocate_eq_ok hplayed.moved
  have hrest := (hplayed.numbered_first hnumbered).relocated hmoved
  have heffects : rest.effects = game.table.effects := by rw [hmoved.frame]
  let effect : Effect := { Effect.bind game.nextPlay script choice with moves }
  have hledger : after.ledgerOf recalls = ⟨rest.placements,
      game.nextPlay ::ₘ (game.ledgerOf recalls).effects,
      (game.ledgerOf recalls).records + recalls effect⟩ := by
    simp [ledgerOf, hplayed.table, heffects, Effect.bind, Table.placements,
      effect, ← Multiset.coe_add, Multiset.add_comm]
  rw [hledger]
  exact hrest.mono le_rfl le_rfl
    (Multiset.add_le_add_left (hrecalls.made effect))

theorem CardRemoved.ledgerOf_numbered {play : PlayId} {dest : Zone}
    {seat : InPlay} {rest : Multiset Placement}
    (hremoved : game.CardRemoved play dest seat rest after)
    (hnumbered : (game.ledgerOf recalls).Numbered game.nextPlay) :
    (after.ledgerOf recalls).Numbered after.nextPlay := by
  have heffects : after.table.effects = game.table.effects := by
    rw [hremoved.frame]
  have hnext : after.nextPlay = game.nextPlay := by rw [hremoved.frame]
  rw [ledgerOf, hremoved.before] at hnumbered
  rw [ledgerOf, hremoved.placed, heffects, hnext]
  exact (hnumbered.mono (Multiset.le_cons_self _ _) le_rfl le_rfl).idle rfl

theorem EffectRemoved.records_le {play : PlayId} {effect : Effect}
    (hremoved : game.EffectRemoved play effect after)
    (hrecalls : Recalls recalls) :
    ((game.table.withoutEffect play).effects.flatMap recalls :
        Multiset Move) + (effect.reversedMoves.map Move.inverse : List Move) ≤
      (game.ledgerOf recalls).records := by
  let rest := game.table.withoutEffect play
  have hperm : game.table.effects.Perm (effect :: rest.effects) := by
    have hcons := coe_map_eq_cons id hremoved.found
    simp only [List.map_id] at hcons
    exact Multiset.coe_eq_coe.mp hcons
  have hsplit : (game.ledgerOf recalls).records =
      (rest.effects.flatMap recalls : List Move) +
        (recalls effect : Multiset Move) := by
    rw [ledgerOf, Multiset.coe_eq_coe.mpr (hperm.flatMap_right recalls),
      List.flatMap_cons, ← Multiset.coe_add, Multiset.add_comm]
  rw [hsplit]
  exact Multiset.add_le_add_left (hrecalls.reversed effect)

/-- Without the effect, its moves that are to be reversed are still remembered. -/
theorem EffectRemoved.numbered_rest {play : PlayId} {effect : Effect}
    (hremoved : game.EffectRemoved play effect after)
    (hrecalls : Recalls recalls)
    (hnumbered : (game.ledgerOf recalls).Numbered game.nextPlay) :
    Ledger.Numbered ⟨(game.table.withoutEffect play).placements,
      ((game.table.withoutEffect play).effects.map Effect.play : List PlayId),
      ((game.table.withoutEffect play).effects.flatMap recalls :
        Multiset Move) + (effect.reversedMoves.map Move.inverse : List Move)⟩
      game.nextPlay := by
  refine hnumbered.mono le_rfl ?_ (hremoved.records_le hrecalls)
  exact Multiset.coe_le.mpr (List.eraseP_sublist.map Effect.play).subperm

theorem EffectRemoved.ledgerOf_numbered {play : PlayId} {effect : Effect}
    (hremoved : game.EffectRemoved play effect after)
    (hrecalls : Recalls recalls)
    (hnumbered : (game.ledgerOf recalls).Numbered game.nextPlay) :
    (after.ledgerOf recalls).Numbered after.nextPlay := by
  rw [ledgerOf, hremoved.effects]
  exact (hremoved.numbered_rest hrecalls hnumbered).carriedOut hremoved.undone

theorem TurnEnded.ledgerOf_numbered (hended : game.TurnEnded after) :
    (after.ledgerOf recalls).Numbered after.nextPlay := by
  have hspent : (after.ledgerOf recalls).spent = 0 := by
    rw [hended.frame]
    simp [ledgerOf, Ledger.spent, Table.filterMap_play_placements]
  have hties : ∀ play id, ¬ (after.ledgerOf recalls).Ties play id := by
    rw [hended.frame]
    rintro play id (⟨placement, hmem, hplay, -⟩ | ⟨record, hmem, -⟩)
    · rcases Table.mem_placements.mp hmem with
        ⟨seat, hseat, -⟩ | ⟨card, -, rfl⟩ | ⟨card, -, rfl⟩
      · simp at hseat
      · simp at hplay
      · simp at hplay
    · simp [ledgerOf] at hmem
  refine ⟨?_, ?_, ?_, ?_⟩
  · simp [hspent]
  · simp [hspent]
  · exact fun play id htie => absurd htie (hties play id)
  · exact fun play left right hleft => absurd hleft (hties play left)

theorem ledgerOf_numbered_stockDeck (cards : List Card)
    (hnumbered : (game.ledgerOf recalls).Numbered game.nextPlay) :
    ((game.stockDeck cards).ledgerOf recalls).Numbered game.nextPlay := by
  have hledger : (game.stockDeck cards).ledgerOf recalls =
      ⟨↑(cards.map (Placement.mk .deck none)) + game.table.placements,
        (game.ledgerOf recalls).effects, (game.ledgerOf recalls).records⟩ := by
    rw [ledgerOf, stockDeck, Table.placements_deck_append]
    rfl
  rw [hledger]
  clear hledger
  induction cards with
  | nil => exact hnumbered.mono (by simp) le_rfl le_rfl
  | cons card rest ih =>
      rw [List.map_cons, ← Multiset.cons_coe, Multiset.cons_add]
      exact ih.idle rfl

/-- Every action keeps the play numbers in order, however many moves that are
never reversed the effects forget. -/
theorem perform_ledgerOf_numbered {action : PlayerAction}
    {result : Except Refusal Answer} (hrecalls : Recalls recalls)
    (hnumbered : (game.ledgerOf recalls).Numbered game.nextPlay)
    (hperform : game.perform action = .ok (result, after)) :
    (after.ledgerOf recalls).Numbered after.nextPlay := by
  rcases perform_eq_ok hperform with ⟨-, -, rfl⟩ | ⟨answer, -, haccepted⟩
  · exact hnumbered
  · cases haccepted with
    | deckStocked cards => exact ledgerOf_numbered_stockDeck cards hnumbered
    | cardPlayed hplayed => exact hplayed.ledgerOf_numbered hnumbered
    | deckPlayed _ hplayed => exact hplayed.ledgerOf_numbered hnumbered
    | effectAllowed _ => exact hnumbered
    | effectPlayed hplayed => exact hplayed.ledgerOf_numbered hrecalls hnumbered
    | cardRemoved hremoved => exact hremoved.ledgerOf_numbered hnumbered
    | effectRemoved hremoved =>
        exact hremoved.ledgerOf_numbered hrecalls hnumbered
    | turnEnded hended => exact hended.ledgerOf_numbered

theorem perform_numbered {action : PlayerAction}
    {result : Except Refusal Answer}
    (hnumbered : game.ledger.Numbered game.nextPlay)
    (hperform : game.perform action = .ok (result, after)) :
    after.ledger.Numbered after.nextPlay :=
  perform_ledgerOf_numbered recalls_moves hnumbered hperform

theorem ledger_numbered_run {rules : Rules} {actions : List PlayerAction}
    (hrun : run { rules } actions = .ok game) :
    game.ledger.Numbered game.nextPlay := by
  refine run_induction (motive := fun current =>
    current.ledger.Numbered current.nextPlay)
    (fun _ _ _ _ hnumbered => perform_numbered hnumbered) ?_ hrun
  exact ⟨Multiset.nodup_zero, by simp [ledger, Ledger.spent, Table.placements],
    by simp [ledger, Ledger.Ties, Table.placements],
    by simp [ledger, Ledger.Ties, Table.placements]⟩

theorem nodup_effects {next : PlayId}
    (hnumbered : (game.ledgerOf recalls).Numbered next) :
    (game.table.effects.map Effect.play).Nodup := by
  rw [← Multiset.coe_nodup]
  refine Multiset.nodup_of_le ?_ hnumbered.distinct
  exact (Multiset.le_add_left _ _).trans (Multiset.le_add_right _ _)

/-- All cards and effects in play can be counted. -/
theorem count_inPlay_lt (hnumbered : game.ledger.Numbered game.nextPlay) :
    game.table.cards.length + game.table.effects.length < UInt32.size := by
  have hcard := hnumbered.card_spent_le
  have hbound := UInt32.toNat_lt_size game.nextPlay.number
  rw [Ledger.spent, ledger, Table.filterMap_play_placements, Multiset.card_add,
    Multiset.card_add, Multiset.coe_card, Multiset.coe_card, List.length_map,
    List.length_map] at hcard
  omega

/-- After every run the play numbers in use are different and already handed
out, and a card in play under a number that an effect remembers is the card that
the effect moved under it. -/
theorem run_playIds {rules : Rules} {actions : List PlayerAction}
    (hrun : run { rules } actions = .ok game) :
    game.table.playIds.Nodup ∧
      (∀ play ∈ game.table.playIds, play.number < game.nextPlay.number) ∧
      ∀ effect ∈ game.table.effects, ∀ move ∈ effect.moves, ∀ play,
        move.play = some play → ∀ seat ∈ game.table.cards, seat.play = play →
          seat.card.id = move.card := by
  have hnumbered := ledger_numbered_run hrun
  have hspent : (game.table.playIds : Multiset PlayId) ≤ game.ledger.spent := by
    rw [Ledger.spent, ledger, Table.filterMap_play_placements, Table.playIds,
      ← Multiset.coe_add]
    exact Multiset.le_add_right _ _
  refine ⟨?_, ?_, ?_⟩
  · exact Multiset.coe_nodup.mp
      (Multiset.nodup_of_le hspent hnumbered.distinct)
  · intro play hplay
    exact UInt32.lt_iff_toNat_lt.mpr
      (hnumbered.below play (Multiset.mem_of_le hspent hplay))
  · intro effect heffect move hmove play hplay seat hseat hsame
    refine hnumbered.agree play seat.card.id move.card (.inl ?_) (.inr ?_)
    · exact ⟨seat.placement, Table.placement_mem hseat, congrArg some hsame, rfl⟩
    · exact ⟨move, List.mem_flatMap.mpr ⟨effect, heffect, hmove⟩, hplay, rfl⟩

def callAndReturn : List PlayerAction :=
  [.stockDeck [⟨⟨1⟩, "Roxy", .goth, 3⟩],
    .playEffect (.mover "Call" .deck .play) { targets := [⟨1⟩] },
    .playEffect (.mover "Banish" .play .discard) { targets := [⟨1⟩] },
    .removeEffect ⟨2⟩]

/-- The card comes back under the number that the first effect remembers. -/
theorem run_playIds_callAndReturn :
    ∃ game, run {} callAndReturn = .ok game ∧
      game.table.playIds = [⟨1⟩, ⟨0⟩] ∧
      game.table.playIds.Nodup ∧
      (∀ play ∈ game.table.playIds, play.number < game.nextPlay.number) ∧
      ∀ effect ∈ game.table.effects, ∀ move ∈ effect.moves, ∀ play,
        move.play = some play → ∀ seat ∈ game.table.cards, seat.play = play →
          seat.card.id = move.card := by
  obtain ⟨game, hrun, hplays⟩ : ∃ game, run {} callAndReturn = .ok game ∧
      game.table.playIds = [⟨1⟩, ⟨0⟩] := ⟨_, rfl, rfl⟩
  exact ⟨game, hrun, hplays, run_playIds hrun⟩

end Game

end Tableau
