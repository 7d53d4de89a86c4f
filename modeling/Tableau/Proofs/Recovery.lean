import Tableau.Proofs.Restoring
import Tableau.Proofs.TakeBack

/-!
What taking an effect back recovers.  A recorded move can be reversed as long as
its card is where the move left it, and else it is left out.  The records of one
effect are apart from each other: none of them touches what another one looks for,
so all of them can be judged before the first one is reversed, and their order does
not matter.  Main statement: `removeEffect_recovers`.
-/

namespace Tableau

/-- Some elements are traded for others, and the rest stays. -/
def Traded {α : Type} (before given taken after : Multiset α) : Prop :=
  ∃ rest, before = given + rest ∧ after = taken + rest

section Traded

variable {α β : Type} {before given taken after other : Multiset α}

theorem Traded.unique (htraded : Traded before given taken after)
    (hagain : Traded before given taken other) : other = after := by
  obtain ⟨rest, rfl, rfl⟩ := htraded
  obtain ⟨_, hrest, rfl⟩ := hagain
  rw [add_left_cancel hrest]

theorem Traded.view (htraded : Traded before given taken after)
    (view : Multiset α → Multiset β)
    (hadd : ∀ left right, view (left + right) = view left + view right) :
    Traded (view before) (view given) (view taken) (view after) := by
  obtain ⟨rest, rfl, rfl⟩ := htraded
  exact ⟨view rest, hadd given rest, hadd taken rest⟩

theorem exists_of_add_eq_cons {first rest others : Multiset α} {a : α}
    (hnot : a ∉ first) (heq : first + rest = a ::ₘ others) :
    ∃ kept, rest = a ::ₘ kept ∧ others = first + kept := by
  have hmem : a ∈ first + rest := heq ▸ Multiset.mem_cons_self a others
  obtain ⟨kept, rfl⟩ := Multiset.exists_cons_of_mem
    ((Multiset.mem_add.mp hmem).resolve_left hnot)
  rw [Multiset.add_cons] at heq
  exact ⟨kept, rfl, ((Multiset.cons_inj_right a).mp heq).symm⟩

end Traded

/-- A move takes the first placement of its zone that it seeks. -/
def Move.seeks (move : Move) (placement : Placement) : Bool :=
  if move.source = .play then placement.play == move.play
  else placement.card.id == move.card

/-- A move that takes a card out of play, or brings one into play, names a play
number. -/
def Move.Numbered (move : Move) : Prop :=
  move.source = .play ∨ move.dest = .play → move.play.isSome

theorem Move.map_play_landing {α : Type} (done : Move) (card : Card)
    (view : PlayId → α) :
    (done.landing card).play.map view =
      if done.dest = .play then done.play.map view else none := by
  unfold landing
  split
  · rfl
  · rfl

/-- A recorded move that can be reversed, and the card that is found for it. -/
structure Recovery where
  record : Move
  card : Card
deriving DecidableEq, Repr

namespace Recovery

def leaves (recovery : Recovery) : Placement :=
  recovery.record.landing recovery.card

/-- The place to which the card goes back. -/
def returns (recovery : Recovery) : Placement :=
  recovery.record.inverse.landing recovery.card

def seat? (recovery : Recovery) : Option (PlayId × Card) :=
  recovery.record.play.map (·, recovery.card)

end Recovery

namespace Table

/-- The card that is found when a recorded move is to be reversed: a card in play
under the number of the record, or the first card with its identity in the zone that
it went to. -/
def recovered? (table : Table) (record : Move) : Option Card :=
  if record.dest = .play then (record.play.bind table.cardAt?).map InPlay.card
  else table.find? record.dest record.card

/-- The records that can be reversed, each with its card. -/
def recoveries (table : Table) (records : List Move) : List Recovery :=
  records.filterMap fun record => (table.recovered? record).map (.mk record)

def placedIn (table : Table) : Zone → List Placement
  | .play => table.cards.map InPlay.placement
  | .deck => table.deck.map (Placement.mk .deck none)
  | .discard => table.discard.map (Placement.mk .discard none)

section Step

variable {table after : Table} {next : PlayId} {move other : Move} {card : Card}

theorem recovered?_inverse (hnumbered : move.Numbered) :
    table.recovered? move.inverse =
      ((table.placedIn move.source).find? move.seeks).map Placement.card := by
  cases hsource : move.source with
  | play =>
      obtain ⟨play, hplay⟩ :=
        Option.isSome_iff_exists.mp (hnumbered (.inl hsource))
      simp [recovered?, Move.inverse, hsource, hplay, cardAt?, placedIn,
        List.find?_map, Move.seeks, Function.comp_def, InPlay.placement]
  | deck =>
      simp [recovered?, Move.inverse, hsource, find?, cardsIn, placedIn,
        List.find?_map, Move.seeks, Function.comp_def]
  | discard =>
      simp [recovered?, Move.inverse, hsource, find?, cardsIn, placedIn,
        List.find?_map, Move.seeks, Function.comp_def]

theorem takeOut?_of_recovered? (hnumbered : move.Numbered)
    (hfound : table.recovered? move.inverse = some card) :
    ∃ left rest, table.takeOut? move = some (card, left, rest) ∧
      ⟨move.source, left, card⟩ = move.inverse.landing card ∧
      ∀ zone, rest.placedIn zone = if zone = move.source then
        (table.placedIn zone).eraseP move.seeks else table.placedIn zone := by
  cases hsource : move.source with
  | play =>
      obtain ⟨play, hplay⟩ :=
        Option.isSome_iff_exists.mp (hnumbered (.inl hsource))
      simp only [recovered?, Move.inverse, hsource, if_true, hplay,
        Option.bind_some, Option.map_eq_some_iff] at hfound
      obtain ⟨seat, hseat, rfl⟩ := hfound
      have hnumber : seat.play = play := by simpa using List.find?_some hseat
      refine ⟨some seat.play, { table with
        cards := table.cards.eraseP fun seat => seat.play == play }, ?_, ?_, ?_⟩
      · rw [cardAt?] at hseat
        simp [takeOut?, hsource, hplay, hseat]
      · simp [Move.landing, Move.inverse, hsource, hplay, hnumber]
      · intro zone
        cases zone <;>
          simp [placedIn, List.eraseP_map, Move.seeks, hsource, hplay,
            Function.comp_def, InPlay.placement]
  | deck =>
      simp only [recovered?, Move.inverse, hsource, reduceCtorEq, if_false]
        at hfound
      refine ⟨none, { table with
        deck := table.deck.eraseP fun other => other.id == move.card }, ?_, ?_, ?_⟩
      · rw [find?, cardsIn] at hfound
        simp [takeOut?, hsource, hfound]
      · simp [Move.landing, Move.inverse, hsource]
      · intro zone
        cases zone <;>
          simp [placedIn, List.eraseP_map, Move.seeks, hsource, Function.comp_def]
  | discard =>
      simp only [recovered?, Move.inverse, hsource, reduceCtorEq, if_false]
        at hfound
      refine ⟨none, { table with
        discard := table.discard.eraseP fun other => other.id == move.card }, ?_,
        ?_, ?_⟩
      · rw [find?, cardsIn] at hfound
        simp [takeOut?, hsource, hfound]
      · simp [Move.landing, Move.inverse, hsource]
      · intro zone
        cases zone <;>
          simp [placedIn, List.eraseP_map, Move.seeks, hsource, Function.comp_def]

theorem carryOut_of_not_recovered? (next : PlayId) (hnumbered : move.Numbered)
    (hnone : table.recovered? move.inverse = none) :
    table.carryOut next move = .ok none := by
  have htaken : table.takeOut? move = none := by
    cases hsource : move.source with
    | play =>
        obtain ⟨play, hplay⟩ :=
          Option.isSome_iff_exists.mp (hnumbered (.inl hsource))
        simpa [recovered?, Move.inverse, takeOut?, hsource, hplay, cardAt?]
          using hnone
    | _ =>
        simpa [recovered?, Move.inverse, takeOut?, hsource, find?, cardsIn]
          using hnone
  rw [carryOut, htaken]
  rfl

/-- A card that is found leaves the place that the record names, and goes back. -/
theorem carryOut_of_recovered? (next : PlayId) (hnumbered : move.Numbered)
    (hfound : table.recovered? move.inverse = some card) :
    ∃ done after rest,
      table.carryOut next move = .ok (some (done, after, next)) ∧
      table.placements = move.inverse.landing card ::ₘ rest ∧
      after.placements = move.landing card ::ₘ rest ∧
      ∀ zone, after.placedIn zone =
        (if zone = move.source then (table.placedIn zone).eraseP move.seeks
          else table.placedIn zone) ++
        if zone = move.dest then [move.landing card] else [] := by
  obtain ⟨left, rest, htaken, hplace, hrest⟩ :=
    takeOut?_of_recovered? hnumbered hfound
  have hbefore := (takeOut?_eq_some htaken).placements
  rw [hplace] at hbefore
  cases hdest : move.dest with
  | play =>
      obtain ⟨play, hplay⟩ :=
        Option.isSome_iff_exists.mp (hnumbered (.inr hdest))
      refine ⟨move, rest.enter ⟨play, card, true⟩, rest.placements, ?_, hbefore,
        ?_, ?_⟩
      · rw [carryOut, htaken]
        simp only [hdest, hplay]
        rfl
      · rw [placements_enter]
        simp [InPlay.placement, Move.landing, hdest, hplay]
      · intro zone
        rw [← hrest]
        cases zone <;>
          simp [placedIn, enter, InPlay.placement, Move.landing, hdest, hplay]
  | deck =>
      refine ⟨{ move with play := left }, { rest with deck := rest.deck ++ [card] },
        rest.placements, ?_, hbefore, ?_, ?_⟩
      · rw [carryOut, htaken]
        simp only [hdest]
        rfl
      · simp [Move.landing, hdest]
      · intro zone
        rw [← hrest]
        cases zone <;> simp [placedIn, Move.landing, hdest]
  | discard =>
      refine ⟨{ move with play := left },
        { rest with discard := rest.discard ++ [card] }, rest.placements, ?_,
        hbefore, ?_, ?_⟩
      · rw [carryOut, htaken]
        simp only [hdest]
        rfl
      · simp [Move.landing, hdest]
      · intro zone
        rw [← hrest]
        cases zone <;> simp [placedIn, Move.landing, hdest]

end Step

end Table

/-- The moves take their cards from one zone, and none of them looks for the card
of the other one. -/
def Move.Apart (move other : Move) : Prop :=
  move.source = other.source ∧
    if move.source = .play then move.play ≠ other.play
    else move.card ≠ other.card

theorem Move.Apart.symm {move other : Move} (hapart : move.Apart other) :
    other.Apart move := by
  obtain ⟨hsource, hkeys⟩ := hapart
  refine ⟨hsource.symm, ?_⟩
  rw [← hsource]
  split
  · rw [if_pos ‹_›] at hkeys
    exact hkeys.symm
  · rw [if_neg ‹_›] at hkeys
    exact hkeys.symm

theorem Move.Apart.not_seeks {move other : Move} {placement : Placement}
    (hapart : move.Apart other) (hseeks : move.seeks placement = true) :
    other.seeks placement = false := by
  obtain ⟨hsource, hkeys⟩ := hapart
  unfold seeks at hseeks ⊢
  rw [← hsource]
  by_cases hplay : move.source = .play
  · simp only [hplay, if_true, beq_iff_eq] at hseeks hkeys ⊢
    simpa [hseeks] using hkeys
  · simp only [hplay, if_false, beq_iff_eq] at hseeks hkeys ⊢
    simpa [hseeks] using hkeys

namespace Table

section Apart

variable {table after : Table} {next : PlayId} {move other : Move} {card : Card}

theorem seeks_of_recovered? (hnumbered : move.Numbered)
    (hfound : table.recovered? move.inverse = some card) :
    move.seeks (move.inverse.landing card) = true := by
  unfold Move.seeks
  by_cases hplay : move.source = .play
  · simp [hplay, Move.landing, Move.inverse]
  · rw [recovered?_inverse hnumbered, Option.map_eq_some_iff] at hfound
    obtain ⟨taken, htaken, rfl⟩ := hfound
    simpa [Move.seeks, hplay] using List.find?_some htaken

/-- Where a card goes back to the zone that it left, it goes to a place that no
other move looks for. -/
theorem not_seeks_landing (hapart : move.Apart other) (hnumbered : move.Numbered)
    (hfound : table.recovered? move.inverse = some card)
    (hzone : move.dest = move.source) :
    other.seeks (move.landing card) = false := by
  apply hapart.not_seeks
  have hseeks := seeks_of_recovered? hnumbered hfound
  have hsame : move.landing card = move.inverse.landing card := by
    simp [Move.landing, Move.inverse, hzone]
  rwa [hsame]

/-- A card that goes back does not change what is found for other records. -/
theorem recovered?_of_apart (hapart : move.Apart other)
    (hnumbered : move.Numbered) (hother : other.Numbered)
    (hfound : table.recovered? move.inverse = some card)
    (hafter : ∀ zone, after.placedIn zone =
      (if zone = move.source then (table.placedIn zone).eraseP move.seeks
        else table.placedIn zone) ++
      if zone = move.dest then [move.landing card] else []) :
    after.recovered? other.inverse = table.recovered? other.inverse := by
  have hlast : (if other.source = move.dest then [move.landing card]
      else []).find? other.seeks = none := by
    split
    · rename_i hzone
      have hnot := not_seeks_landing hapart hnumbered hfound
        (hzone.symm.trans hapart.1.symm)
      simp [hnot]
    · rfl
  rw [recovered?_inverse hother, recovered?_inverse hother, hafter,
    if_pos hapart.1.symm, List.find?_append, hlast, Option.or_none,
    find?_eraseP _ fun _ => hapart.not_seeks]

end Apart

def leaving (table : Table) (records : List Move) : Multiset Placement :=
  (table.recoveries records).map Recovery.leaves

def returning (table : Table) (records : List Move) : Multiset Placement :=
  (table.recoveries records).map Recovery.returns

section Run

variable {table : Table} {records undo : List Move} {move : Move} {card : Card}

theorem recoveries_cons_none (hnone : table.recovered? move = none) :
    table.recoveries (move :: records) = table.recoveries records := by
  rw [recoveries, List.filterMap_cons, hnone]
  rfl

theorem leaving_cons_some (hfound : table.recovered? move = some card) :
    table.leaving (move :: records) =
      move.landing card ::ₘ table.leaving records := by
  rw [leaving, recoveries, List.filterMap_cons, hfound]
  rfl

theorem returning_cons_some (hfound : table.recovered? move = some card) :
    table.returning (move :: records) =
      move.inverse.landing card ::ₘ table.returning records := by
  rw [returning, recoveries, List.filterMap_cons, hfound]
  rfl

theorem landing_notMem_leaving {others : List Move} (hnumbered : move.Numbered)
    (hothers : ∀ other ∈ others, other.Numbered)
    (hapart : ∀ other ∈ others, move.Apart other)
    (hfound : table.recovered? move.inverse = some card) :
    move.landing card ∉ table.leaving (others.map Move.inverse) := by
  intro hmem
  obtain ⟨recovery, hrecovery, hplace⟩ := List.mem_map.mp hmem
  obtain ⟨_, hinverse, hjudged⟩ := List.mem_filterMap.mp hrecovery
  obtain ⟨other, hother, rfl⟩ := List.mem_map.mp hinverse
  obtain ⟨taken, htaken, rfl⟩ := Option.map_eq_some_iff.mp hjudged
  change other.inverse.landing taken = move.landing card at hplace
  have hsought := seeks_of_recovered? (hothers other hother) htaken
  have hzone : move.dest = move.source :=
    (congrArg Placement.zone hplace).symm.trans (hapart other hother).1.symm
  have hfree := not_seeks_landing (hapart other hother) hnumbered hfound hzone
  rw [← hplace, hsought] at hfree
  cases hfree

/-- Reverses that are apart are all judged on the table before the first one: they
trade the places of the cards that are found there for those to which the cards go
back. -/
theorem carryOutAll_recoveries (next : PlayId)
    (hnumbered : ∀ move ∈ undo, move.Numbered)
    (hapart : undo.Pairwise Move.Apart) :
    ∃ after, table.carryOutAll next undo = .ok (after, next) ∧
      Traded table.placements (table.leaving (undo.map Move.inverse))
        (table.returning (undo.map Move.inverse)) after.placements := by
  induction undo generalizing table with
  | nil =>
      exact ⟨table, rfl, table.placements, (zero_add _).symm, (zero_add _).symm⟩
  | cons move rest ih =>
      obtain ⟨hhead, htail⟩ := List.forall_mem_cons.mp hnumbered
      obtain ⟨hfirst, hothers⟩ := List.pairwise_cons.mp hapart
      rw [List.map_cons]
      cases hcard : table.recovered? move.inverse with
      | none =>
          obtain ⟨after, hcarry, htraded⟩ := @ih table htail hothers
          refine ⟨after, ?_, ?_⟩
          · rw [carryOutAll, carryOut_of_not_recovered? next hhead hcard]
            exact hcarry
          · rw [leaving, returning, recoveries_cons_none hcard]
            exact htraded
      | some card =>
          obtain ⟨done, moved, others, hone, hbefore, hmoved, hzones⟩ :=
            carryOut_of_recovered? next hhead hcard
          -- After the first move the others still find what they found before it,
          -- so that what the rest trades can be said of the table before it.
          have hjudged : moved.recoveries (rest.map Move.inverse) =
              table.recoveries (rest.map Move.inverse) := by
            refine List.filterMap_congr fun record hmem => ?_
            obtain ⟨other, hother, rfl⟩ := List.mem_map.mp hmem
            rw [recovered?_of_apart (hfirst other hother) hhead
              (htail other hother) hcard hzones]
          obtain ⟨after, hcarry, kept, hsame, hplaced⟩ := @ih moved htail hothers
          rw [leaving, hjudged, ← leaving] at hsame
          rw [returning, hjudged, ← returning] at hplaced
          have hstays : move.landing card ∉ table.leaving (rest.map Move.inverse) :=
            landing_notMem_leaving hhead htail hfirst hcard
          obtain ⟨unmoved, rfl, rfl⟩ :=
            exists_of_add_eq_cons hstays (hsame.symm.trans hmoved)
          refine ⟨after, ?_, unmoved, ?_, ?_⟩
          · rw [carryOutAll, hone]
            exact hcarry
          · rw [hbefore, leaving_cons_some hcard, Multiset.cons_add]
          · rw [hplaced, returning_cons_some hcard, Multiset.cons_add,
              Multiset.add_cons, Move.inverse_inverse]

theorem traded_perm {other : List Move} (hperm : records.Perm other)
    (table : Table) :
    table.leaving records = table.leaving other ∧
      table.returning records = table.returning other := by
  have hfound : (table.recoveries records).Perm (table.recoveries other) :=
    hperm.filterMap _
  exact ⟨Multiset.coe_eq_coe.mpr (hfound.map _),
    Multiset.coe_eq_coe.mpr (hfound.map _)⟩

/-- Recorded moves can be reversed in any order. -/
theorem carryOutAll_undo (table : Table) (next : PlayId)
    (hundo : undo.Perm (records.map Move.inverse))
    (hnumbered : ∀ record ∈ records, record.Numbered)
    (hapart : (records.map Move.inverse).Pairwise Move.Apart) :
    ∃ after, table.carryOutAll next undo = .ok (after, next) ∧
      Traded table.placements (table.leaving records) (table.returning records)
        after.placements := by
  have hreverses : ∀ move ∈ undo, move.Numbered := by
    intro move hmove
    obtain ⟨record, hrecord, rfl⟩ := List.mem_map.mp (hundo.subset hmove)
    exact fun hzones => hnumbered record hrecord hzones.symm
  obtain ⟨after, hcarry, htraded⟩ := table.carryOutAll_recoveries next hreverses
    ((hundo.pairwise_iff Move.Apart.symm).mpr hapart)
  have hback : (undo.map Move.inverse).Perm records := by
    have hmapped := hundo.map Move.inverse
    rwa [List.map_map, show Move.inverse ∘ Move.inverse = id from rfl,
      List.map_id] at hmapped
  obtain ⟨hleaving, hreturning⟩ := traded_perm hback table
  exact ⟨after, hcarry, hleaving ▸ hreturning ▸ htraded⟩

end Run

/-- Reversing recorded moves trades cards just as far as the records can be
reversed: the card that is found for a record leaves the zone to which it went and
goes back to the zone from which it came, in play under the number of the record. -/
structure Recovers (table : Table) (records : List Move) (after : Table) :
    Prop where
  cards : ∀ zone, Traded (table.cardsIn zone : Multiset Card)
    (((table.recoveries records).filter
      (fun found => found.record.dest = zone)).map Recovery.card)
    (((table.recoveries records).filter
      (fun found => found.record.source = zone)).map Recovery.card)
    (after.cardsIn zone)
  seats : Traded
    (table.cards.map (fun seat => (seat.play, seat.card)) :
      Multiset (PlayId × Card))
    (((table.recoveries records).filter
      (fun found => found.record.dest = .play)).filterMap Recovery.seat?)
    (((table.recoveries records).filter
      (fun found => found.record.source = .play)).filterMap Recovery.seat?)
    (after.cards.map (fun seat => (seat.play, seat.card)))

theorem recovers_of_traded {table after : Table} {records : List Move}
    (htraded : Traded table.placements (table.leaving records)
      (table.returning records) after.placements) :
    table.Recovers records after := by
  refine ⟨fun zone => ?_, ?_⟩
  · rw [coe_cardsIn, coe_cardsIn]
    have hview := htraded.view (fun places : Multiset Placement =>
      (places.filter (fun placement => placement.zone = zone)).map
        Placement.card) (by simp)
    simp only [leaving, returning, Multiset.filter_coe, List.filter_map,
      Multiset.map_coe, List.map_map] at hview
    exact hview
  · rw [coe_seats, coe_seats]
    have hview := htraded.view (fun places : Multiset Placement =>
      places.filterMap
        (fun placement => placement.play.map (·, placement.card))) (by simp)
    simpa [leaving, returning, List.filterMap_map, List.filterMap_filter,
      Function.comp_def, Recovery.leaves, Recovery.returns, Recovery.seat?,
      Move.map_play_landing, Move.inverse] using hview

end Table

/-- The moves of an effect go to one zone, and each has a card of its own. -/
structure Effect.Uniform (effect : Effect) : Prop where
  dest : ∀ left ∈ effect.moves, ∀ right ∈ effect.moves, left.dest = right.dest
  distinct : (effect.moves.map Move.card).Nodup

namespace Game

variable {game after : Game} {effect : Effect}

theorem EffectPlayed.uniform {script : Script} {choice : Choice} {first : PlayId}
    {moves : List Move} {rest : Table}
    (hplayed : game.EffectPlayed script choice first moves rest after) :
    Effect.Uniform { Effect.bind game.nextPlay script choice with moves } := by
  obtain ⟨dest, -, hmoved⟩ := relocate_eq_ok hplayed.moved
  refine ⟨fun left hleft right hright => ?_, ?_⟩
  · exact (hmoved.zones left hleft).2.trans (hmoved.zones right hright).2.symm
  · change (moves.map Move.card).Nodup
    rw [hmoved.map_card, movedTargets]
    split
    · exact (TargetRule.validate_eq_ok hplayed.legal).1
    · exact List.nodup_nil

/-- No two moves of an effect have brought a card into play under one number, so
that their reverses are apart. -/
theorem Orderly.undo_apart (horderly : game.Orderly) (huniform : effect.Uniform)
    (heffect : effect ∈ game.table.effects) :
    (effect.moves.map Move.inverse).Pairwise Move.Apart := by
  rw [List.pairwise_map]
  refine (List.pairwise_map.mp huniform.distinct).imp_of_mem ?_
  intro left right hleft hright hcards
  refine ⟨huniform.dest left hleft right hright, ?_⟩
  change if left.dest = .play then left.play ≠ right.play
    else left.card ≠ right.card
  split
  · rename_i hdest
    intro hsame
    obtain ⟨play, hplay⟩ := Option.isSome_iff_exists.mp
      ((horderly.dated effect heffect).numbered left hleft (.inr hdest))
    exact hcards (horderly.numbered.agree play _ _
      (ties_of_mem_moves heffect hleft hplay)
      (ties_of_mem_moves heffect hright (hsame ▸ hplay)))
  · exact hcards

/-- Taking an effect back reverses just those of its moves that can be reversed on
the table as it is; the others have no effect, and the order of the moves does not
matter. -/
theorem removeEffect_recovers (hreachable : game.Reachable)
    (heffect : effect ∈ game.table.effects)
    (hrestores : effect.script.reversalRule.restores = true) :
    ∃ after, game.removeEffect effect.play = .ok (.ok effect, after) ∧
      game.table.Recovers effect.moves after.table ∧
      ∀ undo : List Move, undo.Perm effect.undoMoves →
        ∃ other, (game.table.withoutEffect effect.play).carryOutAll
            game.nextPlay undo = .ok (other, game.nextPlay) ∧
          other.placements = after.table.placements := by
  have horderly := hreachable.orderly
  have huniform : effect.Uniform := hreachable.forall_effects
    (fun _ _ _ _ _ _ _ _ hplayed => hplayed.uniform) effect heffect
  have hdated := horderly.dated effect heffect
  have hapart := horderly.undo_apart huniform heffect
  obtain ⟨after, hremove⟩ :=
    exists_removeEffect (nodup_effects horderly.numbered) heffect hdated
  rcases removeEffect_eq_ok.mp hremove with ⟨-, hfault, -⟩ | ⟨_, hsame, hremoved⟩
  · cases hfault
  cases hsame
  have hreverses : effect.undoMoves.Perm (effect.moves.map Move.inverse) :=
    effect.moves.reverse_perm.map Move.inverse
  have hundo (undo : List Move) (hperm : undo.Perm effect.undoMoves) :=
    (game.table.withoutEffect effect.play).carryOutAll_undo game.nextPlay
      (hperm.trans hreverses) hdated.numbered hapart
  obtain ⟨table, hcarry, htraded⟩ := hundo effect.undoMoves (List.Perm.refl _)
  have htable : table = after.table := by
    have hundone := hremoved.undone
    rw [Effect.reversedMoves, if_pos hrestores, hcarry] at hundone
    exact congrArg Prod.fst (Except.ok.inj hundone)
  subst htable
  refine ⟨after, hremove, Table.recovers_of_traded htraded, ?_⟩
  intro undo hperm
  obtain ⟨other, hother, hagain⟩ := hundo undo hperm
  exact ⟨other, hother, htraded.unique hagain⟩

def callBoth : List PlayerAction :=
  [.stockDeck [⟨⟨1⟩, "Roxy", .goth, 3⟩, ⟨⟨2⟩, "Mia", .alt, 4⟩],
    .playEffect
      { id := ⟨0⟩, name := "Call", relocation := some ⟨.play⟩
        target := { count := .between 2 2, zone := .deck } }
      { targets := [⟨1⟩, ⟨2⟩] },
    .removeCard ⟨1⟩ .discard]

/-- Only Mia goes back to the deck then. -/
theorem removeEffect_recovers_callBoth :
    ∃ game effect after, run {} callBoth = .ok game ∧
      game.table.effects = [effect] ∧
      effect.moves.map Move.card = [⟨1⟩, ⟨2⟩] ∧
      game.removeEffect ⟨0⟩ = .ok (.ok effect, after) ∧
      game.table.recoveries effect.moves =
        [⟨⟨⟨2⟩, .deck, .play, some ⟨2⟩⟩, ⟨⟨2⟩, "Mia", .alt, 4⟩⟩] ∧
      game.table.Recovers effect.moves after.table ∧
      ∀ undo : List Move, undo.Perm effect.undoMoves →
        ∃ other, (game.table.withoutEffect ⟨0⟩).carryOutAll game.nextPlay undo =
            .ok (other, game.nextPlay) ∧
          other.placements = after.table.placements := by
  obtain ⟨game, effect, hrun, heffects, hplay, hrestores, hmoves, hfound⟩ :
      ∃ game effect, run {} callBoth = .ok game ∧
        game.table.effects = [effect] ∧ effect.play = ⟨0⟩ ∧
        effect.script.reversalRule.restores = true ∧
        effect.moves.map Move.card = [⟨1⟩, ⟨2⟩] ∧
        game.table.recoveries effect.moves =
          [⟨⟨⟨2⟩, .deck, .play, some ⟨2⟩⟩, ⟨⟨2⟩, "Mia", .alt, 4⟩⟩] :=
    ⟨_, _, rfl, rfl, rfl, rfl, rfl, rfl⟩
  obtain ⟨after, hremove, hrecovers, hundo⟩ := removeEffect_recovers
    ⟨{}, callBoth, hrun⟩ (heffects ▸ List.mem_singleton_self effect) hrestores
  rw [hplay] at hremove hundo
  exact ⟨game, effect, after, hrun, heffects, hmoves, hremove, hfound, hrecovers,
    hundo⟩

end Game

end Tableau
