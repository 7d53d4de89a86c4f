import Tableau.Limits
import Tableau.Proofs.TakeBack

/-!
Slots after an effect is taken back.  A card that the effect took out of play
comes back without its slot; all other cards keep theirs.  Main statement:
`takeBack_keepsSlots_iff`.
-/

namespace Tableau

namespace Table

theorem mem_slotted {table : Table} {seat : InPlay} :
    seat ∈ table.slotted ↔ seat ∈ table.cards ∧ seat.free = false := by
  simp [slotted]

theorem exists_seat_of_layout_eq {table other : Table} {keep : InPlay → Bool}
    (hnodup : (table.cards.map InPlay.play).Nodup)
    (hlayout : other.layout = table.layout)
    (hslotted : other.slotted = table.slotted.filter keep) {seat : InPlay}
    (hseat : seat ∈ table.cards) :
    ∃ same ∈ other.cards, same.play = seat.play ∧
      same.card.id = seat.card.id ∧ same.free = (seat.free || !keep seat) := by
  have hspot : seat.placement.spot ∈ other.layout := by
    rw [hlayout]
    exact Multiset.mem_map_of_mem _ (placement_mem hseat)
  obtain ⟨placement, hmem, heq⟩ := Multiset.mem_map.mp hspot
  rcases mem_placements.mp hmem with
    ⟨same, hsame, rfl⟩ | ⟨card, -, rfl⟩ | ⟨card, -, rfl⟩
  · have hplay : same.play = seat.play :=
      Option.some.inj (congrArg (fun spot => spot.2.1) heq)
    have hother : (other.cards.map InPlay.play).Nodup :=
      nodup_plays_of_layout_eq hlayout hnodup
    refine ⟨same, hsame, hplay, congrArg (fun spot => spot.2.2) heq, ?_⟩
    have hfree : same.free = false ↔ seat.free = false ∧ keep seat = true := by
      constructor
      · intro hslot
        have hmem : same ∈ other.slotted := mem_slotted.mpr ⟨hsame, hslot⟩
        rw [hslotted, List.mem_filter, mem_slotted] at hmem
        obtain ⟨⟨hcard, hslot⟩, hkeep⟩ := hmem
        have hseats : same = seat :=
          List.inj_on_of_nodup_map hnodup hcard hseat hplay
        exact hseats ▸ ⟨hslot, hkeep⟩
      · rintro ⟨hslot, hkeep⟩
        have hmem : seat ∈ other.slotted := by
          rw [hslotted, List.mem_filter, mem_slotted]
          exact ⟨⟨hseat, hslot⟩, hkeep⟩
        obtain ⟨hcard, -⟩ := mem_slotted.mp hmem
        have hseats : same = seat :=
          List.inj_on_of_nodup_map hother hsame hcard hplay
        exact hseats ▸ hslot
    cases hsame : same.free <;> cases hseat : seat.free <;>
      cases hkeep : keep seat <;> simp_all
  · cases congrArg Prod.fst heq
  · cases congrArg Prod.fst heq

end Table

theorem Limits.occupancy_congr (limits : Limits) {table other : Table}
    (hslotted : other.slotted = table.slotted)
    (heffects : other.effects = table.effects) :
    limits.occupancy other.cards other.effects =
      limits.occupancy table.cards table.effects := by
  have hfilter : other.cards.filter (fun seat => !seat.free) =
      table.cards.filter (fun seat => !seat.free) := hslotted
  rw [occupancy, occupancy, hfilter, heffects]

namespace Game

/-- Every card in play keeps its place and its slot, and the limits in force see
the same slots and allow the same cards. -/
structure KeepsSlots (game back : Game) : Prop where
  seats : ∀ seat ∈ game.table.cards, ∃ same ∈ back.table.cards,
    same.play = seat.play ∧ same.card.id = seat.card.id ∧ same.free = seat.free
  limits : Limits.ofTable back.rules back.table =
    Limits.ofTable game.rules game.table
  occupancy : ∀ limits : Limits,
    limits.occupancy back.table.cards back.table.effects =
      limits.occupancy game.table.cards game.table.effects
  checkCard : ∀ (limits : Limits) (suit : Suit),
    limits.checkCard back.table suit = limits.checkCard game.table suit

theorem keepsSlots_of_slotted_eq {game back : Game}
    (hseats : ∀ seat ∈ game.table.cards, ∃ same ∈ back.table.cards,
      same.play = seat.play ∧ same.card.id = seat.card.id ∧
        same.free = seat.free)
    (hslotted : back.table.slotted = game.table.slotted)
    (heffects : back.table.effects = game.table.effects)
    (hcarry : back.table.carry = game.table.carry)
    (hrules : back.rules = game.rules) : game.KeepsSlots back := by
  have hoccupancy : ∀ limits : Limits,
      limits.occupancy back.table.cards back.table.effects =
        limits.occupancy game.table.cards game.table.effects :=
    fun limits => limits.occupancy_congr hslotted heffects
  refine ⟨hseats, ?_, hoccupancy, ?_⟩
  · rw [Limits.ofTable, Limits.ofTable, Table.scripts, Table.scripts, heffects,
      hcarry, hrules]
  · intro limits suit
    rw [Limits.checkCard, Limits.checkCard, hoccupancy]

/-- A card in play that is no longer in play after the effect was played. -/
def Lifts (game played : Game) (seat : InPlay) : Prop :=
  seat ∈ game.table.cards ∧ seat.play ∉ played.table.cards.map InPlay.play

variable {game after : Game} {script : Script} {choice : Choice}

/-- Of the cards with a slot, an effect leaves those that stay in play, and it
brings no other ones into play. -/
theorem EffectPlayed.slotted {first : PlayId} {moves : List Move} {rest : Table}
    (hplayed : game.EffectPlayed script choice first moves rest after)
    (hnumbered : game.ledger.Numbered game.nextPlay) (hloop : ¬ script.IsLoop) :
    after.table.slotted = game.table.slotted.filter
      (fun seat => seat.play ∈ after.table.cards.map InPlay.play) := by
  obtain ⟨dest, hstays, hmoved⟩ := hplayed.relocated hloop
  have hfirst := hplayed.numbered_first hnumbered
  have hslotted : after.table.slotted = game.table.slotted.filter
      (fun seat => seat.play ∉ moves.filterMap Move.vacated?) := by
    rw [← hmoved.slotted hstays hfirst, hplayed.table]
    rfl
  have hcards : after.table.cards = rest.cards := by rw [hplayed.table]
  rw [hslotted]
  apply List.filter_congr
  intro seat hseat
  apply decide_eq_decide.mpr
  constructor
  · intro hkept
    have hmem : seat ∈ after.table.slotted := by
      rw [hslotted]
      exact List.mem_filter.mpr ⟨hseat, decide_eq_true hkept⟩
    exact List.mem_map_of_mem (Table.mem_slotted.mp hmem).1
  · -- A number that a record has taken out of play is spent there.
    intro hcard hrecord
    have hdistinct := (hfirst.relocated hmoved).distinct
    rw [Ledger.spent, Multiset.nodup_add] at hdistinct
    have hleft : seat.play ∈ rest.placements.filterMap Placement.play +
        (game.nextPlay ::ₘ game.ledger.effects) := by
      rw [Multiset.mem_add, Table.filterMap_play_placements, ← hcards]
      exact .inl hcard
    have hright : seat.play ∈
        (game.ledger.records + moves).filterMap Move.vacated? := by
      rw [Multiset.filterMap_add, Multiset.mem_add]
      exact .inr hrecord
    exact Multiset.disjoint_left.mp hdistinct.2.2 hleft hright

/-- What becomes of the slots when an effect is taken back at once.  A card comes
back free if it was free, or if the effect took it out of play.  So all is as
before exactly if the effect took no card with a slot out of play. -/
theorem takeBack_keepsSlots_iff {played : Game} {play : PlayId}
    (hreachable : game.Reachable)
    (hplay : game.playEffect script choice = .ok (.ok play, played))
    (hrestores : script.reversalRule.restores = true)
    (hloop : ¬ script.IsLoop) :
    ∃ effect back, played.removeEffect play = .ok (.ok effect, back) ∧
      (∀ seat ∈ game.table.cards, ∃ same ∈ back.table.cards,
        same.play = seat.play ∧ same.card.id = seat.card.id ∧
        (same.free = true ↔ seat.free = true ∨ game.Lifts played seat)) ∧
      (game.KeepsSlots back ↔
        ∀ seat, game.Lifts played seat → seat.free = true) := by
  obtain ⟨rules, actions, hrun⟩ := hreachable
  have hnumbered := ledger_numbered_run hrun
  rcases playEffect_eq_ok hplay with ⟨_, hfault, -⟩ | ⟨hnumber, _, _, _, hone⟩
  · cases hfault
  cases hnumber
  obtain ⟨effect, back, hremoved, -, -, -, hlayout, heffects, hkept⟩ :=
    hone.takenBack hnumbered hrestores hloop rfl rfl
  have hslotted := (hkept (List.Subset.refl _)).trans
    (hone.slotted hnumbered hloop)
  have hnodup : (game.table.cards.map InPlay.play).Nodup :=
    hnumbered.nodup_plays
  have hseats : ∀ seat ∈ game.table.cards, ∃ same ∈ back.table.cards,
      same.play = seat.play ∧ same.card.id = seat.card.id ∧
      (same.free = true ↔ seat.free = true ∨ game.Lifts played seat) := by
    intro seat hseat
    obtain ⟨same, hsame, hplays, hid, hfree⟩ :=
      Table.exists_seat_of_layout_eq hnodup hlayout hslotted hseat
    exact ⟨same, hsame, hplays, hid, by simp [hfree, Lifts, hseat]⟩
  refine ⟨effect, back, removeEffect_eq_ok.mpr (.inr ⟨effect, rfl, hremoved⟩),
    hseats, ?_, ?_⟩
  · intro hkeeps seat hlifts
    obtain ⟨same, hsame, hplays, -, hfree⟩ := hseats seat hlifts.1
    obtain ⟨other, hother, hplays', -, hsaved⟩ := hkeeps.seats seat hlifts.1
    have hback : (back.table.cards.map InPlay.play).Nodup :=
      Table.nodup_plays_of_layout_eq hlayout hnodup
    have heq : same = other :=
      List.inj_on_of_nodup_map hback hsame hother (hplays.trans hplays'.symm)
    rw [← hsaved, ← heq]
    exact hfree.mpr (.inr hlifts)
  · intro hlifts
    have hkeep : ∀ seat ∈ game.table.slotted,
        seat.play ∈ played.table.cards.map InPlay.play := by
      intro seat hseat
      obtain ⟨hcard, hslot⟩ := Table.mem_slotted.mp hseat
      by_contra hgone
      rw [hlifts seat ⟨hcard, hgone⟩] at hslot
      cases hslot
    apply keepsSlots_of_slotted_eq
    · intro seat hseat
      obtain ⟨same, hsame, hplays, hid, hfree⟩ := hseats seat hseat
      rw [or_iff_left_of_imp (hlifts seat)] at hfree
      exact ⟨same, hsame, hplays, hid, Bool.eq_iff_iff.mpr hfree⟩
    · rw [hslotted]
      exact List.filter_eq_self.mpr fun seat hseat =>
        decide_eq_true (hkeep seat hseat)
    · exact heffects
    · rw [hremoved.table_frame]
      change played.table.carry = game.table.carry
      rw [hone.table_frame]
    · rw [hremoved.frame, hone.frame]

def freeRoxy : Game :=
  { table :=
      { cards :=
          [⟨⟨0⟩, ⟨⟨2⟩, "Mia", .alt, 4⟩, false⟩,
            ⟨⟨2⟩, ⟨⟨1⟩, "Roxy", .goth, 3⟩, true⟩]
        effects :=
          [{ play := ⟨1⟩, script := .mover "Call" .deck .play
             choice := { targets := [⟨1⟩] }
             moves := [⟨⟨1⟩, .deck, .play, some ⟨2⟩⟩] }]
        history := ["Mia", "Roxy"] }
    nextPlay := ⟨3⟩ }

theorem reachable_freeRoxy : freeRoxy.Reachable :=
  ⟨{}, [.stockDeck [⟨⟨1⟩, "Roxy", .goth, 3⟩],
    .playCard ⟨⟨2⟩, "Mia", .alt, 4⟩,
    .playEffect (.mover "Call" .deck .play) { targets := [⟨1⟩] }], rfl⟩

/-- The free card can be banished and taken back. -/
theorem keepsSlots_freeRoxy :
    ∃ played effect back,
      freeRoxy.playEffect (.mover "Banish" .play .discard)
        { targets := [⟨1⟩] } = .ok (.ok ⟨3⟩, played) ∧
      played.removeEffect ⟨3⟩ = .ok (.ok effect, back) ∧
      freeRoxy.KeepsSlots back := by
  obtain ⟨played, hplay, hcards⟩ : ∃ played,
      freeRoxy.playEffect (.mover "Banish" .play .discard)
        { targets := [⟨1⟩] } = .ok (.ok ⟨3⟩, played) ∧
      played.table.cards = [⟨⟨0⟩, ⟨⟨2⟩, "Mia", .alt, 4⟩, false⟩] :=
    ⟨_, rfl, rfl⟩
  obtain ⟨effect, back, hremove, -, hkeeps⟩ :=
    takeBack_keepsSlots_iff reachable_freeRoxy hplay rfl (by decide)
  refine ⟨played, effect, back, hplay, hremove, hkeeps.mpr ?_⟩
  rintro seat ⟨hseat, hgone⟩
  rw [hcards] at hgone
  simp only [freeRoxy, List.mem_cons, List.not_mem_nil, or_false] at hseat
  rcases hseat with rfl | rfl
  · simp at hgone
  · rfl

/-- Not every effect that is taken back leaves the slots as they were: the card
with a slot, once banished, comes back without it. -/
theorem not_keepsSlots :
    ¬ ∀ (game played : Game) (script : Script) (choice : Choice)
        (play : PlayId),
      game.Reachable → game.playEffect script choice = .ok (.ok play, played) →
      script.reversalRule.restores = true → ¬ script.IsLoop →
      ∃ effect back, played.removeEffect play = .ok (.ok effect, back) ∧
        game.KeepsSlots back := by
  intro hall
  obtain ⟨played, effect, back, hplay, hremove, hcards⟩ :
      ∃ played effect back,
        freeRoxy.playEffect (.mover "Banish" .play .discard)
          { targets := [⟨2⟩] } = .ok (.ok ⟨3⟩, played) ∧
        played.removeEffect ⟨3⟩ = .ok (.ok effect, back) ∧
        back.table.cards =
          [⟨⟨2⟩, ⟨⟨1⟩, "Roxy", .goth, 3⟩, true⟩,
            ⟨⟨0⟩, ⟨⟨2⟩, "Mia", .alt, 4⟩, true⟩] :=
    ⟨_, _, _, rfl, rfl, rfl⟩
  obtain ⟨effect', back', hremove', hkeeps⟩ :=
    hall freeRoxy played _ _ _ reachable_freeRoxy hplay rfl (by decide)
  cases hremove.symm.trans hremove'
  -- Mia had a slot, but both cards are free now.
  obtain ⟨same, hsame, -, -, hfree⟩ := hkeeps.seats _ List.mem_cons_self
  rw [hcards] at hsame
  simp only [List.mem_cons, List.not_mem_nil, or_false] at hsame
  rcases hsame with rfl | rfl
  · cases hfree
  · cases hfree

end Game

end Tableau
