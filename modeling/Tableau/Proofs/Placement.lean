import Mathlib.Algebra.Order.Group.Multiset
import Mathlib.Data.Multiset.Filter
import Tableau.Game.Zones

/-!
Where the cards lie, as a multiset of placements.  The order within a zone only
decides which of several cards with one identity is found first, so a move of a
card is described as a trade of one placement for another.  Main statements:
`carryOut_eq_some`, all that a move does, and `carryOut_eq_none_iff`, when it is
not possible.
-/

namespace Tableau

/-- A card in its place.  On the table it lies under a play number. -/
structure Placement where
  zone : Zone
  play : Option PlayId
  card : Card
deriving DecidableEq, Repr

namespace Placement

/-- The place and the identity of the card, without what is printed on it. -/
def spot (placement : Placement) : Zone × Option PlayId × CardId :=
  (placement.zone, placement.play, placement.card.id)

end Placement

def InPlay.placement (seat : InPlay) : Placement :=
  ⟨.play, some seat.play, seat.card⟩

/-- A move can take the card from this placement.  A card in play is found by
the play number of the move, if the move has one, and else by its identity. -/
def Move.Picks (move : Move) (placement : Placement) : Prop :=
  placement.zone = move.source ∧
    if move.source = .play ∧ move.play.isSome then placement.play = move.play
    else placement.card.id = move.card

/-- Where the card lies after a move that was made. -/
def Move.landing (done : Move) (card : Card) : Placement :=
  ⟨done.dest, if done.dest = .play then done.play else none, card⟩

@[simp] theorem Move.landing_card (done : Move) (card : Card) :
    (done.landing card).card = card := rfl

namespace Table

def placements (table : Table) : Multiset Placement :=
  ↑(table.cards.map InPlay.placement) +
    ↑(table.deck.map (Placement.mk .deck none)) +
    ↑(table.discard.map (Placement.mk .discard none))

/-- The cards in play that take a slot. -/
def slotted (table : Table) : List InPlay :=
  table.cards.filter fun seat => !seat.free

theorem mem_placements {table : Table} {placement : Placement} :
    placement ∈ table.placements ↔
      (∃ seat ∈ table.cards, seat.placement = placement) ∨
      (∃ card ∈ table.deck, ⟨.deck, none, card⟩ = placement) ∨
      ∃ card ∈ table.discard, ⟨.discard, none, card⟩ = placement := by
  simp [placements]

theorem placement_mem {table : Table} {seat : InPlay}
    (hseat : seat ∈ table.cards) : seat.placement ∈ table.placements :=
  mem_placements.mpr (.inl ⟨seat, hseat, rfl⟩)

theorem play_isSome_iff {table : Table} {placement : Placement}
    (hmem : placement ∈ table.placements) :
    placement.play.isSome ↔ placement.zone = .play := by
  rcases mem_placements.mp hmem with
    ⟨seat, -, rfl⟩ | ⟨card, -, rfl⟩ | ⟨card, -, rfl⟩ <;>
    simp [InPlay.placement]

theorem filterMap_play_placements (table : Table) :
    table.placements.filterMap Placement.play =
      (table.cards.map InPlay.play : List PlayId) := by
  simp [placements, Function.comp_def, InPlay.placement]

theorem map_card_placements (table : Table) :
    table.placements.map Placement.card =
      (table.cards.map InPlay.card ++ table.deck ++ table.discard :
        List Card) := by
  simp [placements, Function.comp_def, InPlay.placement]

theorem coe_cardsIn (table : Table) (zone : Zone) :
    (table.cardsIn zone : Multiset Card) =
      (table.placements.filter (fun placement => placement.zone = zone)).map
        Placement.card := by
  cases zone <;>
    simp [placements, cardsIn, InPlay.placement, List.filter_map,
      Function.comp_def]

theorem mem_cardsIn {table : Table} {zone : Zone} {card : Card} :
    card ∈ table.cardsIn zone ↔
      ∃ placement ∈ table.placements,
        placement.zone = zone ∧ placement.card = card := by
  rw [← Multiset.mem_coe, coe_cardsIn]
  simp [and_assoc]

@[simp] theorem placements_enter (table : Table) (seat : InPlay) :
    (table.enter seat).placements = seat.placement ::ₘ table.placements := by
  simp [placements, enter]

@[simp] theorem placements_deck_append (table : Table) (cards : List Card) :
    { table with deck := table.deck ++ cards }.placements =
      ↑(cards.map (Placement.mk .deck none)) + table.placements := by
  simp only [placements, List.map_append, ← Multiset.coe_add]
  ac_rfl

@[simp] theorem placements_discard_append (table : Table) (cards : List Card) :
    { table with discard := table.discard ++ cards }.placements =
      ↑(cards.map (Placement.mk .discard none)) + table.placements := by
  simp only [placements, List.map_append, ← Multiset.coe_add]
  ac_rfl

@[simp] theorem placements_remember (table : Table) (name : String) :
    (table.remember name).placements = table.placements := rfl

end Table

section FirstMatch

variable {α β : Type} {wanted : α → Bool} {list : List α} {found : α}

theorem coe_map_eq_cons (label : α → β)
    (hfound : list.find? wanted = some found) :
    (list.map label : Multiset β) =
      label found ::ₘ (list.eraseP wanted).map label := by
  induction list with
  | nil => simp at hfound
  | cons head tail ih =>
      by_cases hwanted : wanted head = true
      · simp only [List.find?_cons_of_pos hwanted, Option.some.injEq] at hfound
        subst hfound
        rw [List.eraseP_cons_of_pos hwanted]
        rfl
      · rw [List.find?_cons_of_neg hwanted] at hfound
        rw [List.eraseP_cons_of_neg hwanted, List.map_cons, List.map_cons,
          ← Multiset.cons_coe, ← Multiset.cons_coe, ih hfound,
          Multiset.cons_swap]

theorem find?_eraseP {other : α → Bool} (list : List α)
    (hdisjoint : ∀ x, other x = true → wanted x = false) :
    (list.eraseP other).find? wanted = list.find? wanted := by
  induction list with
  | nil => rfl
  | cons head tail ih =>
      by_cases hother : other head = true
      · rw [List.eraseP_cons_of_pos hother, List.find?_cons_of_neg]
        simp [hdisjoint head hother]
      · rw [List.eraseP_cons_of_neg hother, List.find?_cons, List.find?_cons,
          ih]

/-- Erasing the first match of a list without repeated labels erases its
label. -/
theorem eraseP_eq_filter [DecidableEq β] (label : α → β)
    (hnodup : (list.map label).Nodup)
    (hfound : list.find? wanted = some found) :
    list.eraseP wanted = list.filter (fun other => label other != label found) := by
  induction list with
  | nil => simp at hfound
  | cons head tail ih =>
      obtain ⟨hhead, htail⟩ := List.nodup_cons.mp hnodup
      by_cases hwanted : wanted head = true
      · simp only [List.find?_cons_of_pos hwanted, Option.some.injEq] at hfound
        subst hfound
        have hkeep : tail.filter (fun other => label other != label head) =
            tail := by
          apply List.filter_eq_self.mpr
          intro other hother
          have hne : label other ≠ label head := fun heq =>
            hhead (heq ▸ List.mem_map_of_mem hother)
          simp [hne]
        simp [List.eraseP_cons_of_pos hwanted, hkeep]
      · rw [List.find?_cons_of_neg hwanted] at hfound
        have hne : label head ≠ label found := fun heq =>
          hhead (heq ▸ List.mem_map_of_mem (List.mem_of_find?_eq_some hfound))
        rw [List.eraseP_cons_of_neg hwanted, ih htail hfound]
        simp [hne]

theorem filter_eraseP {keep : α → Bool} (hfound : list.find? wanted = some found)
    (hdrop : keep found = false) :
    (list.eraseP wanted).filter keep = list.filter keep := by
  induction list with
  | nil => simp at hfound
  | cons head tail ih =>
      by_cases hwanted : wanted head = true
      · simp only [List.find?_cons_of_pos hwanted, Option.some.injEq] at hfound
        subst hfound
        rw [List.eraseP_cons_of_pos hwanted,
          List.filter_cons_of_neg (by simp [hdrop])]
      · rw [List.find?_cons_of_neg hwanted] at hfound
        rw [List.eraseP_cons_of_neg hwanted, List.filter_cons, List.filter_cons,
          ih hfound]

end FirstMatch

namespace Table

/-- What taking a card out of its zone does. -/
structure TakenOut (table : Table) (move : Move) (taken : Placement)
    (rest : Table) : Prop where
  picks : move.Picks taken
  placements : table.placements = taken ::ₘ rest.placements
  slotted : (table.cards.map InPlay.play).Nodup →
    rest.slotted =
      table.slotted.filter (fun seat => some seat.play != taken.play)
  frame : rest = { table with
    cards := rest.cards, deck := rest.deck, discard := rest.discard }

theorem takeOut?_eq_some {table rest : Table} {move : Move} {card : Card}
    {left : Option PlayId}
    (htaken : table.takeOut? move = some (card, left, rest)) :
    table.TakenOut move ⟨move.source, left, card⟩ rest := by
  cases hsource : move.source with
  | play =>
      simp only [takeOut?, hsource, Option.map_eq_some_iff,
        Prod.mk.injEq] at htaken
      obtain ⟨seat, hfind, rfl, rfl, rfl⟩ := htaken
      have hwanted := List.find?_some hfind
      refine ⟨⟨hsource.symm, ?_⟩, ?_, ?_, rfl⟩
      · cases hplay : move.play <;> simp_all
      · rw [placements, coe_map_eq_cons InPlay.placement hfind]
        simp only [Multiset.cons_add]
        rfl
      · intro hnodup
        simp only [slotted, eraseP_eq_filter InPlay.play hnodup hfind]
        rw [List.filter_comm]
        rfl
  | deck =>
      simp only [takeOut?, hsource, Option.map_eq_some_iff,
        Prod.mk.injEq] at htaken
      obtain ⟨found, hfind, rfl, rfl, rfl⟩ := htaken
      have hwanted := List.find?_some hfind
      refine ⟨⟨hsource.symm, by simpa [hsource] using hwanted⟩, ?_, ?_, rfl⟩
      · rw [placements, coe_map_eq_cons (Placement.mk .deck none) hfind]
        simp only [Multiset.cons_add, Multiset.add_cons]
        rfl
      · intro _
        exact (List.filter_eq_self.mpr fun _ _ => rfl).symm
  | discard =>
      simp only [takeOut?, hsource, Option.map_eq_some_iff,
        Prod.mk.injEq] at htaken
      obtain ⟨found, hfind, rfl, rfl, rfl⟩ := htaken
      have hwanted := List.find?_some hfind
      refine ⟨⟨hsource.symm, by simpa [hsource] using hwanted⟩, ?_, ?_, rfl⟩
      · rw [placements, coe_map_eq_cons (Placement.mk .discard none) hfind]
        simp only [Multiset.add_cons]
        rfl
      · intro _
        exact (List.filter_eq_self.mpr fun _ _ => rfl).symm

theorem takeOut?_eq_none_iff {table : Table} {move : Move} :
    table.takeOut? move = none ↔
      ∀ placement ∈ table.placements, ¬ move.Picks placement := by
  constructor
  · intro hnone placement hmem hpicks
    obtain ⟨hzone, hkey⟩ := hpicks
    rcases mem_placements.mp hmem with
      ⟨seat, hseat, rfl⟩ | ⟨card, hcard, rfl⟩ | ⟨card, hcard, rfl⟩
    · have hsource : move.source = .play := hzone.symm
      simp only [takeOut?, hsource, Option.map_eq_none_iff,
        List.find?_eq_none] at hnone
      have hseat := hnone seat hseat
      cases hplay : move.play <;>
        simp_all [InPlay.placement]
    · have hsource : move.source = .deck := hzone.symm
      simp only [takeOut?, hsource, Option.map_eq_none_iff,
        List.find?_eq_none] at hnone
      have hcard := hnone card hcard
      simp_all
    · have hsource : move.source = .discard := hzone.symm
      simp only [takeOut?, hsource, Option.map_eq_none_iff,
        List.find?_eq_none] at hnone
      have hcard := hnone card hcard
      simp_all
  · intro hnone
    cases htaken : table.takeOut? move with
    | none => rfl
    | some answer =>
        have hspec := takeOut?_eq_some htaken
        exact absurd hspec.picks
          (hnone _ (hspec.placements ▸ Multiset.mem_cons_self _ _))

/-- All that a move does which is made as `done`: it takes the card from the
placement `taken` and leaves the other placements, `rest`, as they are. -/
structure Carried (table : Table) (next : PlayId) (move done : Move)
    (after : Table) (later : PlayId) (taken : Placement)
    (rest : Multiset Placement) : Prop where
  picks : move.Picks taken
  before : table.placements = taken ::ₘ rest
  placed : after.placements = done.landing taken.card ::ₘ rest
  done_eq : done = { move with play := done.play }
  numbered :
    move.dest ≠ .play ∧ done.play = taken.play ∧ later = next ∨
    move.dest = .play ∧ move.play.isSome ∧ done.play = move.play ∧
      later = next ∨
    move.dest = .play ∧ move.play = none ∧ done.play = some next ∧
      next.next = .ok later
  slotted : (table.cards.map InPlay.play).Nodup →
    after.slotted =
      table.slotted.filter (fun seat => some seat.play != taken.play)
  frame : after = { table with
    cards := after.cards, deck := after.deck, discard := after.discard }

section Carried

variable {table after : Table} {next later : PlayId} {move done : Move}
  {taken : Placement} {rest : Multiset Placement}

theorem Carried.card_eq
    (hspec : table.Carried next move done after later taken rest) :
    done.card = move.card := by
  rw [hspec.done_eq]

theorem Carried.source_eq
    (hspec : table.Carried next move done after later taken rest) :
    done.source = move.source := by
  rw [hspec.done_eq]

theorem Carried.dest_eq
    (hspec : table.Carried next move done after later taken rest) :
    done.dest = move.dest := by
  rw [hspec.done_eq]

theorem Carried.taken_play_isSome_iff
    (hspec : table.Carried next move done after later taken rest) :
    taken.play.isSome ↔ move.source = .play := by
  have hmem : taken ∈ table.placements :=
    hspec.before ▸ Multiset.mem_cons_self taken rest
  rw [play_isSome_iff hmem, hspec.picks.1]

theorem Carried.taken_mem
    (hspec : table.Carried next move done after later taken rest) :
    taken.card ∈ table.cardsIn move.source :=
  mem_cardsIn.mpr
    ⟨taken, hspec.before ▸ Multiset.mem_cons_self taken rest, hspec.picks.1, rfl⟩

/-- A move brings no other card into a zone than the one that it takes. -/
theorem Carried.mem_cardsIn
    (hspec : table.Carried next move done after later taken rest) {zone : Zone}
    {card : Card} (hcard : card ∈ after.cardsIn zone) :
    card ∈ table.cardsIn zone ∨ zone = move.dest ∧ card = taken.card := by
  obtain ⟨placement, hmem, hzone, rfl⟩ := Table.mem_cardsIn.mp hcard
  rw [hspec.placed, Multiset.mem_cons] at hmem
  rcases hmem with rfl | hmem
  · exact .inr ⟨hzone.symm.trans hspec.dest_eq, rfl⟩
  · refine .inl (Table.mem_cardsIn.mpr ⟨placement, ?_, hzone, rfl⟩)
    rw [hspec.before]
    exact Multiset.mem_cons_of_mem hmem

/-- A move out of play remembers the number under which the card lay. -/
theorem Carried.play_eq
    (hspec : table.Carried next move done after later taken rest)
    (hloop : ¬ (move.source = .play ∧ move.dest = .play))
    (hsource : move.source = .play) : done.play = taken.play := by
  rcases hspec.numbered with ⟨-, hleft, -⟩ | ⟨hdest, -⟩ | ⟨hdest, -⟩
  · exact hleft
  · exact absurd ⟨hsource, hdest⟩ hloop
  · exact absurd ⟨hsource, hdest⟩ hloop

end Carried

theorem carryOut_eq_some {table after : Table} {next later : PlayId}
    {move done : Move}
    (hcarry : table.carryOut next move = .ok (some (done, after, later))) :
    ∃ taken rest, table.Carried next move done after later taken rest := by
  unfold carryOut at hcarry
  cases htaken : table.takeOut? move with
  | none => simp [htaken, pure_eq_ok_iff] at hcarry
  | some answer =>
      obtain ⟨card, left, rest⟩ := answer
      have hout := takeOut?_eq_some htaken
      refine ⟨⟨move.source, left, card⟩, rest.placements, ?_⟩
      cases hdest : move.dest with
      | play =>
          cases hplay : move.play with
          | none =>
              simp only [htaken, hdest, hplay, bind_eq_ok_iff, pure_eq_ok_iff,
                Option.some.injEq, Prod.mk.injEq] at hcarry
              obtain ⟨_, hnext, rfl, rfl, rfl⟩ := hcarry
              refine ⟨hout.picks, hout.placements, ?_, by simp [hdest],
                .inr (.inr ⟨hdest, hplay, rfl, hnext⟩), ?_,
                congrArg (enter · _) hout.frame⟩
              · simp [Move.landing, InPlay.placement]
              · intro hnodup
                rw [← hout.slotted hnodup]
                simp [slotted, enter]
          | some play =>
              simp only [htaken, hdest, hplay, pure_eq_ok_iff,
                Option.some.injEq, Prod.mk.injEq] at hcarry
              obtain ⟨rfl, rfl, rfl⟩ := hcarry
              refine ⟨hout.picks, hout.placements, ?_, rfl,
                .inr (.inl ⟨hdest, by simp [hplay], rfl, rfl⟩), ?_,
                congrArg (enter · _) hout.frame⟩
              · simp [Move.landing, InPlay.placement, hdest, hplay]
              · intro hnodup
                rw [← hout.slotted hnodup]
                simp [slotted, enter]
      | deck =>
          simp only [htaken, hdest, pure_eq_ok_iff,
            Option.some.injEq, Prod.mk.injEq] at hcarry
          obtain ⟨rfl, rfl, rfl⟩ := hcarry
          refine ⟨hout.picks, hout.placements, ?_, by simp [hdest],
            .inl ⟨by simp [hdest], rfl, rfl⟩, hout.slotted,
            congrArg (fun other : Table =>
              { other with deck := other.deck ++ [card] }) hout.frame⟩
          simp [Move.landing]
      | discard =>
          simp only [htaken, hdest, pure_eq_ok_iff,
            Option.some.injEq, Prod.mk.injEq] at hcarry
          obtain ⟨rfl, rfl, rfl⟩ := hcarry
          refine ⟨hout.picks, hout.placements, ?_, by simp [hdest],
            .inl ⟨by simp [hdest], rfl, rfl⟩, hout.slotted,
            congrArg (fun other : Table =>
              { other with discard := other.discard ++ [card] }) hout.frame⟩
          simp [Move.landing]

/-- A move takes its card out of its zone and puts it behind the cards of another
one.  In play it takes no slot. -/
theorem carryOut_after {table after : Table} {next later : PlayId}
    {move done : Move}
    (hcarry : table.carryOut next move = .ok (some (done, after, later))) :
    ∃ card left rest, table.takeOut? move = some (card, left, rest) ∧
      ((move.dest = .play ∧ ∃ play, after = rest.enter ⟨play, card, true⟩) ∨
      (move.dest = .deck ∧ after = { rest with deck := rest.deck ++ [card] }) ∨
      move.dest = .discard ∧
        after = { rest with discard := rest.discard ++ [card] }) := by
  unfold carryOut at hcarry
  cases htaken : table.takeOut? move with
  | none => simp [htaken, pure_eq_ok_iff] at hcarry
  | some answer =>
      obtain ⟨card, left, rest⟩ := answer
      refine ⟨card, left, rest, rfl, ?_⟩
      cases hdest : move.dest with
      | play =>
          cases hplay : move.play with
          | none =>
              simp only [htaken, hdest, hplay, bind_eq_ok_iff, pure_eq_ok_iff,
                Option.some.injEq, Prod.mk.injEq] at hcarry
              obtain ⟨_, -, -, rfl, -⟩ := hcarry
              exact .inl ⟨rfl, next, rfl⟩
          | some play =>
              simp only [htaken, hdest, hplay, pure_eq_ok_iff,
                Option.some.injEq, Prod.mk.injEq] at hcarry
              obtain ⟨-, rfl, -⟩ := hcarry
              exact .inl ⟨rfl, play, rfl⟩
      | deck =>
          simp only [htaken, hdest, pure_eq_ok_iff, Option.some.injEq,
            Prod.mk.injEq] at hcarry
          obtain ⟨-, rfl, -⟩ := hcarry
          exact .inr (.inl ⟨rfl, rfl⟩)
      | discard =>
          simp only [htaken, hdest, pure_eq_ok_iff, Option.some.injEq,
            Prod.mk.injEq] at hcarry
          obtain ⟨-, rfl, -⟩ := hcarry
          exact .inr (.inr ⟨rfl, rfl⟩)

theorem carryOut_cards {table after : Table} {next later : PlayId}
    {move done : Move}
    (hcarry : table.carryOut next move = .ok (some (done, after, later))) :
    ∃ card left rest, table.takeOut? move = some (card, left, rest) ∧
      (after.cards = rest.cards ∨
        ∃ play, after.cards = rest.cards ++ [⟨play, card, true⟩]) := by
  obtain ⟨card, left, rest, htaken, ⟨-, play, rfl⟩ | ⟨-, rfl⟩ | ⟨-, rfl⟩⟩ :=
    carryOut_after hcarry
  · exact ⟨card, left, rest, htaken, .inr ⟨play, rfl⟩⟩
  · exact ⟨card, left, rest, htaken, .inl rfl⟩
  · exact ⟨card, left, rest, htaken, .inl rfl⟩

/-- In every zone, a move puts its card last if it goes there. -/
theorem carryOut_cardsIn {table after : Table} {next later : PlayId}
    {move done : Move}
    (hcarry : table.carryOut next move = .ok (some (done, after, later))) :
    ∃ card left rest, table.takeOut? move = some (card, left, rest) ∧
      ∀ zone, after.cardsIn zone =
        rest.cardsIn zone ++ if zone = move.dest then [card] else [] := by
  obtain ⟨card, left, rest, htaken,
    ⟨hdest, play, rfl⟩ | ⟨hdest, rfl⟩ | ⟨hdest, rfl⟩⟩ := carryOut_after hcarry
  all_goals
    refine ⟨card, left, rest, htaken, fun zone => ?_⟩
    rw [hdest]
    cases zone <;> simp [cardsIn, enter]

/-- A move that names no play number takes out the first card with the identity,
and the other cards of the zone keep their order. -/
theorem takeOut?_cardsIn {table rest : Table} {move : Move} {card : Card}
    {left : Option PlayId} (hplay : move.play = none)
    (htaken : table.takeOut? move = some (card, left, rest)) :
    table.find? move.source move.card = some card ∧
      ∀ zone, rest.cardsIn zone = if zone = move.source then
        (table.cardsIn zone).eraseP (fun other => other.id == move.card)
      else table.cardsIn zone := by
  cases hsource : move.source with
  | play =>
      simp only [takeOut?, hsource, hplay, Option.map_eq_some_iff,
        Prod.mk.injEq] at htaken
      obtain ⟨seat, hfind, rfl, -, rfl⟩ := htaken
      refine ⟨?_, ?_⟩
      · rw [find?, cardsIn, List.find?_map]
        exact Option.map_eq_some_iff.mpr ⟨seat, hfind, rfl⟩
      · intro zone
        cases zone with
        | play => simp [cardsIn, List.eraseP_map, Function.comp_def]
        | deck => rfl
        | discard => rfl
  | deck =>
      simp only [takeOut?, hsource, Option.map_eq_some_iff,
        Prod.mk.injEq] at htaken
      obtain ⟨found, hfind, rfl, -, rfl⟩ := htaken
      exact ⟨hfind, fun zone => by cases zone <;> rfl⟩
  | discard =>
      simp only [takeOut?, hsource, Option.map_eq_some_iff,
        Prod.mk.injEq] at htaken
      obtain ⟨found, hfind, rfl, -, rfl⟩ := htaken
      exact ⟨hfind, fun zone => by cases zone <;> rfl⟩

theorem takeOut?_cards {table rest : Table} {move : Move} {card : Card}
    {left : Option PlayId}
    (htaken : table.takeOut? move = some (card, left, rest)) :
    rest.cards = table.cards ∨
      ∃ wanted seat, table.cards.find? wanted = some seat ∧ seat.card = card ∧
        rest.cards = table.cards.eraseP wanted := by
  cases hsource : move.source with
  | play =>
      simp only [takeOut?, hsource, Option.map_eq_some_iff,
        Prod.mk.injEq] at htaken
      obtain ⟨seat, hfind, hcard, -, rfl⟩ := htaken
      exact .inr ⟨_, seat, hfind, hcard, rfl⟩
  | deck =>
      simp only [takeOut?, hsource, Option.map_eq_some_iff,
        Prod.mk.injEq] at htaken
      obtain ⟨found, -, -, -, rfl⟩ := htaken
      exact .inl rfl
  | discard =>
      simp only [takeOut?, hsource, Option.map_eq_some_iff,
        Prod.mk.injEq] at htaken
      obtain ⟨found, -, -, -, rfl⟩ := htaken
      exact .inl rfl

/-- No card comes to take a slot by a move. -/
theorem carryOut_slotted_sublist {table after : Table} {next later : PlayId}
    {move done : Move}
    (hcarry : table.carryOut next move = .ok (some (done, after, later))) :
    after.slotted.Sublist table.slotted := by
  obtain ⟨card, left, rest, htaken, hcards⟩ := carryOut_cards hcarry
  have hrest : rest.cards.Sublist table.cards := by
    rcases takeOut?_cards htaken with hsame | ⟨wanted, seat, -, -, herased⟩
    · exact hsame ▸ List.Sublist.refl _
    · exact herased ▸ List.eraseP_sublist
  have hslotted := hrest.filter fun seat => !seat.free
  rcases hcards with hcards | ⟨play, hcards⟩
  · rw [slotted, hcards]
    exact hslotted
  · simpa [slotted, hcards] using hslotted

/-- A move is left out exactly if no placement fits it. -/
theorem carryOut_eq_none_iff {table : Table} {next : PlayId} {move : Move} :
    table.carryOut next move = .ok none ↔
      ∀ placement ∈ table.placements, ¬ move.Picks placement := by
  rw [← takeOut?_eq_none_iff]
  unfold carryOut
  cases table.takeOut? move with
  | none => simp [pure_eq_ok_iff]
  | some answer =>
      obtain ⟨card, left, rest⟩ := answer
      cases move.dest <;> cases move.play <;>
        simp only [bind_eq_ok_iff, pure_eq_ok_iff, reduceCtorEq, and_false,
          exists_false]

/-- A move that some placement fits is carried out.  It needs no new play
number unless it brings a card into play without one. -/
theorem exists_carryOut {table : Table} {move : Move} {placement : Placement}
    (next : PlayId) (hmem : placement ∈ table.placements)
    (hpicks : move.Picks placement)
    (hplay : move.dest = .play → move.play.isSome) :
    ∃ done after, table.carryOut next move = .ok (some (done, after, next)) := by
  cases htaken : table.takeOut? move with
  | none => exact absurd hpicks (takeOut?_eq_none_iff.mp htaken placement hmem)
  | some answer =>
      obtain ⟨card, left, rest⟩ := answer
      unfold carryOut
      cases hdest : move.dest with
      | play =>
          obtain ⟨play, hsome⟩ := Option.isSome_iff_exists.mp (hplay hdest)
          simp [htaken, hsome, pure_eq_ok_iff]
      | deck => simp [htaken, pure_eq_ok_iff]
      | discard => simp [htaken, pure_eq_ok_iff]

/-- Moves that name a play number wherever a card comes into play can be carried
out one after the other. -/
theorem exists_carryOutAll (table : Table) (next : PlayId)
    (moves : List Move)
    (hnumbered : ∀ move ∈ moves, move.dest = .play → move.play.isSome) :
    ∃ after, table.carryOutAll next moves = .ok (after, next) := by
  induction moves generalizing table with
  | nil => exact ⟨table, rfl⟩
  | cons move rest ih =>
      obtain ⟨hhead, htail⟩ := List.forall_mem_cons.mp hnumbered
      by_cases hpicks : ∃ placement ∈ table.placements, move.Picks placement
      · obtain ⟨placement, hmem, hpicks⟩ := hpicks
        obtain ⟨done, moved, hone⟩ := exists_carryOut next hmem hpicks hhead
        obtain ⟨after, hrest⟩ := ih moved htail
        exact ⟨after, by rw [carryOutAll, hone]; exact hrest⟩
      · have hone : table.carryOut next move = .ok none := by
          apply carryOut_eq_none_iff.mpr
          exact fun placement hmem hpick => hpicks ⟨placement, hmem, hpick⟩
        obtain ⟨after, hrest⟩ := ih table htail
        exact ⟨after, by rw [carryOutAll, hone]; exact hrest⟩

/-- What every move keeps, made or left out, moves one after the other keep. -/
theorem carryOutAll_induction {motive : Table → PlayId → List Move → Prop}
    {table after : Table} {next later : PlayId} {moves : List Move}
    (hskip : ∀ (current : Table) (number : PlayId) (move : Move)
      (rest : List Move), motive current number (move :: rest) →
      current.carryOut number move = .ok none → motive current number rest)
    (hmove : ∀ (current moved : Table) (number middle : PlayId)
      (move done : Move) (rest : List Move),
      motive current number (move :: rest) →
      current.carryOut number move = .ok (some (done, moved, middle)) →
      motive moved middle rest)
    (hstart : motive table next moves)
    (hcarry : table.carryOutAll next moves = .ok (after, later)) :
    motive after later [] := by
  induction moves generalizing table next with
  | nil =>
      simp only [carryOutAll, pure_eq_ok_iff, Prod.mk.injEq] at hcarry
      obtain ⟨rfl, rfl⟩ := hcarry
      exact hstart
  | cons move rest ih =>
      rw [carryOutAll, bind_eq_ok_iff] at hcarry
      obtain ⟨answer, hone, hrest⟩ := hcarry
      cases answer with
      | none => exact ih (hskip table next move rest hstart hone) hrest
      | some made =>
          obtain ⟨done, moved, middle⟩ := made
          exact ih (hmove table moved next middle move done rest hstart hone)
            hrest

theorem carryOutAll_frame {table after : Table} {next later : PlayId}
    {moves : List Move}
    (hcarry : table.carryOutAll next moves = .ok (after, later)) :
    after = { table with
      cards := after.cards, deck := after.deck, discard := after.discard } := by
  refine carryOutAll_induction
    (motive := fun current _ _ => current = { table with
      cards := current.cards, deck := current.deck, discard := current.discard })
    (fun _ _ _ _ hkept _ => hkept) ?_ rfl hcarry
  intro current moved number middle move done rest hkept hone
  obtain ⟨taken, others, hspec⟩ := carryOut_eq_some hone
  rw [hspec.frame, hkept]

theorem carryOutAll_slotted_sublist {table after : Table} {next later : PlayId}
    {moves : List Move}
    (hcarry : table.carryOutAll next moves = .ok (after, later)) :
    after.slotted.Sublist table.slotted := by
  refine carryOutAll_induction
    (motive := fun current _ _ => current.slotted.Sublist table.slotted)
    (fun _ _ _ _ hkept _ => hkept) ?_ (List.Sublist.refl _) hcarry
  intro current moved number middle move done rest hkept hone
  exact (carryOut_slotted_sublist hone).trans hkept

/-- The card that is taken from the deck, or else from the discard pile, when a
card of this identity is played. -/
def withdrawn? (table : Table) (id : CardId) : Option Card :=
  (table.find? .deck id).or (table.find? .discard id)

theorem withdraw_frame (table : Table) (id : CardId) :
    table.withdraw id = { table with
      deck := (table.withdraw id).deck
      discard := (table.withdraw id).discard } := by
  unfold withdraw
  dsimp only
  split
  · rfl
  · rfl

theorem effects_withdraw (table : Table) (id : CardId) :
    (table.withdraw id).effects = table.effects := by
  rw [withdraw_frame]

/-- Withdrawing takes one card out of the deck or the discard pile, if one of
them holds it. -/
theorem placements_withdraw (table : Table) (id : CardId) :
    (table.withdrawn? id = none ∧ table.withdraw id = table) ∨
      ∃ card zone, table.withdrawn? id = some card ∧ card.id = id ∧
        table.placements =
          ⟨zone, none, card⟩ ::ₘ (table.withdraw id).placements := by
  cases hdeck : table.deck.find? (fun card => card.id == id) with
  | some card =>
      have hwanted := List.find?_some hdeck
      have hany : table.deck.any (fun card => card.id == id) = true :=
        List.any_eq_true.mpr
          ⟨card, List.mem_of_find?_eq_some hdeck, hwanted⟩
      refine .inr ⟨card, .deck, ?_, by simpa using hwanted, ?_⟩
      · simp [withdrawn?, find?, cardsIn, hdeck]
      · rw [withdraw, if_pos hany, placements,
          coe_map_eq_cons (Placement.mk .deck none) hdeck]
        simp only [Multiset.cons_add, Multiset.add_cons]
        rfl
  | none =>
      have hany : ¬ table.deck.any (fun card => card.id == id) = true := by
        simpa using hdeck
      cases hdiscard : table.discard.find? (fun card => card.id == id) with
      | some card =>
          have hwanted := List.find?_some hdiscard
          refine .inr ⟨card, .discard, ?_, by simpa using hwanted, ?_⟩
          · simp [withdrawn?, find?, cardsIn, hdeck, hdiscard]
          · rw [withdraw, if_neg hany, placements,
              coe_map_eq_cons (Placement.mk .discard none) hdiscard]
            simp only [Multiset.add_cons]
            rfl
      | none =>
          refine .inl ⟨?_, ?_⟩
          · simp [withdrawn?, find?, cardsIn, hdeck, hdiscard]
          · rw [withdraw, if_neg hany,
              List.eraseP_of_forall_not (List.find?_eq_none.mp hdiscard)]

end Table

end Tableau
