import Tableau.Proofs.Actions
import Tableau.Proofs.Eligibility
import Tableau.Proofs.LimitTotals

/-!
The suit restriction on the table.  A card is checked against the last restriction
of all effects in play, and an effect with a restriction of its own is checked
against all cards in play; so while no card comes into play behind these checks,
every card in play has the suit that is asked for.  Main statement:
`run_onlySuit`.
-/

namespace Tableau

namespace Limits

variable {rules : Rules} {scripts : List Script} {script : Script}
  {carry : Option CarryOver} {limits wider : Limits}

theorem onlySuit_of_resolve (hlimits : resolve rules scripts carry = .ok limits) :
    limits.onlySuit =
      ((scripts.flatMap Script.limits).filterMap LimitRule.onlySuit?).getLast? :=
  (totals_of_resolve hlimits).2.onlySuit

theorem onlySuit_of_resolve_concat
    (hlimits : resolve rules scripts carry = .ok limits)
    (hwider : resolve rules (scripts ++ [script]) carry = .ok wider) :
    wider.onlySuit = script.onlySuit.or limits.onlySuit := by
  rw [onlySuit_of_resolve hlimits, onlySuit_of_resolve hwider, Script.onlySuit]
  simp only [List.flatMap_append, List.flatMap_singleton, List.filterMap_append,
    List.getLast?_append]

theorem checkSuit_eq_ok_iff {suit : Suit} :
    limits.checkSuit suit = .ok () ↔
      ∀ allowed, limits.onlySuit = some allowed → suit = allowed := by
  unfold checkSuit
  cases limits.onlySuit with
  | none => simp
  | some allowed => simp [eq_comm]

theorem checkSuit_of_checkCard {table : Table} {suit : Suit}
    (hcheck : limits.checkCard table suit = .ok (.ok ())) :
    limits.checkSuit suit = .ok () := by
  unfold checkCard at hcheck
  cases hsuit : limits.checkSuit suit with
  | error fault => simp [hsuit, pure_eq_ok_iff] at hcheck
  | ok allowed => rfl

end Limits

namespace Game

variable {game after : Game} {limits : Limits}

/-- The limits in force, and that all cards in play have the suit that they ask
for. -/
structure Suited (game : Game) (limits : Limits) : Prop where
  inForce : Limits.ofTable game.rules game.table = .ok limits
  suits : ∀ allowed, limits.onlySuit = some allowed →
    ∀ card ∈ game.table.cardsIn .play, card.suit = allowed

theorem Suited.of_cards (hsuited : game.Suited limits)
    (hcards : ∀ card ∈ after.table.cardsIn .play,
      card ∈ game.table.cardsIn .play ∨ limits.checkSuit card.suit = .ok ())
    (hrules : after.rules = game.rules)
    (heffects : after.table.effects = game.table.effects)
    (hcarry : after.table.carry = game.table.carry) : after.Suited limits := by
  refine ⟨?_, ?_⟩
  · rw [Limits.ofTable, Table.scripts, heffects, hcarry, hrules]
    exact hsuited.inForce
  · intro allowed hallowed card hcard
    rcases hcards card hcard with hold | hchecked
    · exact hsuited.suits allowed hallowed card hold
    · exact Limits.checkSuit_eq_ok_iff.mp hchecked allowed hallowed

theorem CardPlayed.suited {card : Card} (hplayed : game.CardPlayed card after)
    (hsuited : game.Suited limits) : after.Suited limits := by
  obtain ⟨checked, hchecked, hallowed⟩ := hplayed.allowed
  cases hsuited.inForce.symm.trans hchecked
  have hsuit : limits.checkSuit card.suit = .ok () := by
    split at hallowed
    · exact hallowed
    · exact Limits.checkSuit_of_checkCard hallowed
  refine hsuited.of_cards ?_ ?_ ?_ hplayed.carry_eq
  · intro other hother
    rw [hplayed.cardsIn_play] at hother
    rcases List.mem_append.mp hother with hold | hnew
    · exact .inl hold
    · rw [List.mem_singleton.mp hnew]
      exact .inr hsuit
  · rw [hplayed.frame]
  · rw [hplayed.table_frame]

/-- An effect is checked against the cards in play, if it restricts their suit. -/
theorem EffectPlayed.suited {script : Script} {choice : Choice}
    {first : PlayId} {moves : List Move} {rest : Table}
    (hplayed : game.EffectPlayed script choice first moves rest after)
    (hcalls : script.relocation ≠ some ⟨.play⟩)
    (hsuited : game.Suited limits) : ∃ wider, after.Suited wider := by
  obtain ⟨wider, hwider, -, hcheck⟩ := canPlay_eq_ok hplayed.allowed
  obtain ⟨dest, hdest, hmoved⟩ := relocate_eq_ok hplayed.moved
  have hcards : ∀ card ∈ after.table.cardsIn .play,
      card ∈ game.table.cardsIn .play := by
    intro card hcard
    rw [hplayed.table] at hcard
    exact hmoved.mem_cardsIn (fun heq => hcalls (hdest heq.symm)) hcard
  refine ⟨wider, ?_, ?_⟩
  · rw [hplayed.ofTable_eq]
    exact hwider
  · intro allowed hallowed card hcard
    rw [Limits.onlySuit_of_resolve_concat hsuited.inForce hwider] at hallowed
    -- Either the effect has a restriction, or the one before it stays in force.
    rcases Option.or_eq_some_iff.mp hallowed with hown | ⟨-, hbefore⟩
    · obtain ⟨seat, hseat, rfl⟩ := List.mem_map.mp (hcards card hcard)
      have hsuits := (Script.checkWithout_eq_ok_iff.mp hcheck).suits
      exact Script.checkSuits_eq_ok_iff.mp hsuits allowed hown seat hseat
    · exact hsuited.suits allowed hbefore card (hcards card hcard)

theorem CardRemoved.suited {play : PlayId} {dest : Zone} {seat : InPlay}
    {rest : Multiset Placement}
    (hremoved : game.CardRemoved play dest seat rest after)
    (hsuited : game.Suited limits) : after.Suited limits := by
  refine hsuited.of_cards ?_ ?_ ?_ ?_
  · exact fun card hcard => .inl (hremoved.mem_cardsIn_play hcard)
  · rw [hremoved.frame]
  · rw [hremoved.frame]
  · rw [hremoved.frame]

theorem TurnEnded.suited (hended : game.TurnEnded after) :
    ∃ limits, after.Suited limits := by
  refine ⟨(LimitFold.start after.rules after.table.carry).close, ?_, ?_⟩
  · rw [hended.frame]
    rfl
  · intro allowed _ card hcard
    rw [hended.frame] at hcard
    cases hcard

/-- Every action keeps the suit restriction, but for those that bring cards into
play unchecked: a script that calls them, and taking an effect back. -/
theorem perform_suited {action : PlayerAction} {result : Except Refusal Answer}
    (hkept : ∀ play, action ≠ .removeEffect play)
    (hcalls : ∀ script choice, action = .playEffect script choice →
      script.relocation ≠ some ⟨.play⟩)
    (hsuited : ∃ limits, game.Suited limits)
    (hperform : game.perform action = .ok (result, after)) :
    ∃ limits, after.Suited limits := by
  obtain ⟨limits, hlimits⟩ := hsuited
  rcases perform_eq_ok hperform with ⟨-, -, rfl⟩ | ⟨answer, -, haccepted⟩
  · exact ⟨limits, hlimits⟩
  · cases haccepted with
    | deckStocked cards =>
        exact ⟨limits, hlimits.of_cards (fun _ hcard => .inl hcard) rfl rfl rfl⟩
    | cardPlayed hplayed => exact ⟨limits, hplayed.suited hlimits⟩
    | deckPlayed _ hplayed => exact ⟨limits, hplayed.suited hlimits⟩
    | effectAllowed _ => exact ⟨limits, hlimits⟩
    | @effectPlayed script choice _ _ _ _ hplayed =>
        exact hplayed.suited (hcalls script choice rfl) hlimits
    | cardRemoved hremoved => exact ⟨limits, hremoved.suited hlimits⟩
    | @effectRemoved play _ _ _ => exact absurd rfl (hkept play)
    | turnEnded hended => exact hended.suited

theorem suited_run {rules : Rules} {actions : List PlayerAction}
    (hkept : ∀ play, .removeEffect play ∉ actions)
    (hcalls : ∀ script choice, .playEffect script choice ∈ actions →
      script.relocation ≠ some ⟨.play⟩)
    (hrun : run { rules } actions = .ok game) : ∃ limits, game.Suited limits := by
  have hstart : Suited { rules } (LimitFold.start rules none).close :=
    ⟨rfl, fun _ _ _ hcard => by cases hcard⟩
  refine run_induction_mem (motive := fun current =>
    ∃ limits, current.Suited limits) ?_ ⟨_, hstart⟩ hrun
  intro current next action hmem result hcurrent hperform
  refine perform_suited ?_ ?_ hcurrent hperform
  · rintro play rfl
    exact hkept play hmem
  · rintro script choice rfl
    exact hcalls script choice hmem

/-- After every run in which no effect was taken back and none has called cards
into play, every card in play has the suit that the limits in force ask for. -/
theorem run_onlySuit {rules : Rules} {actions : List PlayerAction}
    (hkept : ∀ play, .removeEffect play ∉ actions)
    (hcalls : ∀ script choice, .playEffect script choice ∈ actions →
      script.relocation ≠ some ⟨.play⟩)
    (hrun : run { rules } actions = .ok game) :
    ∃ limits, Limits.ofTable game.rules game.table = .ok limits ∧
      ∀ suit, limits.onlySuit = some suit →
        ∀ seat ∈ game.table.cards, seat.card.suit = suit := by
  obtain ⟨limits, hsuited⟩ := suited_run hkept hcalls hrun
  refine ⟨limits, hsuited.inForce, ?_⟩
  intro suit hsuit seat hseat
  exact hsuited.suits suit hsuit seat.card (List.mem_map_of_mem hseat)

/-- A card is promised for a free replay, and it is replayed in the next turn
under a restriction to its suit.  The restriction gives way to another one once
the card is gone. -/
def changingSuits : List PlayerAction :=
  [.playCard ⟨⟨1⟩, "Roxy", .goth, 3⟩,
    .playEffect
      { id := ⟨1⟩, name := "Encore", target := { count := .one }
        promise := some { replay := true } }
      { targets := [⟨1⟩] },
    .endTurn,
    .playEffect
      { id := ⟨2⟩, name := "Dark night"
        limits := [.onlySuit .alt, .onlySuit .goth] } {},
    .playCard ⟨⟨1⟩, "Roxy", .goth, 3⟩,
    .removeCard ⟨1⟩ .discard,
    .playEffect { id := ⟨3⟩, name := "Guests", limits := [.onlySuit .alt] } {},
    .playCard ⟨⟨1⟩, "Roxy", .goth, 3⟩,
    .playCard ⟨⟨2⟩, "Mia", .alt, 4⟩]

/-- Of the last two cards, only the one of the later suit is accepted. -/
theorem run_onlySuit_changingSuits :
    ∃ game limits, run {} changingSuits = .ok game ∧
      game.table.cards.map InPlay.card = [⟨⟨2⟩, "Mia", .alt, 4⟩] ∧
      Limits.ofTable game.rules game.table = .ok limits ∧
      limits.onlySuit = some .alt ∧
      ∀ suit, limits.onlySuit = some suit →
        ∀ seat ∈ game.table.cards, seat.card.suit = suit := by
  obtain ⟨game, only, hrun, hcards, honly, hsuit⟩ : ∃ game only,
      run {} changingSuits = .ok game ∧
      game.table.cards.map InPlay.card = [⟨⟨2⟩, "Mia", .alt, 4⟩] ∧
      Limits.ofTable game.rules game.table = .ok only ∧
      only.onlySuit = some .alt := ⟨_, _, rfl, rfl, rfl, rfl⟩
  have hkept : ∀ play, .removeEffect play ∉ changingSuits := by
    intro play
    simp [changingSuits]
  have hcalls : ∀ script choice, .playEffect script choice ∈ changingSuits →
      script.relocation ≠ some ⟨.play⟩ := by
    intro script choice hmem
    simp only [changingSuits, List.mem_cons, List.not_mem_nil, reduceCtorEq,
      PlayerAction.playEffect.injEq, false_or, or_false] at hmem
    rcases hmem with ⟨rfl, -⟩ | ⟨rfl, -⟩ | ⟨rfl, -⟩ <;> simp
  obtain ⟨limits, hlimits, hall⟩ := run_onlySuit hkept hcalls hrun
  cases honly.symm.trans hlimits
  exact ⟨game, only, hrun, hcards, honly, hsuit, hall⟩

end Game

end Tableau
