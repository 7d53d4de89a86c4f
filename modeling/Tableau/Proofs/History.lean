import Tableau.Proofs.Eligibility
import Tableau.Proofs.Holdings
import Tableau.Proofs.Trace

/-!
The history of a game.  Names enter it one by one as cards are played or called
into play by an effect, and nothing takes them out.  Taking an effect back can
bring a card into play unseen, but only one that had left play with the effect;
so its name is in the history already, if cards of one identity have one name.
Main statement: `run_history`.
-/

namespace Tableau

namespace Table

section Targets

variable {table after : Table} {next later : PlayId} {move done : Move}

/-- A move that names no play number takes the first card with the identity, and
puts it last if it comes into a zone. -/
theorem carryOut_target (hplay : move.play = none)
    (hcarry : table.carryOut next move = .ok (some (done, after, later))) :
    ∃ card, table.find? move.source move.card = some card ∧
      ∀ zone, after.cardsIn zone =
        (if zone = move.source then
          (table.cardsIn zone).eraseP (fun other => other.id == move.card)
        else table.cardsIn zone) ++ if zone = move.dest then [card] else [] := by
  obtain ⟨card, left, rest, htaken, hafter⟩ := carryOut_cardsIn hcarry
  obtain ⟨hfind, hrest⟩ := takeOut?_cardsIn hplay htaken
  refine ⟨card, hfind, fun zone => ?_⟩
  rw [hafter, hrest]

theorem find?_carryOut_of_ne (hplay : move.play = none)
    (hcarry : table.carryOut next move = .ok (some (done, after, later)))
    {zone : Zone} {id : CardId} (hne : id ≠ move.card) :
    after.find? zone id = table.find? zone id := by
  obtain ⟨card, hfind, hafter⟩ := carryOut_target hplay hcarry
  have hid : card.id = move.card := by simpa using List.find?_some hfind
  have hlast : (if zone = move.dest then [card] else []).find?
      (fun other => other.id == id) = none := by
    split
    · simpa [hid] using hne.symm
    · rfl
  rw [find?, find?, hafter, List.find?_append, hlast, Option.or_none]
  split
  · apply find?_eraseP
    intro other hother
    have hsame : other.id = move.card := by simpa using hother
    simpa [hsame] using hne.symm
  · rfl

theorem history_welcome_of_carryOut (hplay : move.play = none)
    (hcarry : table.carryOut next move = .ok (some (done, after, later))) :
    ∃ card, table.find? move.source move.card = some card ∧
      (after.welcome move.dest).history =
        table.history ++ if move.dest = .play then [card.name] else [] := by
  obtain ⟨card, hfind, hafter⟩ := carryOut_target hplay hcarry
  obtain ⟨taken, others, hspec⟩ := carryOut_eq_some hcarry
  have hhistory : after.history = table.history := by rw [hspec.frame]
  refine ⟨card, hfind, ?_⟩
  unfold welcome
  split
  · rename_i hdest
    have hlast : (after.cards.getLast?).map InPlay.card = some card := by
      have hcards := hafter .play
      rw [if_pos hdest.symm] at hcards
      rw [← List.getLast?_map]
      change (after.cardsIn .play).getLast? = _
      rw [hcards, List.getLast?_concat]
    obtain ⟨seat, hseat, rfl⟩ := Option.map_eq_some_iff.mp hlast
    rw [hseat]
    exact congrArg (· ++ _) hhistory
  · rw [hhistory, List.append_nil]

end Targets

/-- The names of the cards that some moves bring into play, each looked up where
its move takes it from. -/
def arrivals (table : Table) (moves : List Move) : List (Option String) :=
  (moves.filter fun move => move.dest = .play).map fun move =>
    (table.find? move.source move.card).map Card.name

@[simp] theorem arrivals_nil (table : Table) : table.arrivals [] = [] := rfl

theorem arrivals_cons (table : Table) (move : Move) (moves : List Move) :
    table.arrivals (move :: moves) =
      (if move.dest = .play then
        [(table.find? move.source move.card).map Card.name] else []) ++
        table.arrivals moves := by
  by_cases hdest : move.dest = .play <;> simp [arrivals, hdest]

theorem arrivals_congr {table other : Table} {moves : List Move}
    (hsame : ∀ move ∈ moves, other.find? move.source move.card =
      table.find? move.source move.card) :
    other.arrivals moves = table.arrivals moves := by
  apply List.map_congr_left
  intro move hmove
  rw [hsame move (List.mem_of_mem_filter hmove)]

/-- The cards that targets bring into play enter the history, in their order. -/
theorem Relocated.history {source dest : Zone} {targets : List CardId}
    {table after : Table} {next later : PlayId} {moves : List Move}
    (hmoved : Relocated source dest targets table next moves after later)
    (hnodup : targets.Nodup) :
    ∃ more, after.history = table.history ++ more ∧
      table.arrivals moves = more.map some := by
  induction hmoved with
  | nil => exact ⟨[], by simp, rfl⟩
  | @cons id rest table moved after next middle later move moves hcarry htail
      ih =>
      obtain ⟨hhead, hrest⟩ := List.nodup_cons.mp hnodup
      obtain ⟨more, hmore, harrivals⟩ := ih hrest
      obtain ⟨card, hfind, hwelcome⟩ := history_welcome_of_carryOut rfl hcarry
      obtain ⟨taken, others, hspec⟩ := carryOut_eq_some hcarry
      -- Targets differ, so this move does not change how the later ones are found.
      have hlater : (moved.welcome dest).arrivals moves =
          table.arrivals moves := by
        apply arrivals_congr
        intro other hother
        have hmem : other.card ∈ rest :=
          htail.map_card ▸ List.mem_map_of_mem hother
        have hne : other.card ≠ id := fun heq => hhead (heq ▸ hmem)
        rw [find?, cardsIn_welcome]
        exact find?_carryOut_of_ne rfl hcarry hne
      refine ⟨(if dest = .play then [card.name] else []) ++ more, ?_, ?_⟩
      · rw [hmore, hwelcome, List.append_assoc]
      · rw [arrivals_cons, hspec.source_eq, hspec.card_eq, hspec.dest_eq, hfind,
          ← hlater, harrivals, List.map_append]
        by_cases hdest : dest = .play <;> simp [hdest]

end Table

namespace Performed

/-- The cards that the step brings into the game. -/
def gained (step : Performed) : List Card :=
  step.action.gained step.result

/-- The names that the step adds to the history: that of the card played, or
those of the cards that the moves of the effect played bring into play. -/
def newNames (step : Performed) : List (Option String) :=
  match step.action, step.result with
  | .playCard card, .ok _ => [some card.name]
  | .playFromDeck id, .ok _ => [(step.before.table.find? .deck id).map Card.name]
  | .playEffect _ _, .ok _ =>
      step.bound?.elim [] fun effect => step.before.table.arrivals effect.moves
  | _, _ => []

end Performed

namespace Game

variable {game after : Game}

theorem CardPlayed.history {card : Card} (hplayed : game.CardPlayed card after) :
    after.table.history = game.table.history ++ [card.name] := by
  rw [hplayed.table, Table.withdraw_frame]
  rfl

theorem EffectPlayed.history {script : Script} {choice : Choice}
    {first : PlayId} {moves : List Move} {rest : Table}
    (hplayed : game.EffectPlayed script choice first moves rest after) :
    ∃ more, after.table.history = game.table.history ++ more ∧
      game.table.arrivals moves = more.map some := by
  obtain ⟨dest, -, hmoved⟩ := relocate_eq_ok hplayed.moved
  obtain ⟨hnodup, -⟩ := TargetRule.validate_eq_ok hplayed.legal
  have htargets : (movedTargets script choice).Nodup := by
    unfold movedTargets
    split
    · exact hnodup
    · exact List.nodup_nil
  obtain ⟨more, hmore, harrivals⟩ := hmoved.history htargets
  exact ⟨more, by rw [hplayed.table]; exact hmore, harrivals⟩

/-- An action adds exactly its new names to the history. -/
theorem perform_history {action : PlayerAction} {result : Except Refusal Answer}
    (hperform : game.perform action = .ok (result, after)) :
    ∃ more, after.table.history = game.table.history ++ more ∧
      Performed.newNames ⟨game, action, result, after⟩ = more.map some := by
  rcases perform_eq_ok hperform with
    ⟨refusal, rfl, rfl⟩ | ⟨answer, rfl, haccepted⟩
  · refine ⟨[], by simp, ?_⟩
    unfold Performed.newNames
    cases action <;> rfl
  · cases haccepted with
    | deckStocked cards => exact ⟨[], by simp [stockDeck], rfl⟩
    | @cardPlayed card _ hplayed => exact ⟨[card.name], hplayed.history, rfl⟩
    | @deckPlayed id card _ hfind hplayed =>
        refine ⟨[card.name], hplayed.history, ?_⟩
        simp [Performed.newNames, hfind]
    | effectAllowed _ => exact ⟨[], by simp, rfl⟩
    | effectPlayed hplayed =>
        obtain ⟨more, hmore, harrivals⟩ := hplayed.history
        refine ⟨more, hmore, ?_⟩
        rw [← harrivals, Performed.newNames, Performed.bound?, hplayed.effects,
          List.getLast?_concat]
        rfl
    | cardRemoved hremoved =>
        refine ⟨[], ?_, rfl⟩
        rw [hremoved.frame]
        simp
    | effectRemoved hremoved =>
        refine ⟨[], ?_, rfl⟩
        rw [hremoved.table_frame]
        simp
    | turnEnded hended =>
        refine ⟨[], ?_, rfl⟩
        rw [hended.frame]
        simp

/-- A run adds the new names of its steps, one after the other. -/
theorem history_of_trace {actions : List PlayerAction} {steps : List Performed}
    (htrace : game.trace actions = .ok (steps, after)) :
    ∃ more, after.table.history = game.table.history ++ more ∧
      steps.flatMap Performed.newNames = more.map some := by
  refine trace_induction (motive := fun done current =>
    ∃ more, current.table.history = game.table.history ++ more ∧
      done.flatMap Performed.newNames = more.map some)
    ?_ ⟨[], by simp, rfl⟩ htrace
  rintro done step - hgenuine ⟨more, hmore, hdone⟩
  obtain ⟨names, hnames, hstep⟩ := perform_history hgenuine
  refine ⟨more ++ names, ?_, ?_⟩
  · rw [hnames, hmore, List.append_assoc]
  · rw [List.flatMap_append, List.flatMap_singleton, hdone, List.map_append,
      ← hstep]

end Game

/-- Cards of one identity have one name. -/
def OneName (cards : List Card) : Prop :=
  ∀ left ∈ cards, ∀ right ∈ cards, left.id = right.id → left.name = right.name

instance (cards : List Card) : Decidable (OneName cards) :=
  inferInstanceAs (Decidable (∀ left ∈ cards, ∀ right ∈ cards, _))

namespace Table

theorem mem_holdings {table : Table} {zone : Zone} {card : Card}
    (hcard : card ∈ table.cardsIn zone) : card ∈ table.holdings := by
  obtain ⟨placement, hmem, -, rfl⟩ := mem_cardsIn.mp hcard
  rw [holdings_eq]
  exact Multiset.mem_map_of_mem _ hmem

/-- All cards of the table are among those known, and the history names those in
play. -/
structure Chronicled (table : Table) (known : List Card) : Prop where
  held : ∀ card ∈ table.holdings, card ∈ known
  played : ∀ card ∈ table.cardsIn .play, card.name ∈ table.history

/-- If the move took a card out of play, the history names a known card with the
identity of the one that was moved. -/
def Remembers (table : Table) (known : List Card) (move : Move) : Prop :=
  move.source = .play →
    ∃ card ∈ known, card.id = move.card ∧ card.name ∈ table.history

variable {table after : Table} {known : List Card} {next later : PlayId}
  {move done : Move}

theorem Remembers.mono (hmove : table.Remembers known move)
    (hgrown : table.history ⊆ after.history) : after.Remembers known move := by
  intro hsource
  obtain ⟨card, hknown, hid, hname⟩ := hmove hsource
  exact ⟨card, hknown, hid, hgrown hname⟩

/-- A move that is reversed brings no card into play whose name is missing in the
history. -/
theorem Chronicled.carryOut (hchronicled : table.Chronicled known)
    (hnames : OneName known) (hmove : table.Remembers known move.inverse)
    (hcarry : table.carryOut next move = .ok (some (done, after, later))) :
    after.Chronicled known := by
  obtain ⟨taken, others, hspec⟩ := carryOut_eq_some hcarry
  have hhistory : after.history = table.history := by rw [hspec.frame]
  refine ⟨?_, ?_⟩
  · rw [hspec.holdings]
    exact hchronicled.held
  · intro card hcard
    rw [hhistory]
    rcases hspec.mem_cardsIn hcard with hold | ⟨hdest, rfl⟩
    · exact hchronicled.played card hold
    · -- A card that was in play already may have been found by its number.
      by_cases hsource : move.source = .play
      · exact hchronicled.played taken.card (hsource ▸ hspec.taken_mem)
      · obtain ⟨card, hknown, hid, hname⟩ := hmove hdest.symm
        have hpicks := hspec.picks.2
        rw [if_neg fun hboth => hsource hboth.1] at hpicks
        have htaken := hchronicled.held _ (mem_holdings hspec.taken_mem)
        rw [hnames taken.card htaken card hknown (hpicks.trans hid.symm)]
        exact hname

theorem Chronicled.carryOutAll {moves : List Move}
    (hchronicled : table.Chronicled known) (hnames : OneName known)
    (hmoves : ∀ move ∈ moves, table.Remembers known move.inverse)
    (hcarry : table.carryOutAll next moves = .ok (after, later)) :
    after.Chronicled known := by
  refine (carryOutAll_induction
    (motive := fun current _ rest => current.Chronicled known ∧
      ∀ move ∈ rest, current.Remembers known move.inverse)
    ?_ ?_ ⟨hchronicled, hmoves⟩ hcarry).1
  · rintro current number move rest ⟨hcurrent, hrest⟩ -
    exact ⟨hcurrent, (List.forall_mem_cons.mp hrest).2⟩
  · rintro current moved number middle move done rest ⟨hcurrent, hrest⟩ hone
    obtain ⟨hmove, hlater⟩ := List.forall_mem_cons.mp hrest
    refine ⟨hcurrent.carryOut hnames hmove hone, ?_⟩
    intro other hother
    obtain ⟨taken, others, hspec⟩ := carryOut_eq_some hone
    apply (hlater other hother).mono
    rw [hspec.frame]
    exact List.Subset.refl _

theorem Chronicled.target (hchronicled : table.Chronicled known)
    (hplay : move.play = none)
    (hcarry : table.carryOut next move = .ok (some (done, after, later))) :
    (after.welcome move.dest).Chronicled known := by
  obtain ⟨taken, others, hspec⟩ := carryOut_eq_some hcarry
  obtain ⟨card, hfind, hcards⟩ := carryOut_target hplay hcarry
  obtain ⟨same, hsame, hwelcome⟩ := history_welcome_of_carryOut hplay hcarry
  cases hfind.symm.trans hsame
  refine ⟨?_, ?_⟩
  · rw [holdings_eq, placements_welcome, ← holdings_eq, hspec.holdings]
    exact hchronicled.held
  · intro other hother
    rw [cardsIn_welcome, hcards, List.mem_append] at hother
    rw [hwelcome, List.mem_append]
    rcases hother with hold | hnew
    · left
      apply hchronicled.played
      split at hold
      · exact List.mem_of_mem_eraseP hold
      · exact hold
    · right
      split at hnew
      · rename_i hdest
        rw [if_pos hdest.symm, List.mem_singleton.mp hnew]
        exact List.mem_singleton_self _
      · cases hnew

/-- Targets that come into play enter the history, and those that leave play are
in it. -/
theorem Relocated.chronicled {source dest : Zone} {targets : List CardId}
    {moves : List Move}
    (hmoved : Relocated source dest targets table next moves after later)
    (hchronicled : table.Chronicled known) :
    after.Chronicled known ∧ table.history ⊆ after.history ∧
      ∀ move ∈ moves, after.Remembers known move := by
  induction hmoved with
  | nil => exact ⟨hchronicled, List.Subset.refl _, by simp⟩
  | @cons id rest table moved after next middle later move moves hcarry htail
      ih =>
      obtain ⟨taken, others, hspec⟩ := carryOut_eq_some hcarry
      obtain ⟨card, hfind, hwelcome⟩ := history_welcome_of_carryOut rfl hcarry
      have hmem : card ∈ table.cardsIn source := List.mem_of_find?_eq_some hfind
      have hid : card.id = id := by simpa using List.find?_some hfind
      have hgrown : table.history ⊆ (moved.welcome dest).history := by
        rw [hwelcome]
        exact List.subset_append_left _ _
      obtain ⟨hafter, hlater, hmoves⟩ := ih (hchronicled.target rfl hcarry)
      refine ⟨hafter, List.Subset.trans hgrown hlater,
        List.forall_mem_cons.mpr ⟨fun hsource => ?_, hmoves⟩⟩
      rw [hspec.source_eq] at hsource
      refine ⟨card, hchronicled.held card (mem_holdings hmem), ?_, ?_⟩
      · rw [hspec.card_eq]
        exact hid
      · exact hlater (hgrown (hchronicled.played card (hsource ▸ hmem)))

end Table

namespace Game

/-- What the history of a game is sure to name: the cards in play, and those that
effects in play have moved out of it. -/
structure Chronicled (game : Game) (known : List Card) : Prop where
  table : game.table.Chronicled known
  moves : ∀ effect ∈ game.table.effects, ∀ move ∈ effect.moves,
    game.table.Remembers known move

variable {game after : Game} {known : List Card}

theorem CardPlayed.chronicled {card : Card}
    (hplayed : game.CardPlayed card after) (hknown : card ∈ known)
    (hchronicled : game.Chronicled known) : after.Chronicled known := by
  have hhistory := hplayed.history
  refine ⟨⟨?_, ?_⟩, ?_⟩
  · intro other hother
    have hmem : other ∈ game.table.holdings + {card} :=
      hplayed.holdings ▸ Multiset.mem_add.mpr (.inl hother)
    rcases Multiset.mem_add.mp hmem with hold | hnew
    · exact hchronicled.table.held other hold
    · rw [Multiset.mem_singleton.mp hnew]
      exact hknown
  · intro other hother
    rw [hplayed.cardsIn_play, List.mem_append] at hother
    rw [hhistory, List.mem_append]
    rcases hother with hold | hnew
    · exact .inl (hchronicled.table.played other hold)
    · right
      rw [List.mem_singleton.mp hnew]
      exact List.mem_singleton_self _
  · intro effect heffect move hmove
    rw [hplayed.table_frame] at heffect
    apply (hchronicled.moves effect heffect move hmove).mono
    rw [hhistory]
    exact List.subset_append_left _ _

theorem EffectPlayed.chronicled {script : Script} {choice : Choice}
    {first : PlayId} {moves : List Move} {rest : Table}
    (hplayed : game.EffectPlayed script choice first moves rest after)
    (hchronicled : game.Chronicled known) : after.Chronicled known := by
  obtain ⟨dest, -, hmoved⟩ := relocate_eq_ok hplayed.moved
  obtain ⟨hrest, hgrown, hmoves⟩ := hmoved.chronicled hchronicled.table
  have hhistory : after.table.history = rest.history := by rw [hplayed.table]
  refine ⟨⟨?_, ?_⟩, ?_⟩
  · rw [hplayed.holdings]
    exact hchronicled.table.held
  · rw [hplayed.table]
    exact hrest.played
  · intro effect heffect move hmove
    rw [hplayed.effects] at heffect
    rcases List.mem_append.mp heffect with hold | hnew
    · exact (hchronicled.moves effect hold move hmove).mono (hhistory ▸ hgrown)
    · rw [List.mem_singleton.mp hnew] at hmove
      exact (hmoves move hmove).mono (hhistory ▸ List.Subset.refl _)

theorem CardRemoved.chronicled {play : PlayId} {dest : Zone} {seat : InPlay}
    {rest : Multiset Placement}
    (hremoved : game.CardRemoved play dest seat rest after)
    (hchronicled : game.Chronicled known) : after.Chronicled known := by
  have hhistory : after.table.history = game.table.history := by
    rw [hremoved.frame]
  refine ⟨⟨?_, ?_⟩, ?_⟩
  · have hholdings : after.table.holdings = game.table.holdings := by
      rw [Table.holdings_eq, Table.holdings_eq, hremoved.before,
        hremoved.placed, Multiset.map_cons, Multiset.map_cons]
      rfl
    rw [hholdings]
    exact hchronicled.table.held
  · intro card hcard
    rw [hhistory]
    exact hchronicled.table.played card (hremoved.mem_cardsIn_play hcard)
  · intro effect heffect move hmove
    rw [hremoved.frame] at heffect
    exact (hchronicled.moves effect heffect move hmove).mono
      (hhistory ▸ List.Subset.refl _)

theorem EffectRemoved.chronicled {play : PlayId} {effect : Effect}
    (hremoved : game.EffectRemoved play effect after)
    (hnames : OneName known) (hchronicled : game.Chronicled known) :
    after.Chronicled known := by
  have hhistory : after.table.history = game.table.history := by
    rw [hremoved.table_frame]
  refine ⟨?_, ?_⟩
  · have hstart : (game.table.withoutEffect play).Chronicled known :=
      ⟨hchronicled.table.held, hchronicled.table.played⟩
    refine hstart.carryOutAll hnames ?_ hremoved.undone
    intro move hmove
    exact hchronicled.moves effect (List.mem_of_find?_eq_some hremoved.found) _
      (Effect.mem_reversedMoves.mp hmove).2
  · intro other hother move hmove
    rw [hremoved.effects] at hother
    have hmem : other ∈ game.table.effects := List.mem_of_mem_eraseP hother
    exact (hchronicled.moves other hmem move hmove).mono
      (hhistory ▸ List.Subset.refl _)

theorem TurnEnded.chronicled (hended : game.TurnEnded after)
    (hchronicled : game.Chronicled known) : after.Chronicled known := by
  refine ⟨⟨?_, ?_⟩, ?_⟩
  · have hholdings : after.table.holdings = game.table.holdings := by
      rw [hended.frame]
      simp [Table.holdings]
    rw [hholdings]
    exact hchronicled.table.held
  · intro card hcard
    rw [hended.frame] at hcard
    cases hcard
  · intro effect heffect
    rw [hended.frame] at heffect
    cases heffect

theorem Chronicled.stockDeck {cards : List Card} (hknown : cards ⊆ known)
    (hchronicled : game.Chronicled known) :
    (game.stockDeck cards).Chronicled known := by
  refine ⟨⟨?_, hchronicled.table.played⟩, hchronicled.moves⟩
  intro card hcard
  have hmem : card ∈ game.table.holdings ∨ card ∈ cards := by
    simp only [Game.stockDeck, Table.holdings, Multiset.mem_add,
      Multiset.mem_coe, List.mem_append] at hcard ⊢
    tauto
  rcases hmem with hold | hnew
  · exact hchronicled.table.held card hold
  · exact hknown hnew

/-- Every action keeps the cards in play named, as long as all cards that it
brings into the game are known, and known cards of one identity have one name. -/
theorem perform_chronicled {action : PlayerAction}
    {result : Except Refusal Answer} (hnames : OneName known)
    (hgained : action.gained result ⊆ known)
    (hchronicled : game.Chronicled known)
    (hperform : game.perform action = .ok (result, after)) :
    after.Chronicled known := by
  rcases perform_eq_ok hperform with ⟨-, -, rfl⟩ | ⟨answer, rfl, haccepted⟩
  · exact hchronicled
  · cases haccepted with
    | deckStocked cards => exact hchronicled.stockDeck hgained
    | cardPlayed hplayed =>
        exact hplayed.chronicled (hgained (List.mem_singleton_self _)) hchronicled
    | deckPlayed hfind hplayed =>
        refine hplayed.chronicled ?_ hchronicled
        apply hchronicled.table.held
        exact Table.mem_holdings (List.mem_of_find?_eq_some hfind)
    | effectAllowed _ => exact hchronicled
    | effectPlayed hplayed => exact hplayed.chronicled hchronicled
    | cardRemoved hremoved => exact hremoved.chronicled hchronicled
    | effectRemoved hremoved => exact hremoved.chronicled hnames hchronicled
    | turnEnded hended => exact hended.chronicled hchronicled

theorem chronicled_of_trace {actions : List PlayerAction}
    {steps : List Performed} (hnames : OneName known)
    (hgained : steps.flatMap Performed.gained ⊆ known)
    (hstart : game.Chronicled known)
    (htrace : game.trace actions = .ok (steps, after)) :
    after.Chronicled known := by
  refine trace_induction (motive := fun _ current => current.Chronicled known)
    ?_ hstart htrace
  intro done step hmem hgenuine hcurrent
  refine perform_chronicled hnames (fun card hcard => ?_) hcurrent hgenuine
  exact hgained (List.mem_flatMap.mpr ⟨step, hmem, hcard⟩)

/-- The history of a game holds exactly the names that the steps of its run have
added, in their order, and every further run only adds names behind them.  So a
requirement on the history stays fulfilled.  If all cards of one identity that ever
came into the game have one name, the history names every card in play. -/
theorem run_history {rules : Rules} {earlier later : List PlayerAction}
    (hearlier : run { rules } earlier = .ok game)
    (hlater : game.run later = .ok after) :
    ∃ done steps more, trace { rules } earlier = .ok (done, game) ∧
      game.trace later = .ok (steps, after) ∧
      done.flatMap Performed.newNames = game.table.history.map some ∧
      steps.flatMap Performed.newNames = more.map some ∧
      after.table.history = game.table.history ++ more ∧
      (∀ start, (Requirement.historyStart start).check game.table = .ok () →
        (Requirement.historyStart start).check after.table = .ok ()) ∧
      (OneName ((done ++ steps).flatMap Performed.gained) →
        ∀ seat ∈ after.table.cards, seat.card.name ∈ after.table.history) := by
  obtain ⟨done, hdone⟩ := exists_trace hearlier
  obtain ⟨steps, hsteps⟩ := exists_trace hlater
  obtain ⟨names, hnames, hfirst⟩ := history_of_trace hdone
  obtain ⟨more, hmore, hrest⟩ := history_of_trace hsteps
  refine ⟨done, steps, more, hdone, hsteps, ?_, hrest, hmore, ?_, ?_⟩
  · rw [hnames]
    exact hfirst
  · intro start hcheck
    obtain ⟨name, hmem, hbegins⟩ := Requirement.check_historyStart_iff.mp hcheck
    refine Requirement.check_historyStart_iff.mpr ⟨name, ?_, hbegins⟩
    rw [hmore]
    exact List.mem_append_left more hmem
  · intro hone seat hseat
    rw [List.flatMap_append] at hone
    have hempty : Chronicled { rules }
        (done.flatMap Performed.gained ++ steps.flatMap Performed.gained) :=
      ⟨⟨by simp [Table.holdings], by simp [Table.cardsIn]⟩, by simp⟩
    have hgame := chronicled_of_trace hone (List.subset_append_left _ _) hempty
      hdone
    have hafter := chronicled_of_trace hone (List.subset_append_right _ _) hgame
      hsteps
    exact hafter.table.played seat.card (List.mem_map_of_mem hseat)

def miaThenRoxy : List PlayerAction :=
  [.stockDeck [⟨⟨1⟩, "Roxy", .goth, 3⟩, ⟨⟨3⟩, "Zoe", .alt, 5⟩],
    .playCard ⟨⟨2⟩, "Mia", .alt, 4⟩,
    .playEffect (.mover "Call" .deck .play) { targets := [⟨1⟩] }]

def miaReturns : List PlayerAction :=
  [.playEffect (.mover "Banish" .play .discard) { targets := [⟨2⟩] },
    .removeEffect ⟨3⟩, .playFromDeck ⟨3⟩]

/-- The history names every card once. -/
theorem run_history_miaReturns :
    ∃ game after more, run {} miaThenRoxy = .ok game ∧
      game.run miaReturns = .ok after ∧
      after.table.cards.map (fun seat => seat.card.name) =
        ["Roxy", "Mia", "Zoe"] ∧
      after.table.history = ["Mia", "Roxy", "Zoe"] ∧
      after.table.history = game.table.history ++ more ∧
      (∀ start, (Requirement.historyStart start).check game.table = .ok () →
        (Requirement.historyStart start).check after.table = .ok ()) ∧
      ∀ seat ∈ after.table.cards, seat.card.name ∈ after.table.history := by
  obtain ⟨game, after, first, second, hearlier, hlater, hcards, hhistory, hfirst,
      hsecond, hone⟩ :
      ∃ game after first second, run {} miaThenRoxy = .ok game ∧
        game.run miaReturns = .ok after ∧
        after.table.cards.map (fun seat => seat.card.name) =
          ["Roxy", "Mia", "Zoe"] ∧
        after.table.history = ["Mia", "Roxy", "Zoe"] ∧
        trace {} miaThenRoxy = .ok (first, game) ∧
        game.trace miaReturns = .ok (second, after) ∧
        OneName ((first ++ second).flatMap Performed.gained) :=
    ⟨_, _, _, _, rfl, rfl, rfl, rfl, rfl, rfl, by decide⟩
  obtain ⟨done, steps, more, hdone, hsteps, -, -, hmore, hcheck, hnamed⟩ :=
    run_history hearlier hlater
  cases hfirst.symm.trans hdone
  cases hsecond.symm.trans hsteps
  exact ⟨game, after, more, hearlier, hlater, hcards, hhistory, hmore, hcheck,
    hnamed hone⟩

end Game

end Tableau
