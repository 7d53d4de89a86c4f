import Tableau.Game.Snapshot
import Tableau.Proofs.Unpacking

/-!
Snapshots hold everything: a game that was saved is loaded again as it was,
whatever bytes stand behind the snapshot and in whatever order the multipliers
of its carry-over were written.  Main statement: `load?_save`.
-/

namespace Tableau

open Packed

section Cards

theorem Suit.getElem?_all (suit : Suit) : all[suit.index]? = some suit := by
  cases suit <;> rfl

instance : LawfulPacked Suit where
  reads_pack suit :=
    reads_packIndex_oneOf suit.getElem?_all (by cases suit <;> decide)
  pack_ne_nil _ := List.cons_ne_nil _ _

instance : LawfulPacked Zone where
  reads_pack zone :=
    reads_packIndex_oneOf (by cases zone <;> rfl) (by cases zone <;> decide)
  pack_ne_nil _ := List.cons_ne_nil _ _

instance : LawfulPacked CardId where
  reads_pack id := (reads_pack id.number).last
  pack_ne_nil id := pack_ne_nil id.number

instance : LawfulPacked EffectId where
  reads_pack id := (reads_pack id.number).last
  pack_ne_nil id := pack_ne_nil id.number

instance : LawfulPacked PlayId where
  reads_pack play := (reads_pack play.number).last
  pack_ne_nil play := pack_ne_nil play.number

instance : LawfulPacked Card where
  reads_pack card :=
    .regroup <| (reads_pack card.id).bind <| (reads_pack card.name).bind <|
      (reads_pack card.suit).bind (reads_pack card.base).last
  pack_ne_nil card :=
    List.append_ne_nil_of_right_ne_nil _ (pack_ne_nil card.base)

instance : LawfulPacked InPlay where
  reads_pack seat :=
    .regroup <| (reads_pack seat.play).bind <| (reads_pack seat.card).bind
      (reads_pack seat.free).last
  pack_ne_nil seat :=
    List.append_ne_nil_of_right_ne_nil _ (pack_ne_nil seat.free)

end Cards

section Scripts

instance : LawfulPacked TargetCount where
  reads_pack count := by
    cases count with
    | none => exact (reads_packIndex 0 (by decide)).judge (.pure _)
    | one => exact (reads_packIndex 1 (by decide)).judge (.pure _)
    | between least most =>
        exact .regroup <| (reads_packIndex 2 (by decide)).bind <|
          (reads_pack least).bind (reads_pack most).last
  pack_ne_nil count := by
    cases count <;> exact List.cons_ne_nil _ _

instance : LawfulPacked TargetRule where
  reads_pack rule :=
    .regroup <| (reads_pack rule.count).bind <| (reads_pack rule.suit).bind <|
      (reads_pack rule.distinct).bind (reads_pack rule.zone).last
  pack_ne_nil rule :=
    List.append_ne_nil_of_right_ne_nil _ (pack_ne_nil rule.zone)

instance : LawfulPacked Scope where
  reads_pack scope := by
    have hread : Reads unpack (pack scope) (Scope.ofTag scope.tag) :=
      (reads_pack scope.tag).last
    rwa [Scope.ofTag_tag] at hread
  pack_ne_nil scope := pack_ne_nil scope.tag

instance : LawfulPacked Action where
  reads_pack action := by
    have hread : Reads unpack (pack action) (Action.ofTag action.tag) :=
      (reads_pack action.tag).last
    rwa [Action.ofTag_tag] at hread
  pack_ne_nil action := pack_ne_nil action.tag

instance : LawfulPacked Reach where
  reads_pack reach :=
    reads_packIndex_oneOf (by cases reach <;> rfl) (by cases reach <;> decide)
  pack_ne_nil _ := List.cons_ne_nil _ _

instance : LawfulPacked Step where
  reads_pack step :=
    .regroup <| (reads_pack step.scope).bind <| (reads_pack step.action).bind <|
      (reads_pack step.amount).bind <| (reads_pack step.suit).bind <|
      (reads_pack step.gate).bind <| (reads_pack step.reach).bind <|
      (reads_pack step.factor).bind (reads_pack step.soloFactor).last
  pack_ne_nil step :=
    List.append_ne_nil_of_right_ne_nil _ (pack_ne_nil step.soloFactor)

instance : LawfulPacked Requirement where
  reads_pack requirement := by
    cases requirement with
    | soleCard name =>
        exact (reads_packIndex 0 (by decide)).bind (reads_pack name).last
    | discardHolds name =>
        exact (reads_packIndex 1 (by decide)).bind (reads_pack name).last
    | discardCount suit least =>
        exact .regroup <| (reads_packIndex 2 (by decide)).bind <|
          (reads_pack suit).bind (reads_pack least).last
    | historyStart start =>
        exact (reads_packIndex 3 (by decide)).bind (reads_pack start).last
    | discardBase score =>
        exact (reads_packIndex 4 (by decide)).bind (reads_pack score).last
  pack_ne_nil requirement := by
    cases requirement <;> exact List.cons_ne_nil _ _

instance : LawfulPacked LimitRule where
  reads_pack rule := by
    cases rule with
    | openEffects => exact (reads_packIndex 0 (by decide)).judge (.pure _)
    | cardFloor least =>
        exact (reads_packIndex 1 (by decide)).bind (reads_pack least).last
    | extraPlays cards effects =>
        exact .regroup <| (reads_packIndex 2 (by decide)).bind <|
          (reads_pack cards).bind (reads_pack effects).last
    | effectCap most =>
        exact (reads_packIndex 3 (by decide)).bind (reads_pack most).last
    | onlySuit suit =>
        exact (reads_packIndex 4 (by decide)).bind (reads_pack suit).last
    | takesSlot => exact (reads_packIndex 5 (by decide)).judge (.pure _)
    | extraSuit suit slots =>
        exact .regroup <| (reads_packIndex 6 (by decide)).bind <|
          (reads_pack suit).bind (reads_pack slots).last
  pack_ne_nil rule := by
    cases rule <;> exact List.cons_ne_nil _ _

instance : LawfulPacked Promise where
  reads_pack promise :=
    .regroup <| (reads_pack promise.add).bind <|
      (reads_pack promise.mult).bind <| (reads_pack promise.replay).bind <|
      (reads_pack promise.targetMult).bind (reads_pack promise.openCards).last
  pack_ne_nil promise :=
    List.append_ne_nil_of_right_ne_nil _ (pack_ne_nil promise.openCards)

instance : LawfulPacked Reversal where
  reads_pack reversal :=
    (reads_pack reversal.restores).bind (reads_pack reversal.refunds).last
  pack_ne_nil reversal :=
    List.append_ne_nil_of_right_ne_nil _ (pack_ne_nil reversal.refunds)

instance : LawfulPacked Relocation where
  reads_pack relocation := (reads_pack relocation.dest).last
  pack_ne_nil relocation := pack_ne_nil relocation.dest

instance : LawfulPacked Script where
  reads_pack script :=
    .regroup <| (reads_pack script.id).bind <| (reads_pack script.name).bind <|
      (reads_pack script.target).bind <| (reads_pack script.steps).bind <|
      (reads_pack script.requires).bind <| (reads_pack script.limits).bind <|
      (reads_pack script.promise).bind <| (reads_pack script.reversal).bind <|
      (reads_pack script.relocation).bind (reads_pack script.cost).last
  pack_ne_nil script :=
    List.append_ne_nil_of_right_ne_nil _ (pack_ne_nil script.cost)

end Scripts

section Tables

instance : LawfulPacked Choice where
  reads_pack choice :=
    (reads_pack choice.targets).bind (reads_pack choice.suit).last
  pack_ne_nil choice :=
    List.append_ne_nil_of_right_ne_nil _ (pack_ne_nil choice.suit)

instance : LawfulPacked Move where
  reads_pack move :=
    .regroup <| (reads_pack move.card).bind <| (reads_pack move.source).bind <|
      (reads_pack move.dest).bind (reads_pack move.play).last
  pack_ne_nil move :=
    List.append_ne_nil_of_right_ne_nil _ (pack_ne_nil move.play)

instance : LawfulPacked Effect where
  reads_pack effect :=
    .regroup <| (reads_pack effect.play).bind <|
      (reads_pack effect.script).bind <| (reads_pack effect.choice).bind <|
      (reads_pack effect.moves).bind (reads_pack effect.paid).last
  pack_ne_nil effect :=
    List.append_ne_nil_of_right_ne_nil _ (pack_ne_nil effect.paid)

instance : LawfulPacked Rules where
  reads_pack rules := (reads_pack rules.cards).bind (reads_pack rules.effects).last
  pack_ne_nil rules :=
    List.append_ne_nil_of_right_ne_nil _ (pack_ne_nil rules.effects)

/-- The bytes of a carry-over with the multipliers of its cards in a given
order. -/
def CarryOver.packInOrder (carry : CarryOver)
    (mults : List (CardId × Amount)) : List UInt8 :=
  pack carry.add ++ pack carry.mult ++ pack carry.replays ++ pack mults ++
    pack carry.openCards

theorem CarryOver.reads_packInOrder {carry : CarryOver}
    {mults : List (CardId × Amount)} (hperm : mults.Perm carry.cardMults.entries) :
    Reads unpack (carry.packInOrder mults) carry :=
  .regroup <| (reads_pack carry.add).bind <| (reads_pack carry.mult).bind <|
    (reads_pack carry.replays).bind <| (reads_pack_entries hperm).bind
    (reads_pack carry.openCards).last

namespace Table

/-- The multipliers of single cards that were carried over. -/
def carriedMults (table : Table) : List (CardId × Amount) :=
  match table.carry with
  | none => []
  | some carry => carry.cardMults.entries

def packCarryInOrder (table : Table) (mults : List (CardId × Amount)) :
    List UInt8 :=
  match table.carry with
  | none => [0]
  | some carry => 1 :: carry.packInOrder mults

def packInOrder (table : Table) (mults : List (CardId × Amount)) : List UInt8 :=
  pack table.turn ++ pack table.cards ++ pack table.effects ++
    pack table.discard ++ pack table.deck ++ pack table.history ++
    table.packCarryInOrder mults

theorem reads_packCarryInOrder {table : Table} {mults : List (CardId × Amount)}
    (hperm : mults.Perm table.carriedMults) :
    Reads unpack (table.packCarryInOrder mults) table.carry := by
  unfold packCarryInOrder
  unfold carriedMults at hperm
  cases hcarry : table.carry with
  | none => exact fun _ _ => rfl
  | some carry =>
      rw [hcarry] at hperm
      exact (reads_takeByte 1).bind (carry.reads_packInOrder hperm).last

theorem reads_packInOrder {table : Table} {mults : List (CardId × Amount)}
    (hperm : mults.Perm table.carriedMults) :
    Reads unpack (table.packInOrder mults) table :=
  .regroup <| (reads_pack table.turn).bind <| (reads_pack table.cards).bind <|
    (reads_pack table.effects).bind <| (reads_pack table.discard).bind <|
    (reads_pack table.deck).bind <| (reads_pack table.history).bind
    (reads_packCarryInOrder hperm).last

end Table

end Tables

namespace Game

/-- The bytes of a game with the multipliers of its carry-over in a given
order. -/
def saveInOrder (game : Game) (mults : List (CardId × Amount)) : List UInt8 :=
  pack game.rules ++ game.table.packInOrder mults ++ pack game.nextPlay ++
    pack game.retired ++ pack game.strokes

theorem save_eq_saveInOrder (game : Game) :
    game.save = game.saveInOrder game.table.carriedMults := by
  have hcarry : pack game.table.carry =
      game.table.packCarryInOrder game.table.carriedMults := by
    unfold Table.packCarryInOrder Table.carriedMults
    cases game.table.carry <;> rfl
  rw [saveInOrder, Table.packInOrder, ← hcarry]
  rfl

theorem reads_saveInOrder {game : Game} {mults : List (CardId × Amount)}
    (hperm : mults.Perm game.table.carriedMults) :
    Reads unpack (game.saveInOrder mults) game :=
  .regroup <| (reads_pack game.rules).bind <|
    (Table.reads_packInOrder hperm).bind <| (reads_pack game.nextPlay).bind <|
    (reads_pack game.retired).bind (reads_pack game.strokes).last

theorem length_saveInOrder (game : Game) {mults others : List (CardId × Amount)}
    (hperm : mults.Perm others) :
    (game.saveInOrder mults).length = (game.saveInOrder others).length := by
  have hentries : (pack mults).length = (pack others).length := by
    change (packLength mults.length ++ mults.flatMap pack).length =
      (packLength others.length ++ others.flatMap pack).length
    rw [hperm.length_eq, List.length_append, List.length_append,
      (hperm.flatMap_right pack).length_eq]
  unfold saveInOrder Table.packInOrder Table.packCarryInOrder
  cases game.table.carry with
  | none => rfl
  | some carry => simp only [CarryOver.packInOrder, List.length_append,
      List.length_cons, hentries]

/-- A game that was saved is loaded again exactly as it was, whatever bytes
follow.  The multipliers of the carry-over can be written in any order.  The
bound is that of every length in a snapshot: the bytes can be counted in a word
of 64 bits. -/
theorem load?_save (game : Game) (extra : List UInt8)
    (hsize : game.save.length < UInt64.size) :
    load? (game.save ++ extra) = some game ∧
      ∀ mults : List (CardId × Amount), mults.Perm game.table.carriedMults →
        load? (game.saveInOrder mults ++ extra) = some game := by
  have hany : ∀ mults : List (CardId × Amount),
      mults.Perm game.table.carriedMults →
      load? (game.saveInOrder mults ++ extra) = some game := by
    intro mults hperm
    have hlength := game.length_saveInOrder hperm
    rw [← save_eq_saveInOrder] at hlength
    rw [← hlength] at hsize
    rw [load?, reads_saveInOrder hperm hsize extra]
    rfl
  refine ⟨?_, hany⟩
  rw [save_eq_saveInOrder]
  exact hany _ (List.Perm.refl _)

/-- A game in its second turn, with a carry-over of amounts that are easily lost:
a negative zero, and a NaN with a payload. -/
def encore : Game :=
  { rules := { cards := 3, effects := 1 }
    table :=
      { turn := 2
        cards := [⟨⟨0⟩, ⟨⟨1⟩, "Rêve", .goth, -3⟩, true⟩]
        effects :=
          [{ play := ⟨1⟩
             script :=
              { id := ⟨7⟩, name := "Call"
                target := { count := .between 1 2, zone := .deck }
                steps := [Step.cardMult ⟨0x7FF0000000000001⟩]
                requires := [.discardCount .alt 1, .historyStart "Rê"]
                limits := [.takesSlot, .extraSuit .goth 2]
                promise := some {}
                relocation := some ⟨.play⟩, cost := 2 }
             choice := { targets := [⟨1⟩] }
             moves := [⟨⟨1⟩, .deck, .play, some ⟨0⟩⟩], paid := 2 }]
        discard := [⟨⟨2⟩, "Mia", .alt, 4⟩]
        history := ["Mia", "Rêve"]
        carry := some
          { add := ⟨0x8000000000000000⟩, mult := ⟨0x7FF8000000000007⟩
            replays := [⟨1⟩]
            cardMults := .ofList [(⟨2⟩, .one), (⟨1⟩, .zero)]
            openCards := true } }
    nextPlay := ⟨2⟩
    strokes := 2 }

/-- The game is loaded again from its bytes, also when its two multipliers are
written the other way round. -/
theorem load?_save_encore :
    encore.save.length < UInt64.size ∧
      load? (encore.save ++ [7]) = some encore ∧
      load? (encore.saveInOrder encore.table.carriedMults.reverse ++ [7]) =
        some encore := by
  have hsize : encore.save.length < UInt64.size := by decide +kernel
  obtain ⟨hloaded, hany⟩ := load?_save encore [7] hsize
  have hperm := List.reverse_perm encore.table.carriedMults
  exact ⟨hsize, hloaded, hany _ hperm⟩

end Game

end Tableau
