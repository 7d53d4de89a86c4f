import Tableau.Form.Script
import Tableau.Limits

/-!
The written forms of effects in play, carry-overs, tables and limits.
-/

namespace Tableau

instance : Form Choice where
  read? source json := do
    let fields ← Form.fields? source ["targets", "resolved_type"] json
    pure
      { targets := ← Form.fieldOr? fields "targets" []
        suit := ← Form.fieldOr? fields "resolved_type" none }
  write choice := .record
    [("targets", Form.write choice.targets),
      ("resolved_type", Form.write choice.suit)]

instance : Form Move where
  read? source json := do
    let fields ← Form.fields? source ["card", "from", "to", "play_id"] json
    pure
      { card := ← Form.field? fields "card"
        source := ← Form.field? fields "from"
        dest := ← Form.field? fields "to"
        play := ← Form.fieldOr? fields "play_id" none }
  write move := .record
    [("card", Form.write move.card), ("from", Form.write move.source),
      ("to", Form.write move.dest), ("play_id", Form.write move.play)]

instance : Form Effect where
  read? source json := do
    let fields ← Form.fields? source
      ["play_id", "script", "binding", "moves", "strokes_paid"] json
    pure
      { play := ← Form.field? fields "play_id"
        script := ← Form.field? fields "script"
        choice := ← Form.fieldOr? fields "binding" {}
        moves := ← Form.fieldOr? fields "moves" []
        paid := ← Form.fieldOr? fields "strokes_paid" 0 }
  write effect := .record
    [("play_id", Form.write effect.play), ("script", Form.write effect.script),
      ("binding", Form.write effect.choice), ("moves", Form.write effect.moves),
      ("strokes_paid", Form.write effect.paid)]

/-- Multipliers of single cards, as an object with the identities for keys. -/
instance : Form (FinMap CardId Amount) where
  read?
    | source, .record members => do
        let entries ← members.mapM fun member => do
          let number ← Form.keyNumber? member.1
          pure (CardId.mk number, ← Form.read? source member.2)
        pure (FinMap.ofList entries)
    | _, _ => none
  write mults := .record (mults.entries.map
    (fun entry => (toString entry.1.number.toNat, Form.write entry.2)))

/-- Slots of single suits, as an object with the suits for keys. -/
instance : Form (FinMap Suit UInt32) where
  read?
    | source, .record members => do
        let entries ← members.mapM fun member => do
          let suit ← Suit.all.find? (fun suit => suit.tag == member.1.text)
          pure (suit, ← Form.read? source member.2)
        pure (FinMap.ofList entries)
    | _, _ => none
  write slots := .record (slots.entries.map
    (fun entry => (entry.1.tag, Form.write entry.2)))

instance : Form CarryOver where
  read? source json := do
    let fields ← Form.fields? source
      ["add_next", "mult_next", "replay_babes", "babe_mult_next",
        "ignore_babe_limit_next"] json
    pure
      { add := ← Form.fieldOr? fields "add_next" .zero
        mult := ← Form.fieldOr? fields "mult_next" .one
        replays := ← Form.fieldOr? fields "replay_babes" []
        cardMults := ← Form.fieldOr? fields "babe_mult_next" .empty
        openCards := ← Form.fieldOr? fields "ignore_babe_limit_next" false }
  write carry := .record
    [("add_next", Form.write carry.add), ("mult_next", Form.write carry.mult),
      ("replay_babes", Form.write carry.replays),
      ("babe_mult_next", Form.write carry.cardMults),
      ("ignore_babe_limit_next", Form.write carry.openCards)]

instance : Form Table where
  read? source json := do
    let fields ← Form.fields? source
      ["turn_number", "played_babes", "played_effects", "discard", "deck",
        "play_history", "pending"] json
    pure
      { turn := ← Form.field? fields "turn_number"
        cards := ← Form.field? fields "played_babes"
        effects := ← Form.field? fields "played_effects"
        discard := ← Form.field? fields "discard"
        deck := ← Form.field? fields "deck"
        history := ← Form.field? fields "play_history"
        carry := ← Form.fieldOr? fields "pending" none }
  write table := .record
    [("turn_number", Form.write table.turn),
      ("played_babes", Form.write table.cards),
      ("played_effects", Form.write table.effects),
      ("discard", Form.write table.discard), ("deck", Form.write table.deck),
      ("play_history", Form.write table.history),
      ("pending", Form.write table.carry)]

instance : Form Rules where
  read? source json := do
    let fields ←
      Form.fields? source ["base_babe_limit", "base_effect_limit"] json
    pure
      { cards := ← Form.fieldOr? fields "base_babe_limit" 2
        effects := ← Form.fieldOr? fields "base_effect_limit" 2 }
  write rules := .record
    [("base_babe_limit", Form.write rules.cards),
      ("base_effect_limit", Form.write rules.effects)]

/-- The suit restriction and the slots of single suits are left out when there
are none. -/
instance : Form Limits where
  read? source json := do
    let fields ← Form.fields? source
      ["babes", "effects", "ignore_effect_limit", "ignore_babe_limit",
        "restrict_babe_type_to", "extra_babes_by_type"] json
    pure
      { cards := ← Form.field? fields "babes"
        effects := ← Form.field? fields "effects"
        openEffects := ← Form.field? fields "ignore_effect_limit"
        openCards := ← Form.field? fields "ignore_babe_limit"
        onlySuit := ← Form.fieldOr? fields "restrict_babe_type_to" none
        suitSlots := ← Form.fieldOr? fields "extra_babes_by_type" .empty }
  write limits :=
    let only : List (JsonKey × Json) := limits.onlySuit.elim []
      (fun suit => [("restrict_babe_type_to", Form.write suit)])
    let slots : List (JsonKey × Json) := if limits.suitSlots.isEmpty then []
      else [("extra_babes_by_type", Form.write limits.suitSlots)]
    .record (("babes", Form.write limits.cards) ::
      ("effects", Form.write limits.effects) ::
      ("ignore_effect_limit", Form.write limits.openEffects) ::
      ("ignore_babe_limit", Form.write limits.openCards) :: (only ++ slots))

end Tableau
