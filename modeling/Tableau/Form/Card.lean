import Tableau.Form.Basic

/-!
The written forms of suits, zones, identities and cards.
-/

namespace Tableau

instance : Form Suit where
  read? _ := Form.readNamed? Suit.all Suit.tag
  write suit := .string suit.tag

/-- The name of a zone in written forms. -/
def Zone.tag : Zone → String
  | play => "play"
  | deck => "deck"
  | discard => "discard"

instance : Form Zone where
  read? _ := Form.readNamed? [.play, .deck, .discard] Zone.tag
  write zone := .string zone.tag

instance : Form CardId where
  read? source json := (Form.read? source json).map CardId.mk
  write id := Form.write id.number

instance : Form EffectId where
  read? source json := (Form.read? source json).map EffectId.mk
  write id := Form.write id.number

instance : Form PlayId where
  read? source json := (Form.read? source json).map PlayId.mk
  write play := Form.write play.number

instance : Form Card where
  read? source json := do
    let fields ← Form.fields? source ["id", "name", "type", "base_score"] json
    pure
      { id := ← Form.field? fields "id"
        name := ← Form.field? fields "name"
        suit := ← Form.field? fields "type"
        base := ← Form.field? fields "base_score" }
  write card := .record
    [("id", Form.write card.id), ("name", Form.write card.name),
      ("type", Form.write card.suit), ("base_score", Form.write card.base)]

instance : Form InPlay where
  read? source json := do
    let fields ← Form.fields? source ["play_id", "card", "slot_free"] json
    pure
      { play := ← Form.field? fields "play_id"
        card := ← Form.field? fields "card"
        free := ← Form.fieldOr? fields "slot_free" false }
  write seat := .record
    [("play_id", Form.write seat.play), ("card", Form.write seat.card),
      ("slot_free", Form.write seat.free)]

end Tableau
