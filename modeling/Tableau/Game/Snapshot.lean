import Tableau.Game.Basic
import Tableau.Snapshot.Parts

/-!
Saving a game as bytes and loading it again.  Bytes behind the snapshot are
ignored.
-/

namespace Tableau

open Packed

instance : Packed Rules where
  pack rules := pack rules.cards ++ pack rules.effects
  unpack := do
    let cards ← unpack
    let effects ← unpack
    pure { cards, effects }

instance : Packed Game where
  pack game :=
    pack game.rules ++ pack game.table ++ pack game.nextPlay ++
      pack game.retired ++ pack game.strokes
  unpack := do
    let rules ← unpack
    let table ← unpack
    let nextPlay ← unpack
    let retired ← unpack
    let strokes ← unpack
    pure { rules, table, nextPlay, retired, strokes }

namespace Game

def save (game : Game) : List UInt8 := pack game

/-- The game that some bytes begin with. -/
def load? (bytes : List UInt8) : Option Game :=
  ((unpack : Unpack Game) bytes).map Prod.fst

end Game

example : Game.load? (Game.save {}) = some {} := by decide +kernel

end Tableau
