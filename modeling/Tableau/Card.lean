import Tableau.Checked
import Tableau.FinMap

/-!
The cards that score: their suit, their identity in the catalog, and the
identity of one play of a card during a turn.  The same catalog card can be
played, discarded and played again, so plays are told apart by play numbers.
-/

namespace Tableau

/-- The eight kinds of scoring cards, in rule order. -/
inductive Suit where
  | baddie
  | busty
  | petite
  | milf
  | goth
  | alt
  | cosplay
  | fitness
deriving DecidableEq, Repr, Inhabited

namespace Suit

def all : List Suit :=
  [baddie, busty, petite, milf, goth, alt, cosplay, fitness]

def index : Suit → Nat
  | baddie => 0
  | busty => 1
  | petite => 2
  | milf => 3
  | goth => 4
  | alt => 5
  | cosplay => 6
  | fitness => 7

def tag : Suit → String
  | baddie => "BADDIE"
  | busty => "BUSTY"
  | petite => "PETITE"
  | milf => "MILF"
  | goth => "GOTH"
  | alt => "ALT"
  | cosplay => "COSPLAY"
  | fitness => "FITNESS"

theorem mem_all (suit : Suit) : suit ∈ all := by
  cases suit <;> decide

theorem index_inj {left right : Suit} (hindex : left.index = right.index) :
    left = right := by
  cases left <;> cases right <;> first | rfl | cases hindex

instance : Rank Suit := ⟨index, index_inj⟩

end Suit

/-- The identity of a scoring card in the catalog. -/
structure CardId where
  number : UInt32
deriving DecidableEq, Repr, Inhabited

structure EffectId where
  number : UInt32
deriving DecidableEq, Repr, Inhabited

/-- The identity of one play of a card, scoring card or effect, in a turn. -/
structure PlayId where
  number : UInt32
deriving DecidableEq, Repr, Inhabited

def CardId.text (card : CardId) : String := s!"Babe({card.number.toNat})"

def EffectId.text (effect : EffectId) : String :=
  s!"Effect({effect.number.toNat})"

def PlayId.text (play : PlayId) : String := s!"Play({play.number.toNat})"

def PlayId.next (play : PlayId) : Checked PlayId := do
  pure ⟨← addCounts play.number 1⟩

theorem PlayId.next_eq_ok_iff {play later : PlayId} :
    play.next = .ok later ↔
      later.number.toNat = play.number.toNat + 1 := by
  have hone : (1 : UInt32).toNat = 1 := rfl
  rw [PlayId.next, bind_eq_ok_iff]
  simp only [pure_eq_ok_iff, addCounts_eq_ok_iff, hone]
  constructor
  · rintro ⟨number, hnumber, rfl⟩
    exact hnumber
  · intro hnumber
    exact ⟨later.number, hnumber, rfl⟩

instance : Rank CardId where
  rank card := card.number.toNat
  rank_inj := fun {left right} hrank => by
    cases left
    cases right
    exact congrArg CardId.mk (UInt32.toNat_inj.mp hrank)

instance : Rank EffectId where
  rank effect := effect.number.toNat
  rank_inj := fun {left right} hrank => by
    cases left
    cases right
    exact congrArg EffectId.mk (UInt32.toNat_inj.mp hrank)

/-- The places where a scoring card can lie. -/
inductive Zone where
  | play
  | deck
  | discard
deriving DecidableEq, Repr, Inhabited

/-- How messages speak of a zone. -/
def Zone.title : Zone → String
  | play => "play area"
  | deck => "deck"
  | discard => "discard pile"

/-- A scoring card as the catalog prints it. -/
structure Card where
  id : CardId
  name : String
  suit : Suit
  base : Int64
deriving DecidableEq, Repr, Inhabited

/-- A scoring card on the table.  A free one takes no slot. -/
structure InPlay where
  play : PlayId
  card : Card
  free : Bool
deriving DecidableEq, Repr, Inhabited

end Tableau
