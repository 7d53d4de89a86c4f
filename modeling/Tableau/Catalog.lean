import Tableau.Script

/-!
The catalog of a game: every scoring card and every effect card, each under its
identity.  An identity is registered once; a second registration is refused.
-/

namespace Tableau

/-- A registration under an identity that is taken. -/
inductive Clash where
  | card (id : CardId)
  | effect (id : EffectId)
deriving DecidableEq, Repr

def Clash.message : Clash → String
  | card id => s!"babe {id.text} is already registered"
  | effect id => s!"effect {id.text} is already registered"

structure Catalog where
  cards : FinMap CardId Card := .empty
  scripts : FinMap EffectId Script := .empty
deriving DecidableEq, Repr

namespace Catalog

def card? (catalog : Catalog) (id : CardId) : Option Card :=
  catalog.cards.get? id

def script? (catalog : Catalog) (id : EffectId) : Option Script :=
  catalog.scripts.get? id

/-- Register a card.  A refused one leaves the catalog as it was. -/
def addCard (catalog : Catalog) (card : Card) : Except Clash Unit × Catalog :=
  match catalog.card? card.id with
  | some _ => (.error (.card card.id), catalog)
  | none =>
      (.ok (), { catalog with cards := catalog.cards.insert card.id card })

def addScript (catalog : Catalog) (script : Script) :
    Except Clash Unit × Catalog :=
  match catalog.script? script.id with
  | some _ => (.error (.effect script.id), catalog)
  | none =>
      (.ok (),
        { catalog with scripts := catalog.scripts.insert script.id script })

/-- Go on from an accepted registration, and break off at a refused one. -/
def insist : Except Clash Unit × Catalog → Except Clash Catalog
  | (.ok (), grown) => .ok grown
  | (.error clash, _) => .error clash

/-- Register cards and then scripts, up to the first clash. -/
def ofLists (cards : List Card) (scripts : List Script) :
    Except Clash Catalog := do
  let filled ← cards.foldlM (fun catalog card => insist (catalog.addCard card)) {}
  scripts.foldlM (fun catalog script => insist (catalog.addScript script)) filled

/-- What can be registered. -/
inductive Entry where
  | card (card : Card)
  | script (script : Script)
deriving DecidableEq, Repr

def register (catalog : Catalog) : Entry → Except Clash Unit × Catalog
  | .card card => catalog.addCard card
  | .script script => catalog.addScript script

/-- Register entries one after the other, also after refused ones, and list the
answers. -/
def registerAll (catalog : Catalog) :
    List Entry → List (Except Clash Unit) × Catalog
  | [] => ([], catalog)
  | entry :: rest =>
      let (answer, after) := catalog.register entry
      let (answers, last) := after.registerAll rest
      (answer :: answers, last)

/-- The card with the given name and the least identity. -/
def cardNamed? (catalog : Catalog) (name : String) : Option Card :=
  catalog.cards.values.find? (fun card => card.name == name)

def cardsOf (catalog : Catalog) (suit : Suit) : List Card :=
  catalog.cards.values.filter (fun card => card.suit == suit)

def size (catalog : Catalog) : Nat :=
  catalog.cards.size + catalog.scripts.size

def isEmpty (catalog : Catalog) : Bool :=
  catalog.cards.isEmpty && catalog.scripts.isEmpty

end Catalog

end Tableau
