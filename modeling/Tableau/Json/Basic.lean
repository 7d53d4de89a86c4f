import Tableau.Amount.Text

/-!
JSON values.  Members of an object are kept in the order of the text and with
repetitions, since a repeated field is an error in some places and replaces the
earlier one in others.  A key remembers whether it was written plainly, since a
key that stands for a number has to be.
-/

namespace Tableau

/-- A number as a text writes it: an integer of at most 64 bits, or an
amount. -/
inductive JsonNumber where
  | integer (value : Int)
  | amount (value : Amount)
deriving DecidableEq, Repr

/-- The key of a member, and whether it is written without escapes. -/
structure JsonKey where
  text : String
  plain : Bool := true
deriving DecidableEq, Repr, Inhabited

instance : Coe String JsonKey := ⟨fun text => { text }⟩

/-- A JSON value.  An unreadable one has a well formed text that stands for
nothing: a string with half of a surrogate pair, or a number beyond the finite
amounts. -/
inductive Json where
  | null
  | bool (value : Bool)
  | number (value : JsonNumber)
  | string (value : String)
  | list (items : List Json)
  | record (members : List (JsonKey × Json))
  | unreadable
deriving Repr, Inhabited

namespace Json

def ofNat (value : Nat) : Json := .number (.integer value)

def ofInt (value : Int) : Json := .number (.integer value)

def ofAmount (amount : Amount) : Json := .string amount.text

def lastMember? (key : String) (members : List (JsonKey × Json)) :
    Option Json :=
  (members.reverse.find? (fun member => member.1.text == key)).map Prod.snd

def get? (json : Json) (key : String) : Option Json :=
  match json with
  | record members => lastMember? key members
  | _ => none

/-- Put a member into an object: in place of the one with the same key, or
last. -/
def putMember (key : String) (value : Json) :
    List (JsonKey × Json) → List (JsonKey × Json)
  | [] => [(key, value)]
  | (other, old) :: rest =>
      if other.text = key then (key, value) :: rest
      else (other, old) :: putMember key value rest

mutual

/-- The value in which of several members with one key only the last is left,
and all keys count as written plainly.  There is none if some part stands for
nothing, or if lists and objects are nested more than `depth` levels deep. -/
def settle? (depth : Nat) : Json → Option Json
  | null => some null
  | bool value => some (bool value)
  | number value => some (number value)
  | string value => some (string value)
  | list items =>
      match depth with
      | 0 => none
      | inner + 1 => (settleItems? inner items).map list
  | record members =>
      match depth with
      | 0 => none
      | inner + 1 => (settleMembers? inner members []).map record
  | unreadable => none

def settleItems? (depth : Nat) : List Json → Option (List Json)
  | [] => some []
  | item :: rest =>
      match settle? depth item, settleItems? depth rest with
      | some item, some rest => some (item :: rest)
      | _, _ => none

def settleMembers? (depth : Nat) :
    List (JsonKey × Json) → List (JsonKey × Json) →
      Option (List (JsonKey × Json))
  | [], done => some done
  | (key, value) :: rest, done =>
      match settle? depth value with
      | some value => settleMembers? depth rest (putMember key.text value done)
      | none => none

end

end Json

end Tableau
