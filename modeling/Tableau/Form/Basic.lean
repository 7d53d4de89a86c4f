import Tableau.Card
import Tableau.Json.Basic

/-!
Written forms.  A form says how the values of a type are read from JSON and
written to it.  Records are objects: a field can be left out if it has a
default, and fields that no rule knows are ignored.  A record can also be given
as the list of its fields in order.  A case of a type with several cases is the
name of the case or, if it has fields, an object with the name as its only key;
the fields of a case can be listed in order in a document, but not in a request.
-/

namespace Tableau

/-- Where a value is read from: a text of its own, or a part of a request. -/
inductive Source where
  | document
  | request
deriving DecidableEq, Repr

/-- How the values of a type are read and written. -/
class Form (α : Type) where
  read? : Source → Json → Option α
  write : α → Json

namespace Form

instance : Form Bool where
  read?
    | _, .bool value => some value
    | _, _ => none
  write := .bool

instance : Form String where
  read?
    | _, .string value => some value
    | _, _ => none
  write := .string

def readInteger? (least most : Int) : Json → Option Int
  | .number (.integer value) =>
      if least ≤ value ∧ value ≤ most then some value else none
  | _ => none

instance : Form UInt32 where
  read? _ json :=
    (readInteger? 0 4294967295 json).map
      (fun value => UInt32.ofNat value.toNat)
  write value := .ofNat value.toNat

instance : Form UInt64 where
  read? _ json :=
    (readInteger? 0 18446744073709551615 json).map
      (fun value => UInt64.ofNat value.toNat)
  write value := .ofNat value.toNat

instance : Form Int64 where
  read? _ json :=
    (readInteger? Int64.minValue.toInt Int64.maxValue.toInt json).map
      Int64.ofInt
  write value := .ofInt value.toInt

/-- Amounts are read from numbers, and written as text. -/
instance : Form Amount where
  read?
    | _, .number (.integer value) =>
        Amount.ofDecimal? (value < 0) value.natAbs 0
    | _, .number (.amount value) => some value
    | _, _ => none
  write := .ofAmount

instance {α : Type} [Form α] : Form (Option α) where
  read?
    | _, .null => some none
    | source, json => (read? source json).map some
  write
    | none => .null
    | some value => write value

instance {α : Type} [Form α] : Form (List α) where
  read?
    | source, .list items => items.mapM (read? source)
    | _, _ => none
  write values := .list (values.map write)

/-- The fields of a record, and where they are read from. -/
structure Fields where
  source : Source
  members : List (JsonKey × Json)

/-- The fields of an object.  A field that the record knows must not be given
twice. -/
def memberFields? (source : Source) (names : List String)
    (members : List (JsonKey × Json)) : Option Fields :=
  if names.all (fun name =>
      decide (members.countP (fun member => member.1.text == name) ≤ 1)) then
    some { source, members }
  else none

/-- The fields that a list gives in order. -/
def listFields? (source : Source) (names : List String) (items : List Json) :
    Option Fields :=
  if items.length ≤ names.length then
    some
      { source
        members :=
          List.zipWith (fun (name : String) item => (↑name, item)) names items }
  else none

def fields? (source : Source) (names : List String) : Json → Option Fields
  | .record members => memberFields? source names members
  | .list items => listFields? source names items
  | _ => none

/-- The fields of a case.  They can be listed in order in a document only. -/
def caseFields? (source : Source) (names : List String) : Json → Option Fields
  | .record members => memberFields? source names members
  | .list items =>
      match source with
      | .document => listFields? source names items
      | .request => none
  | _ => none

def field? {α : Type} [Form α] (fields : Fields) (name : String) : Option α :=
  match fields.members.find? (fun member => member.1.text == name) with
  | some member => read? fields.source member.2
  | none => none

def fieldOr? {α : Type} [Form α] (fields : Fields) (name : String)
    (default : α) : Option α :=
  match fields.members.find? (fun member => member.1.text == name) with
  | some member => read? fields.source member.2
  | none => some default

def caseName? : Json → Option String
  | .string name => some name
  | .record [(key, .null)] => some key.text
  | _ => none

/-- The name of a case with fields, and what stands for the fields. -/
def caseContent? : Json → Option (String × Json)
  | .record [(key, content)] => some (key.text, content)
  | _ => none

def writeCase (name : String) (fields : List (JsonKey × Json)) : Json :=
  .record [(name, .record fields)]

/-- Read one of finitely many values by its name. -/
def readNamed? {α : Type} (values : List α) (name : α → String) (json : Json) :
    Option α := do
  let given ← caseName? json
  values.find? (fun value => name value == given)

/-- Read an object whose missing fields are those of a given value. -/
def readOver? {α : Type} [Form α] (source : Source) (base : α)
    (json : Json) : Option α :=
  match json, write base with
  | .record given, .record defaults =>
      read? source (.record (given ++ defaults.filter
        (fun field => !given.any
          (fun member => member.1.text == field.1.text))))
  | _, _ => none

/-- The number that a key writes: decimal digits, written plainly and without a
leading zero. -/
def keyNumber? (key : JsonKey) : Option UInt32 :=
  let digits := key.text.toList
  let value := Nat.ofDigitChars 10 digits 0
  if !key.plain ∨ digits.isEmpty ∨ !digits.all Char.isDigit then none
  else if digits.head? = some '0' ∧ 1 < digits.length then none
  else if value < UInt32.size then some (UInt32.ofNat value)
  else none

example : keyNumber? ({ text := "42" } : JsonKey) = some 42 := by
  decide +kernel

example : keyNumber? ({ text := "42", plain := false } : JsonKey) = none := by
  decide +kernel

end Form

end Tableau
