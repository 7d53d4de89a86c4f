import Tableau.Amount.Basic
import Tableau.FinMap

/-!
Packing values into bytes.  Words have a fixed width and their low byte first;
a list, a text or a map is its length in eight bytes and then its elements; an
optional value is a byte 0, or a byte 1 and the value; a case of a type is its
index in four bytes and then its fields.  Nothing is padded, so every value ends
where its bytes end and the bytes behind it belong to what follows.
-/

namespace Tableau

/-- A way to take a value off the front of some bytes, if they begin with
one. -/
abbrev Unpack (α : Type) := StateT (List UInt8) Option α

/-- Values that can be packed into bytes. -/
class Packed (α : Type) where
  pack : α → List UInt8
  unpack : Unpack α

namespace Packed

def takeByte : Unpack UInt8
  | [] => none
  | byte :: rest => some (byte, rest)

def takeBytes (count : Nat) : Unpack (List UInt8) := fun bytes =>
  if count ≤ bytes.length then some (bytes.take count, bytes.drop count)
  else none

def refuse {α : Type} : Unpack α := fun _ => none

def accept {α : Type} (value : Option α) : Unpack α := fun bytes =>
  value.map (fun value => (value, bytes))

/-- A number in a given count of bytes, the low byte first. -/
def packWord : Nat → Nat → List UInt8
  | 0, _ => []
  | count + 1, value => UInt8.ofNat (value % 256) :: packWord count (value / 256)

def unpackWord : Nat → Unpack Nat
  | 0 => pure 0
  | count + 1 => do
      let low ← takeByte
      let high ← unpackWord count
      pure (low.toNat + 256 * high)

instance : Packed Bool where
  pack value := [if value then 1 else 0]
  unpack := do
    let byte ← takeByte
    if byte = 0 then pure false
    else if byte = 1 then pure true
    else refuse

instance : Packed UInt32 where
  pack value := packWord 4 value.toNat
  unpack := do
    pure (UInt32.ofNat (← unpackWord 4))

instance : Packed UInt64 where
  pack value := packWord 8 value.toNat
  unpack := do
    pure (UInt64.ofNat (← unpackWord 8))

/-- A signed word is packed as the unsigned word with the same bits. -/
instance : Packed Int64 where
  pack value := pack value.toUInt64
  unpack := do
    pure (← (unpack : Unpack UInt64)).toInt64

instance : Packed Amount where
  pack amount := pack amount.bits
  unpack := do
    pure { bits := ← unpack }

def packLength (length : Nat) : List UInt8 := packWord 8 length

def unpackLength : Unpack Nat := unpackWord 8

def packIndex (index : Nat) : List UInt8 := packWord 4 index

def unpackIndex : Unpack Nat := unpackWord 4

/-- One of finitely many values, packed as its index. -/
def unpackOneOf {α : Type} (values : List α) : Unpack α := do
  let index ← unpackIndex
  accept values[index]?

/-- A text is packed as its UTF-8 bytes. -/
instance : Packed String where
  pack text :=
    packLength text.toUTF8.data.size ++ text.toUTF8.data.toList
  unpack := do
    let length ← unpackLength
    let bytes ← takeBytes length
    accept (String.fromUTF8? ⟨bytes.toArray⟩)

instance {α : Type} [Packed α] : Packed (Option α) where
  pack
    | none => [0]
    | some value => 1 :: pack value
  unpack := do
    let byte ← takeByte
    if byte = 0 then pure none
    else if byte = 1 then do
      let value ← unpack
      pure (some value)
    else refuse

def unpackMany {α : Type} [Packed α] : Nat → Unpack (List α)
  | 0 => pure []
  | count + 1 => do
      let value ← unpack
      let rest ← unpackMany count
      pure (value :: rest)

instance {α : Type} [Packed α] : Packed (List α) where
  pack values := packLength values.length ++ values.flatMap pack
  unpack := do
    let length ← unpackLength
    unpackMany length

instance {α β : Type} [Packed α] [Packed β] : Packed (α × β) where
  pack pair := pack pair.1 ++ pack pair.2
  unpack := do
    let left ← unpack
    let right ← unpack
    pure (left, right)

/-- A map is packed as the list of its entries.  When one is unpacked, a later
entry replaces an earlier one with the same key. -/
instance {κ α : Type} [Rank κ] [Packed κ] [Packed α] :
    Packed (FinMap κ α) where
  pack map := pack map.entries
  unpack := do
    pure (FinMap.ofList (← unpack))

end Packed

end Tableau
