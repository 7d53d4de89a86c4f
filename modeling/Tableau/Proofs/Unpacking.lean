import Mathlib.Algebra.Order.Group.Multiset
import Tableau.Snapshot.Packed

/-!
What is packed is unpacked again, whatever bytes follow.  A reader of several
parts reads the bytes of its parts one after the other (`Reads.bind`), so that a
packed type is lawful once its parts are.  A length takes eight bytes, so this
holds of bytes that can be counted in eight bytes.
-/

namespace Tableau

namespace Packed

/-- The reader takes these bytes off the front, no more and no less, and yields
the value. -/
def Reads {α : Type} (reader : Unpack α) (bytes : List UInt8) (value : α) :
    Prop :=
  bytes.length < UInt64.size →
    ∀ extra, reader (bytes ++ extra) = some (value, extra)

section Reads

variable {α β : Type} {reader : Unpack α} {next : α → Unpack β}
  {bytes rest : List UInt8} {value : α} {result : β}

theorem Reads.pure (value : α) : Reads (pure value) [] value :=
  fun _ _ => rfl

theorem Reads.bind (hfirst : Reads reader bytes value)
    (hnext : Reads (next value) rest result) :
    Reads (reader >>= next) (bytes ++ rest) result := by
  intro hsize extra
  rw [List.length_append] at hsize
  have htaken := hfirst (by omega) (rest ++ extra)
  have hrest := hnext (by omega) extra
  rw [List.append_assoc]
  change (reader (bytes ++ (rest ++ extra))).bind
    (fun answer => next answer.1 answer.2) = some (result, extra)
  rw [htaken]
  exact hrest

/-- After its last bytes a reader can still judge what it has read. -/
theorem Reads.judge (hlast : Reads reader bytes value)
    (hnext : Reads (next value) [] result) :
    Reads (reader >>= next) bytes result := by
  have hread := hlast.bind hnext
  rwa [List.append_nil] at hread

theorem Reads.last {finish : α → β} (hlast : Reads reader bytes value) :
    Reads (reader >>= fun answer => Pure.pure (finish answer)) bytes
      (finish value) :=
  hlast.judge (Reads.pure (finish value))

/-- The parts of a record are written from left to right and read from right to
left, so their bytes are bracketed differently. -/
theorem Reads.regroup {parts : List UInt8} (hreads : Reads reader bytes value)
    (hparts : parts = bytes := by simp only [← List.append_assoc]; rfl) :
    Reads reader parts value :=
  hparts ▸ hreads

theorem reads_takeByte (byte : UInt8) : Reads takeByte [byte] byte :=
  fun _ _ => rfl

theorem reads_takeBytes (bytes : List UInt8) :
    Reads (takeBytes bytes.length) bytes bytes := by
  intro _ extra
  simp [takeBytes]

theorem reads_accept {answer : Option α} (hsome : answer = some value) :
    Reads (accept answer) [] value := by
  intro _ extra
  simp [accept, hsome]

/-- A word is read back if it fits in its bytes. -/
theorem reads_packWord {count value : Nat} (hfits : value < 256 ^ count) :
    Reads (unpackWord count) (packWord count value) value := by
  induction count generalizing value with
  | zero =>
      have hzero : value = 0 := by simpa using hfits
      subst hzero
      exact Reads.pure 0
  | succ count ih =>
      have hhigh : value / 256 < 256 ^ count := by
        rw [Nat.pow_succ] at hfits
        omega
      have hlow : (UInt8.ofNat (value % 256)).toNat = value % 256 := by simp
      have hread : Reads (unpackWord (count + 1)) (packWord (count + 1) value)
          ((UInt8.ofNat (value % 256)).toNat + 256 * (value / 256)) :=
        (reads_takeByte _).bind (ih hhigh).last
      rwa [hlow, Nat.mod_add_div] at hread

theorem reads_packLength {length : Nat} (hfits : length < UInt64.size) :
    Reads unpackLength (packLength length) length :=
  reads_packWord hfits

theorem reads_packIndex (index : Nat) (hfits : index < UInt32.size) :
    Reads unpackIndex (packIndex index) index :=
  reads_packWord hfits

theorem reads_packIndex_oneOf {values : List α} {index : Nat}
    (hfound : values[index]? = some value) (hfits : index < UInt32.size) :
    Reads (unpackOneOf values) (packIndex index) value :=
  (reads_packIndex index hfits).judge (reads_accept hfound)

end Reads

end Packed

open Packed

/-- Values that are unpacked from their bytes.  No value is packed into nothing,
so that a list has no more elements than bytes. -/
class LawfulPacked (α : Type) [Packed α] : Prop where
  reads_pack : ∀ value : α, Reads unpack (pack value) value
  pack_ne_nil : ∀ value : α, pack value ≠ []

export LawfulPacked (reads_pack pack_ne_nil)

instance : LawfulPacked Bool where
  reads_pack value := by
    cases value with
    | false => exact fun _ _ => rfl
    | true => exact fun _ _ => rfl
  pack_ne_nil _ := List.cons_ne_nil _ _

instance : LawfulPacked UInt32 where
  reads_pack value := by
    have hread : Reads unpack (pack value) (UInt32.ofNat value.toNat) :=
      (reads_packWord value.toNat_lt).last
    rwa [UInt32.ofNat_toNat] at hread
  pack_ne_nil _ := List.cons_ne_nil _ _

instance : LawfulPacked UInt64 where
  reads_pack value := by
    have hread : Reads unpack (pack value) (UInt64.ofNat value.toNat) :=
      (reads_packWord value.toNat_lt).last
    rwa [UInt64.ofNat_toNat] at hread
  pack_ne_nil _ := List.cons_ne_nil _ _

instance : LawfulPacked Int64 where
  reads_pack value := by
    have hread : Reads unpack (pack value) value.toUInt64.toInt64 :=
      (reads_pack value.toUInt64).last
    rwa [Int64.toInt64_toUInt64] at hread
  pack_ne_nil value := pack_ne_nil value.toUInt64

instance : LawfulPacked Amount where
  reads_pack amount := (reads_pack amount.bits).last
  pack_ne_nil amount := pack_ne_nil amount.bits

theorem fromUTF8?_toUTF8 (text : String) :
    String.fromUTF8? text.toUTF8 = some text := by
  rw [String.toUTF8_eq_toByteArray, String.fromUTF8?, dif_pos text.isValidUTF8]
  rfl

instance : LawfulPacked String where
  reads_pack text hsize := by
    have hlength : text.toUTF8.data.size < UInt64.size := by
      have hbytes : (pack text).length =
          (packLength text.toUTF8.data.size).length +
            text.toUTF8.data.toList.length := List.length_append
      have hcount : text.toUTF8.data.toList.length = text.toUTF8.data.size :=
        Array.length_toList
      omega
    exact (reads_packLength hlength).bind
      ((reads_takeBytes text.toUTF8.data.toList).judge
        (reads_accept (fromUTF8?_toUTF8 text))) hsize
  pack_ne_nil _ := List.cons_ne_nil _ _

instance {α : Type} [Packed α] [LawfulPacked α] : LawfulPacked (Option α) where
  reads_pack value := by
    cases value with
    | none => exact fun _ _ => rfl
    | some value => exact (reads_takeByte 1).bind (reads_pack value).last
  pack_ne_nil value := by
    cases value with
    | none => exact List.cons_ne_nil _ _
    | some value => exact List.cons_ne_nil _ _

section List

variable {α : Type} [Packed α] [LawfulPacked α]

theorem reads_flatMap_pack (values : List α) :
    Reads (unpackMany values.length) (values.flatMap pack) values := by
  induction values with
  | nil => exact Reads.pure []
  | cons value rest ih => exact (reads_pack value).bind ih.last

theorem length_le_length_flatMap_pack (values : List α) :
    values.length ≤ (values.flatMap pack).length := by
  induction values with
  | nil => simp
  | cons value rest ih =>
      have hvalue : 0 < (pack value).length :=
        List.length_pos_iff.mpr (pack_ne_nil value)
      simp only [List.flatMap_cons, List.length_append, List.length_cons]
      omega

instance : LawfulPacked (List α) where
  reads_pack values hsize := by
    have hlength : values.length < UInt64.size := by
      have hcount := length_le_length_flatMap_pack values
      have hbytes : (pack values).length = (packLength values.length).length +
          (values.flatMap pack).length := List.length_append
      omega
    exact (reads_packLength hlength).bind (reads_flatMap_pack values) hsize
  pack_ne_nil _ := List.cons_ne_nil _ _

end List

instance {α β : Type} [Packed α] [Packed β] [LawfulPacked α] [LawfulPacked β] :
    LawfulPacked (α × β) where
  reads_pack pair := (reads_pack pair.1).bind (reads_pack pair.2).last
  pack_ne_nil pair :=
    List.append_ne_nil_of_right_ne_nil _ (pack_ne_nil pair.2)

section FinMap

variable {κ α : Type} [Rank κ] [Packed κ] [Packed α] [LawfulPacked κ]
  [LawfulPacked α]

/-- A map is unpacked from its entries in any order. -/
theorem reads_pack_entries {map : FinMap κ α} {entries : List (κ × α)}
    (hperm : entries.Perm map.entries) :
    Reads unpack (pack entries) map := by
  have hread : Reads unpack (pack entries) (FinMap.ofList entries) :=
    (reads_pack entries).last
  rwa [FinMap.ofList_of_perm hperm] at hread

instance : LawfulPacked (FinMap κ α) where
  reads_pack map := reads_pack_entries (List.Perm.refl map.entries)
  pack_ne_nil map := pack_ne_nil map.entries

end FinMap

end Tableau
