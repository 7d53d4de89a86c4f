import Tableau.Proofs.Snapshot

/-!
Snapshots that are cut off.  What a reader takes off the front of some bytes it also
takes when more bytes follow, for it decides by the bytes that it takes alone.  So no
part of the bytes of a value can pass for a shorter value, and a snapshot that ends
too early, be it inside a length or between two values, is refused.  Main statement:
`load?_truncated`.
-/

namespace Tableau

namespace Packed

/-- More bytes behind those that the reader takes do not change what it yields. -/
def Steady {α : Type} (reader : Unpack α) : Prop :=
  ∀ bytes value rest, reader bytes = some (value, rest) →
    ∀ extra, reader (bytes ++ extra) = some (value, rest ++ extra)

section Steady

variable {α β : Type} {reader : Unpack α} {next : α → Unpack β}
  {bytes first : List UInt8} {value : α}

theorem Steady.pure (value : α) : Steady (pure value) := by
  intro bytes _ rest hread extra
  cases hread
  rfl

theorem Steady.bind (hfirst : Steady reader)
    (hnext : ∀ value, Steady (next value)) : Steady (reader >>= next) := by
  intro bytes result rest hread extra
  change (reader bytes).bind (fun answer => next answer.1 answer.2) =
    some (result, rest) at hread
  obtain ⟨⟨value, middle⟩, htaken, hrest⟩ := Option.bind_eq_some_iff.mp hread
  change (reader (bytes ++ extra)).bind
    (fun answer => next answer.1 answer.2) = some (result, rest ++ extra)
  rw [hfirst bytes value middle htaken extra]
  exact hnext value middle result rest hrest extra

theorem Steady.last {finish : α → β} (hlast : Steady reader) :
    Steady (reader >>= fun answer => Pure.pure (finish answer)) :=
  hlast.bind fun answer => Steady.pure (finish answer)

theorem steady_refuse : Steady (refuse : Unpack α) := by
  intro bytes value rest hread
  cases hread

theorem steady_accept (answer : Option α) : Steady (accept answer) := by
  intro bytes value rest hread extra
  obtain ⟨found, rfl, hfound⟩ := Option.map_eq_some_iff.mp hread
  cases hfound
  rfl

theorem steady_takeByte : Steady takeByte := by
  intro bytes value rest hread extra
  cases bytes with
  | nil => cases hread
  | cons byte behind =>
      cases hread
      rfl

theorem steady_takeBytes (count : Nat) : Steady (takeBytes count) := by
  intro bytes value rest hread extra
  unfold takeBytes at hread
  split at hread
  · rename_i hcount
    cases hread
    have hmore : count ≤ (bytes ++ extra).length := by
      rw [List.length_append]
      omega
    rw [takeBytes, if_pos hmore, List.take_append_of_le_length hcount,
      List.drop_append_of_le_length hcount]
  · cases hread

theorem steady_unpackWord (count : Nat) : Steady (unpackWord count) := by
  induction count with
  | zero => exact .pure 0
  | succ count ih => exact steady_takeByte.bind fun low => ih.last

theorem steady_unpackOneOf (values : List α) : Steady (unpackOneOf values) :=
  (steady_unpackWord 4).bind fun index => steady_accept values[index]?

/-- What a reader takes does not begin with anything else that it would take. -/
theorem Reads.truncated (hreads : Reads reader bytes value)
    (hsteady : Steady reader) (hsize : bytes.length < UInt64.size)
    (hfirst : first <+: bytes) (hcut : first ≠ bytes) :
    reader first = none := by
  obtain ⟨missing, rfl⟩ := hfirst
  cases hread : reader first with
  | none => rfl
  | some answer =>
      obtain ⟨other, rest⟩ := answer
      have hwhole := hreads hsize []
      rw [List.append_nil, hsteady first other rest hread missing] at hwhole
      obtain ⟨-, hmissing⟩ := List.append_eq_nil_iff.mp
        (congrArg Prod.snd (Option.some.inj hwhole))
      exact absurd (by rw [hmissing, List.append_nil]) hcut

end Steady

end Packed

open Packed

/-- Values that are unpacked by a steady reader. -/
class SteadyPacked (α : Type) [Packed α] : Prop where
  steady : Steady (unpack : Unpack α)

export SteadyPacked (steady)

section Values

instance : SteadyPacked Bool where
  steady := steady_takeByte.bind fun byte => by
    split
    · exact .pure false
    · split
      · exact .pure true
      · exact steady_refuse

instance : SteadyPacked UInt32 where
  steady := (steady_unpackWord 4).last

instance : SteadyPacked UInt64 where
  steady := (steady_unpackWord 8).last

instance : SteadyPacked Int64 where
  steady := (steady (α := UInt64)).last

instance : SteadyPacked Amount where
  steady := steady.last

instance : SteadyPacked String where
  steady := (steady_unpackWord 8).bind fun length =>
    (steady_takeBytes length).bind fun _ => steady_accept _

variable {α β : Type} [Packed α] [SteadyPacked α] [Packed β] [SteadyPacked β]

instance : SteadyPacked (Option α) where
  steady := steady_takeByte.bind fun byte => by
    split
    · exact .pure none
    · split
      · exact steady.last
      · exact steady_refuse

theorem steady_unpackMany (count : Nat) :
    Steady (unpackMany count : Unpack (List α)) := by
  induction count with
  | zero => exact .pure []
  | succ count ih => exact steady.bind fun value => ih.last

instance : SteadyPacked (List α) where
  steady := (steady_unpackWord 8).bind steady_unpackMany

instance : SteadyPacked (α × β) where
  steady := steady.bind fun _ => steady.last

instance [Rank α] : SteadyPacked (FinMap α β) where
  steady := steady.last

end Values

section Parts

instance : SteadyPacked Suit where
  steady := steady_unpackOneOf Suit.all

instance : SteadyPacked Zone where
  steady := steady_unpackOneOf _

instance : SteadyPacked CardId where
  steady := steady.last

instance : SteadyPacked EffectId where
  steady := steady.last

instance : SteadyPacked PlayId where
  steady := steady.last

instance : SteadyPacked Card where
  steady := steady.bind fun _ => steady.bind fun _ => steady.bind fun _ =>
    steady.last

instance : SteadyPacked InPlay where
  steady := steady.bind fun _ => steady.bind fun _ => steady.last

instance : SteadyPacked TargetCount where
  steady := (steady_unpackWord 4).bind fun index => by
    split
    · exact .pure _
    · exact .pure _
    · exact steady.bind fun _ => steady.last
    · exact steady_refuse

instance : SteadyPacked TargetRule where
  steady := steady.bind fun _ => steady.bind fun _ => steady.bind fun _ =>
    steady.last

instance : SteadyPacked Scope where
  steady := steady.last

instance : SteadyPacked Action where
  steady := steady.last

instance : SteadyPacked Reach where
  steady := steady_unpackOneOf _

instance : SteadyPacked Step where
  steady := steady.bind fun _ => steady.bind fun _ => steady.bind fun _ =>
    steady.bind fun _ => steady.bind fun _ => steady.bind fun _ =>
    steady.bind fun _ => steady.last

instance : SteadyPacked Requirement where
  steady := (steady_unpackWord 4).bind fun index => by
    split
    · exact steady.last
    · exact steady.last
    · exact steady.bind fun _ => steady.last
    · exact steady.last
    · exact steady.last
    · exact steady_refuse

instance : SteadyPacked LimitRule where
  steady := (steady_unpackWord 4).bind fun index => by
    split
    · exact .pure _
    · exact steady.last
    · exact steady.bind fun _ => steady.last
    · exact steady.last
    · exact steady.last
    · exact .pure _
    · exact steady.bind fun _ => steady.last
    · exact steady_refuse

instance : SteadyPacked Promise where
  steady := steady.bind fun _ => steady.bind fun _ => steady.bind fun _ =>
    steady.bind fun _ => steady.last

instance : SteadyPacked Reversal where
  steady := steady.bind fun _ => steady.last

instance : SteadyPacked Relocation where
  steady := steady.last

instance : SteadyPacked Script where
  steady := steady.bind fun _ => steady.bind fun _ => steady.bind fun _ =>
    steady.bind fun _ => steady.bind fun _ => steady.bind fun _ =>
    steady.bind fun _ => steady.bind fun _ => steady.bind fun _ =>
    steady.last

instance : SteadyPacked Choice where
  steady := steady.bind fun _ => steady.last

instance : SteadyPacked Move where
  steady := steady.bind fun _ => steady.bind fun _ => steady.bind fun _ =>
    steady.last

instance : SteadyPacked Effect where
  steady := steady.bind fun _ => steady.bind fun _ => steady.bind fun _ =>
    steady.bind fun _ => steady.last

instance : SteadyPacked CarryOver where
  steady := steady.bind fun _ => steady.bind fun _ => steady.bind fun _ =>
    steady.bind fun _ => steady.last

instance : SteadyPacked Table where
  steady := steady.bind fun _ => steady.bind fun _ => steady.bind fun _ =>
    steady.bind fun _ => steady.bind fun _ => steady.bind fun _ =>
    steady.last

instance : SteadyPacked Rules where
  steady := steady.bind fun _ => steady.last

instance : SteadyPacked Game where
  steady := steady.bind fun _ => steady.bind fun _ => steady.bind fun _ =>
    steady.bind fun _ => steady.last

end Parts

namespace Game

/-- A snapshot that is cut off anywhere is refused, in whatever order the
multipliers of the carry-over were written.  The bound is the one under which a whole
snapshot is loaded again. -/
theorem load?_truncated (game : Game) (hsize : game.save.length < UInt64.size) :
    (∀ bytes, bytes <+: game.save → bytes ≠ game.save → load? bytes = none) ∧
      ∀ mults : List (CardId × Amount), mults.Perm game.table.carriedMults →
        ∀ bytes, bytes <+: game.saveInOrder mults →
          bytes ≠ game.saveInOrder mults → load? bytes = none := by
  have hany : ∀ mults : List (CardId × Amount),
      mults.Perm game.table.carriedMults →
      ∀ bytes, bytes <+: game.saveInOrder mults →
        bytes ≠ game.saveInOrder mults → load? bytes = none := by
    intro mults hperm bytes hfirst hcut
    have hlength := game.length_saveInOrder hperm
    rw [← save_eq_saveInOrder] at hlength
    rw [← hlength] at hsize
    rw [load?, (reads_saveInOrder hperm).truncated steady hsize hfirst hcut]
    rfl
  refine ⟨?_, hany⟩
  rw [save_eq_saveInOrder]
  exact hany _ (List.Perm.refl _)

/-- Without its last byte the game is not loaded, and neither is it from its first
hundred bytes when its two multipliers are written the other way round. -/
theorem load?_truncated_encore :
    encore.save.length < UInt64.size ∧ load? encore.save.dropLast = none ∧
      load? ((encore.saveInOrder encore.table.carriedMults.reverse).take 100) =
        none := by
  have hsize : encore.save.length < UInt64.size := by decide +kernel
  obtain ⟨hsaved, hany⟩ := load?_truncated encore hsize
  refine ⟨hsize, ?_, ?_⟩
  · refine hsaved _ (List.dropLast_prefix _) fun hsame => ?_
    exact absurd (congrArg List.length hsame) (by decide +kernel)
  · refine hany _ (List.reverse_perm _) _ (List.take_prefix _ _) fun hsame => ?_
    exact absurd (congrArg List.length hsame) (by decide +kernel)

end Game

end Tableau
