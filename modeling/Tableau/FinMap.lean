/-!
Finite maps with one representation each: the entries stand in the order of
their keys, so two maps are equal exactly when they look up alike.  Main
statements: `get?_insert`, what a lookup finds after an insertion; `ext_get?`,
maps that look up alike are equal; and `ofList_of_perm`, inserting the entries
of a map one by one, in any order, yields the map.
-/

namespace Tableau

/-- Keys that are told apart, and put in order, by a number. -/
class Rank (κ : Type) where
  rank : κ → Nat
  rank_inj : ∀ {left right : κ}, rank left = rank right → left = right

/-- The order in which a map keeps its entries. -/
def Rank.Before {κ α : Type} [Rank κ] (left right : κ × α) : Prop :=
  Rank.rank left.1 < Rank.rank right.1

/-- A map from finitely many keys to values. -/
structure FinMap (κ α : Type) [Rank κ] where
  entries : List (κ × α)
  sorted : entries.Pairwise Rank.Before

namespace FinMap

open Rank

variable {κ α : Type} [Rank κ]

instance [DecidableEq κ] [DecidableEq α] : DecidableEq (FinMap κ α) :=
  fun left right =>
    if h : left.entries = right.entries then
      isTrue (by cases left; cases right; simp_all)
    else isFalse (fun heq => h (congrArg entries heq))

instance [Repr κ] [Repr α] : Repr (FinMap κ α) :=
  ⟨fun map level => reprPrec map.entries level⟩

theorem ext_entries {left right : FinMap κ α}
    (hentries : left.entries = right.entries) : left = right := by
  cases left
  cases right
  simp_all

def empty : FinMap κ α := ⟨[], .nil⟩

instance : Inhabited (FinMap κ α) := ⟨empty⟩

def isEmpty (map : FinMap κ α) : Bool := map.entries.isEmpty

theorem isEmpty_iff {map : FinMap κ α} : map.isEmpty = true ↔ map = empty := by
  rw [isEmpty, List.isEmpty_iff]
  exact ⟨fun hentries => ext_entries hentries, fun heq => heq ▸ rfl⟩

def size (map : FinMap κ α) : Nat := map.entries.length

def keys (map : FinMap κ α) : List κ := map.entries.map Prod.fst

def values (map : FinMap κ α) : List α := map.entries.map Prod.snd

/-- The value of the first entry with the key. -/
def lookup (key : κ) : List (κ × α) → Option α
  | [] => none
  | (other, value) :: rest =>
      if rank key = rank other then some value else lookup key rest

def get? (map : FinMap κ α) (key : κ) : Option α := lookup key map.entries

/-- Put an entry at its place, instead of an older one with the same key. -/
def place (key : κ) (value : α) : List (κ × α) → List (κ × α)
  | [] => [(key, value)]
  | (other, old) :: rest =>
      if rank key < rank other then (key, value) :: (other, old) :: rest
      else if rank key = rank other then (key, value) :: rest
      else (other, old) :: place key value rest

theorem mem_place {key : κ} {value : α} {entry : κ × α}
    {entries : List (κ × α)} (hentry : entry ∈ place key value entries) :
    entry = (key, value) ∨ entry ∈ entries := by
  induction entries with
  | nil => simpa [place] using hentry
  | cons head tail ih =>
      simp only [place] at hentry
      split at hentry
      · simpa using hentry
      · split at hentry
        · rcases List.mem_cons.mp hentry with hnew | hold
          · exact Or.inl hnew
          · exact Or.inr (List.mem_cons_of_mem head hold)
        · rcases List.mem_cons.mp hentry with hhead | htail
          · exact Or.inr (hhead ▸ List.mem_cons_self)
          · rcases ih htail with hnew | hold
            · exact Or.inl hnew
            · exact Or.inr (List.mem_cons_of_mem head hold)

theorem place_sorted (key : κ) (value : α) {entries : List (κ × α)}
    (hsorted : entries.Pairwise Before) :
    (place key value entries).Pairwise Before := by
  induction entries with
  | nil => simp [place]
  | cons head tail ih =>
      obtain ⟨hhead, htail⟩ := List.pairwise_cons.mp hsorted
      simp only [place]
      split
      · rename_i hlt
        refine List.pairwise_cons.mpr ⟨?_, hsorted⟩
        intro entry hentry
        rcases List.mem_cons.mp hentry with rfl | hentry
        · exact hlt
        · exact Nat.lt_trans hlt (hhead entry hentry)
      · split
        · rename_i heq
          refine List.pairwise_cons.mpr ⟨?_, htail⟩
          intro entry hentry
          simp only [Before, heq]
          exact hhead entry hentry
        · rename_i hnlt hne
          refine List.pairwise_cons.mpr ⟨?_, ih htail⟩
          intro entry hentry
          rcases mem_place hentry with rfl | hold
          · simp only [Before]
            omega
          · exact hhead entry hold

def insert (map : FinMap κ α) (key : κ) (value : α) : FinMap κ α :=
  ⟨place key value map.entries, place_sorted key value map.sorted⟩

/-- Insert entries one after the other; a later one replaces an earlier one
with the same key. -/
def insertAll (map : FinMap κ α) (entries : List (κ × α)) : FinMap κ α :=
  entries.foldl (fun grown entry => grown.insert entry.1 entry.2) map

def ofList (entries : List (κ × α)) : FinMap κ α := empty.insertAll entries

@[simp] theorem get?_empty (key : κ) : (empty : FinMap κ α).get? key = none :=
  rfl

theorem lookup_place (key other : κ) (value : α) (entries : List (κ × α)) :
    lookup other (place key value entries) =
      if rank other = rank key then some value else lookup other entries := by
  induction entries with
  | nil => simp [place, lookup]
  | cons head tail ih =>
      simp only [place]
      split
      · rename_i hlt
        by_cases heq : rank other = rank key <;> simp [lookup, heq]
      · split
        · rename_i heq
          by_cases hsame : rank other = rank key
          · simp [lookup, hsame]
          · simp [lookup, hsame, ← heq]
        · rename_i hnlt hne
          by_cases hhead : rank other = rank head.1
          · have hnot : ¬ rank head.1 = rank key := fun h => hne h.symm
            simp [lookup, hhead, hnot]
          · simp [lookup, hhead, ih]

/-- After an insertion a lookup finds the new value under its key and the old
ones elsewhere. -/
theorem get?_insert (map : FinMap κ α) (key other : κ) (value : α) :
    (map.insert key value).get? other =
      if rank other = rank key then some value else map.get? other :=
  lookup_place key other value map.entries

/-- The same, with the keys compared instead of their ranks. -/
theorem get?_insert_key [DecidableEq κ] (map : FinMap κ α) (key other : κ)
    (value : α) :
    (map.insert key value).get? other =
      if other = key then some value else map.get? other := by
  have hrank : rank other = rank key ↔ other = key :=
    ⟨fun heq => rank_inj heq, fun heq => congrArg rank heq⟩
  simp only [get?_insert, hrank]

/-- A new entry stands among the others. -/
theorem place_perm {key : κ} {value : α} {entries : List (κ × α)}
    (hnew : lookup key entries = none) :
    (place key value entries).Perm ((key, value) :: entries) := by
  induction entries with
  | nil => exact .refl _
  | cons head tail ih =>
      have hne : ¬ rank key = rank head.1 := fun heq => by
        simp [lookup, heq] at hnew
      have htail : lookup key tail = none := by
        simpa only [lookup, hne, ↓reduceIte] using hnew
      simp only [place, hne, ↓reduceIte]
      split
      · exact .refl _
      · exact ((ih htail).cons head).trans (.swap (key, value) head tail)

/-- A value under a new key stands among the others. -/
theorem values_insert_perm {map : FinMap κ α} {key : κ} {value : α}
    (hnew : map.get? key = none) :
    (map.insert key value).values.Perm (value :: map.values) :=
  (place_perm hnew).map Prod.snd

theorem lookup_of_before (key : κ) (entries : List (κ × α))
    (hbefore : ∀ entry ∈ entries, rank key < rank entry.1) :
    lookup key entries = none := by
  induction entries with
  | nil => rfl
  | cons head tail ih =>
      have hhead := hbefore head List.mem_cons_self
      have hne : ¬ rank key = rank head.1 := Nat.ne_of_lt hhead
      simp only [lookup, hne, ↓reduceIte]
      exact ih (fun entry hentry =>
        hbefore entry (List.mem_cons_of_mem head hentry))

/-- An entry that is found in a sorted list does not stand before its head. -/
theorem not_before_of_lookup {head other : κ × α} {rest : List (κ × α)}
    (hsorted : (other :: rest).Pairwise Before)
    (hfound : lookup head.1 (other :: rest) = some head.2) :
    ¬ rank head.1 < rank other.1 := by
  intro hlt
  have hnone : lookup head.1 (other :: rest) = none := by
    apply lookup_of_before
    intro entry hentry
    rcases List.mem_cons.mp hentry with rfl | hentry
    · exact hlt
    · exact Nat.lt_trans hlt ((List.pairwise_cons.mp hsorted).1 entry hentry)
  rw [hnone] at hfound
  cases hfound

theorem entries_eq_of_lookup {left right : List (κ × α)}
    (hleft : left.Pairwise Before) (hright : right.Pairwise Before)
    (hsame : ∀ key, lookup key left = lookup key right) : left = right := by
  induction left generalizing right with
  | nil =>
      cases right with
      | nil => rfl
      | cons other rest =>
          have hother := hsame other.1
          simp [lookup] at hother
  | cons head tail ih =>
      have hhead : lookup head.1 (head :: tail) = some head.2 := by
        simp [lookup]
      cases right with
      | nil =>
          rw [hsame head.1] at hhead
          cases hhead
      | cons other rest =>
          have hother : lookup other.1 (other :: rest) = some other.2 := by
            simp [lookup]
          have hnlt := not_before_of_lookup hright
            ((hsame head.1).symm.trans hhead)
          have hngt := not_before_of_lookup hleft ((hsame other.1).trans hother)
          have hkey : head.1 = other.1 := rank_inj (by omega)
          have hvalue : head.2 = other.2 := by
            rw [hsame head.1, hkey, hother] at hhead
            exact (Option.some.inj hhead).symm
          have hentry : head = other := Prod.ext hkey hvalue
          subst hentry
          obtain ⟨hfirst, htail⟩ := List.pairwise_cons.mp hleft
          obtain ⟨hfirst', hrest⟩ := List.pairwise_cons.mp hright
          refine congrArg (head :: ·) (ih htail hrest ?_)
          intro key
          by_cases hrank : rank key = rank head.1
          · have hequal : key = head.1 := rank_inj hrank
            subst hequal
            rw [lookup_of_before head.1 tail hfirst,
              lookup_of_before head.1 rest hfirst']
          · have hkeys := hsame key
            simpa only [lookup, hrank, ↓reduceIte] using hkeys

/-- Two maps that look up alike are equal. -/
theorem ext_get? {left right : FinMap κ α}
    (hsame : ∀ key, left.get? key = right.get? key) : left = right :=
  ext_entries (entries_eq_of_lookup left.sorted right.sorted hsame)

section Distinct

variable {entries : List (κ × α)}

/-- Entries with different keys. -/
def Distinct (entries : List (κ × α)) : Prop :=
  entries.Pairwise fun left right => rank left.1 ≠ rank right.1

theorem distinct_entries (map : FinMap κ α) : Distinct map.entries :=
  map.sorted.imp fun hbefore => Nat.ne_of_lt hbefore

theorem Distinct.perm {others : List (κ × α)} (hdistinct : Distinct entries)
    (hperm : entries.Perm others) : Distinct others :=
  (hperm.pairwise_iff fun hne => hne.symm).mp hdistinct

/-- Where keys differ, a lookup finds the entries and nothing else. -/
theorem lookup_eq_some_iff {key : κ} {value : α} (hdistinct : Distinct entries) :
    lookup key entries = some value ↔ (key, value) ∈ entries := by
  induction entries with
  | nil => simp [lookup]
  | cons head tail ih =>
      obtain ⟨hhead, htail⟩ := List.pairwise_cons.mp hdistinct
      by_cases heq : rank key = rank head.1
      · have hkey : key = head.1 := rank_inj heq
        have hnot : (key, value) ∉ tail := fun hmem => hhead _ hmem heq.symm
        simp [lookup, hkey, Prod.ext_iff, hkey ▸ hnot, eq_comm]
      · have hne : (key, value) ≠ head := fun hsame => heq (hsame ▸ rfl)
        simp [lookup, heq, hne, ih htail]

theorem get?_eq_some_iff {map : FinMap κ α} {key : κ} {value : α} :
    map.get? key = some value ↔ (key, value) ∈ map.entries :=
  lookup_eq_some_iff map.distinct_entries

theorem nodup_keys (map : FinMap κ α) : map.keys.Nodup :=
  List.pairwise_map.mpr (map.distinct_entries.imp fun hne heq =>
    hne (congrArg rank heq))

/-- After insertions under different keys a lookup finds the new values under
their keys and the old ones elsewhere. -/
theorem get?_insertAll (map : FinMap κ α) (key : κ)
    (hdistinct : Distinct entries) :
    (map.insertAll entries).get? key =
      (lookup key entries).or (map.get? key) := by
  induction entries generalizing map with
  | nil => simp [insertAll, lookup]
  | cons head tail ih =>
      obtain ⟨hhead, htail⟩ := List.pairwise_cons.mp hdistinct
      have hrest : (map.insertAll (head :: tail)).get? key =
          (lookup key tail).or ((map.insert head.1 head.2).get? key) :=
        ih (map.insert head.1 head.2) htail
      rw [hrest, get?_insert]
      by_cases heq : rank key = rank head.1
      · have hnone : lookup key tail = none := by
          rw [Option.eq_none_iff_forall_ne_some]
          intro value hsome
          have hmem := (lookup_eq_some_iff htail).mp hsome
          exact hhead _ hmem heq.symm
        simp [lookup, heq, hnone]
      · simp [lookup, heq]

/-- A map is recovered from its entries in any order. -/
theorem ofList_of_perm {map : FinMap κ α} (hperm : entries.Perm map.entries) :
    ofList entries = map := by
  have hdistinct := map.distinct_entries.perm hperm.symm
  refine ext_get? fun key => ?_
  have hlookup : lookup key entries = lookup key map.entries := by
    apply Option.ext
    intro value
    rw [lookup_eq_some_iff hdistinct, lookup_eq_some_iff map.distinct_entries,
      hperm.mem_iff]
  rw [ofList, get?_insertAll empty key hdistinct, hlookup, get?_empty,
    Option.or_none]
  rfl

end Distinct

end FinMap

end Tableau
