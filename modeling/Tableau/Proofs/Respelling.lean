import Mathlib.Data.List.Nodup
import Tableau.Form.Basic

/-!
Other ways to write a value.  A record that was written may lose fields that hold
their defaults and may gain fields that no rule knows, and so may the records in its
fields and in its cases; the entries of a map may stand in any order, and all else
stays as it was written.  What a record then yields for each of its fields is what was
written.  Main statements: `Found.field?_eq` and
`Found.fieldOr?_eq`.
-/

namespace Tableau

mutual

/-- A field of a record in written form, with what is read if it is left out;
without a default it has to be there. -/
structure Field where
  name : String
  default? : Option Json
  shape : Shape

/-- In which ways a written value can be respelled: not at all, or as an object
with the entries of a map, with the fields of a record, or with the name of a
case for its only key. -/
inductive Shape where
  | plain
  | map
  | record (fields : List Field)
  | tagged (cases : List (String × Shape))

end

def Field.named? (fields : List Field) (name : String) : Option Field :=
  fields.find? (fun field => field.name == name)

mutual

/-- The second value is the first one in other words. -/
inductive Respelled : Shape → Json → Json → Prop where
  | same {shape : Shape} {json : Json} : Respelled shape json json
  | map {given members : List (JsonKey × Json)} (hperm : members.Perm given) :
      Respelled .map (.record given) (.record members)
  | record {fields : List Field} {given members : List (JsonKey × Json)}
      (hmembers : Reworded fields given members) :
      Respelled (.record fields) (.record given) (.record members)
  | tagged {cases : List (String × Shape)} {name : String} {shape : Shape}
      {content other : Json} (hcase : cases.lookup name = some shape)
      (hcontent : Respelled shape content other) :
      Respelled (.tagged cases) (.record [(name, content)])
        (.record [(name, other)])

/-- The second members are those of a record that was given with the first ones, less
fields that held their defaults, and with fields that the record does not know at any
place between them. -/
inductive Reworded : List Field → List (JsonKey × Json) →
    List (JsonKey × Json) → Prop where
  | done {fields : List Field} : Reworded fields [] []
  | keep {fields : List Field} {given members : List (JsonKey × Json)}
      {key : JsonKey} {json other : Json} {field : Field}
      (hfield : Field.named? fields key.text = some field)
      (hjson : Respelled field.shape json other)
      (hrest : Reworded fields given members) :
      Reworded fields ((key, json) :: given) ((key, other) :: members)
  | leave {fields : List Field} {given members : List (JsonKey × Json)}
      {key : JsonKey} {json : Json} {field : Field}
      (hfield : Field.named? fields key.text = some field)
      (hdefault : field.default? = some json)
      (hrest : Reworded fields given members) :
      Reworded fields ((key, json) :: given) members
  | add {fields : List Field} {given members : List (JsonKey × Json)}
      {key : JsonKey} {json : Json}
      (hunknown : Field.named? fields key.text = none)
      (hrest : Reworded fields given members) :
      Reworded fields given ((key, json) :: members)

end

namespace Form

/-- What the first member with a name holds. -/
def memberAt? (members : List (JsonKey × Json)) (name : String) : Option Json :=
  (members.find? (fun member => member.1.text == name)).map Prod.snd

@[simp] theorem memberAt?_cons (key : JsonKey) (json : Json)
    (members : List (JsonKey × Json)) (name : String) :
    memberAt? ((key, json) :: members) name =
      if key.text = name then some json else memberAt? members name := by
  unfold memberAt?
  by_cases hname : key.text = name
  · simp [List.find?_cons_of_pos, hname]
  · simp [List.find?_cons_of_neg, hname]

theorem field?_eq_bind {α : Type} [Form α] (found : Fields) (name : String) :
    field? (α := α) found name =
      (memberAt? found.members name).bind (read? found.source) := by
  unfold field? memberAt?
  split <;> simp [*]

theorem fieldOr?_eq_elim {α : Type} [Form α] (found : Fields) (name : String)
    (default : α) : fieldOr? found name default =
      (memberAt? found.members name).elim (some default)
        (read? found.source) := by
  unfold fieldOr? memberAt?
  split <;> simp [*]

end Form

open Form

namespace Reworded

variable {fields : List Field} {given members : List (JsonKey × Json)}
  {field : Field} {name : String}

/-- Induction over the members of a record. -/
theorem induction {motive : (given members : List (JsonKey × Json)) →
      Reworded fields given members → Prop}
    (done : motive [] [] .done)
    (keep : ∀ {given members : List (JsonKey × Json)} {key : JsonKey}
      {json other : Json} {field : Field}
      (hfield : Field.named? fields key.text = some field)
      (hjson : Respelled field.shape json other)
      (hrest : Reworded fields given members), motive given members hrest →
      motive ((key, json) :: given) ((key, other) :: members)
        (.keep hfield hjson hrest))
    (leave : ∀ {given members : List (JsonKey × Json)} {key : JsonKey}
      {json : Json} {field : Field}
      (hfield : Field.named? fields key.text = some field)
      (hdefault : field.default? = some json)
      (hrest : Reworded fields given members), motive given members hrest →
      motive ((key, json) :: given) members (.leave hfield hdefault hrest))
    (add : ∀ {given members : List (JsonKey × Json)} {key : JsonKey} {json : Json}
      (hunknown : Field.named? fields key.text = none)
      (hrest : Reworded fields given members), motive given members hrest →
      motive given ((key, json) :: members) (.add hunknown hrest)) :
    ∀ {given members : List (JsonKey × Json)}
      (hreworded : Reworded fields given members), motive given members hreworded
  | _, _, .done => done
  | _, _, .keep hfield hjson hrest =>
      keep hfield hjson hrest (hrest.induction done keep leave add)
  | _, _, .leave hfield hdefault hrest =>
      leave hfield hdefault hrest (hrest.induction done keep leave add)
  | _, _, .add hunknown hrest =>
      add hunknown hrest (hrest.induction done keep leave add)

theorem ne_of_unknown {key : JsonKey}
    (hunknown : Field.named? fields key.text = none)
    (hfield : Field.named? fields name = some field) : key.text ≠ name := by
  rintro rfl
  cases hunknown.symm.trans hfield

/-- No field of the record is there more often than it was given. -/
theorem countP_le (hreworded : Reworded fields given members)
    (hfield : Field.named? fields name = some field) :
    members.countP (fun member => member.1.text == name) ≤
      given.countP (fun member => member.1.text == name) := by
  induction hreworded using induction with
  | done => exact Nat.le_refl _
  | keep hknown hjson hrest ih =>
      simp only [List.countP_cons]
      omega
  | leave hknown hdefault hrest ih =>
      simp only [List.countP_cons]
      omega
  | add hunknown hrest ih =>
      have hother := ne_of_unknown hunknown hfield
      simpa [List.countP_cons, hother] using ih

theorem memberAt?_eq_none (hreworded : Reworded fields given members)
    (hfield : Field.named? fields name = some field)
    (hnone : memberAt? given name = none) : memberAt? members name = none := by
  induction hreworded using induction with
  | done => rfl
  | keep hknown hjson hrest ih =>
      rw [memberAt?_cons] at hnone ⊢
      split at hnone
      · cases hnone
      · rename_i hother
        rw [if_neg hother]
        exact ih hnone
  | leave hknown hdefault hrest ih =>
      rw [memberAt?_cons] at hnone
      split at hnone
      · cases hnone
      · exact ih hnone
  | add hunknown hrest ih =>
      rw [memberAt?_cons, if_neg (ne_of_unknown hunknown hfield)]
      exact ih hnone

/-- A field that was given is there, perhaps in other words, or it held its
default. -/
theorem memberAt?_cases (hreworded : Reworded fields given members)
    (hfield : Field.named? fields name = some field)
    (hdistinct : (given.map fun member => member.1.text).Nodup) {json : Json}
    (hgiven : memberAt? given name = some json) :
    (∃ other, memberAt? members name = some other ∧
      Respelled field.shape json other) ∨
    memberAt? members name = none ∧ field.default? = some json := by
  induction hreworded using induction with
  | done => cases hgiven
  | keep hknown hjson hrest ih =>
      rw [memberAt?_cons] at hgiven ⊢
      split at hgiven
      · rename_i hname
        subst hname
        cases hknown.symm.trans hfield
        cases hgiven
        exact .inl ⟨_, if_pos rfl, hjson⟩
      · rename_i hother
        rw [if_neg hother]
        exact ih (List.nodup_cons.mp hdistinct).2 hgiven
  | @leave rest members key held known hknown hdefault hrest ih =>
      obtain ⟨hfirst, hdistinct⟩ := List.nodup_cons.mp hdistinct
      rw [memberAt?_cons] at hgiven
      split at hgiven
      · rename_i hname
        subst hname
        cases hknown.symm.trans hfield
        cases hgiven
        -- The other members have other names.
        have hnone : memberAt? rest key.text = none := by
          rw [memberAt?, Option.map_eq_none_iff, List.find?_eq_none]
          intro member hmember hname
          refine hfirst (List.mem_map.mpr ⟨member, hmember, ?_⟩)
          exact eq_of_beq hname
        exact .inr ⟨hrest.memberAt?_eq_none hfield hnone, hdefault⟩
      · exact ih hdistinct hgiven
  | add hunknown hrest ih =>
      rw [memberAt?_cons, if_neg (ne_of_unknown hunknown hfield)]
      exact ih hdistinct hgiven

end Reworded

namespace Respelled

variable {fields : List Field} {given : List (JsonKey × Json)} {json : Json}

theorem eq_of_plain {other : Json} (hrespelled : Respelled .plain json other) :
    other = json := by
  cases hrespelled
  rfl

theorem eq_of_string {shape : Shape} {text : String}
    (hrespelled : Respelled shape (.string text) json) : json = .string text := by
  cases hrespelled
  rfl

theorem exists_perm (hrespelled : Respelled .map (.record given) json) :
    ∃ members, json = .record members ∧ members.Perm given := by
  cases hrespelled with
  | same => exact ⟨given, rfl, .refl given⟩
  | map hperm => exact ⟨_, rfl, hperm⟩

theorem exists_content {cases : List (String × Shape)} {name : String}
    {shape : Shape} {content : Json}
    (hrespelled : Respelled (.tagged cases) (.record [(name, content)]) json)
    (hcase : cases.lookup name = some shape) :
    ∃ other, json = .record [(name, other)] ∧ Respelled shape content other := by
  cases hrespelled with
  | same => exact ⟨content, rfl, .same⟩
  | tagged hknown hcontent =>
      cases hknown.symm.trans hcase
      exact ⟨_, rfl, hcontent⟩

end Respelled

/-- Values that are written in a given shape. -/
class Shaped (α : Type) where
  shapeOf : Shape

export Shaped (shapeOf)

def Field.required (name : String) (α : Type) [Shaped α] : Field :=
  { name, default? := none, shape := shapeOf α }

def Field.optional {α : Type} [Form α] [Shaped α] (name : String) (default : α) :
    Field :=
  { name, default? := some (write default), shape := shapeOf α }

/-- Values that are read from what is written for them, also in other words. -/
class LawfulForm (α : Type) [Form α] [Shaped α] : Prop where
  read?_respelled : ∀ (value : α) (source : Source) {json : Json},
    Respelled (shapeOf α) (write value) json → read? source json = some value

export LawfulForm (read?_respelled)

theorem read?_write {α : Type} [Form α] [Shaped α] [LawfulForm α] (value : α)
    (source : Source) : read? source (write value) = some value :=
  read?_respelled value source .same

theorem write_injective {α : Type} [Form α] [Shaped α] [LawfulForm α]
    {left right : α} (hwritten : write left = write right) : left = right := by
  have hread := read?_write left .document
  rw [hwritten, read?_write right .document] at hread
  exact (Option.some.inj hread).symm

section Found

variable {fields : List Field} {given : List (JsonKey × Json)} {json : Json}

/-- What was found of a record is a rewording of what was given. -/
structure Found (fields : List Field) (given : List (JsonKey × Json))
    (found : Fields) : Prop where
  reworded : Reworded fields given found.members
  distinct : (given.map fun member => member.1.text).Nodup

theorem Field.exists_named? {name : String}
    (hname : name ∈ fields.map Field.name) :
    ∃ field, Field.named? fields name = some field := by
  obtain ⟨field, hfield, rfl⟩ := List.mem_map.mp hname
  rw [← Option.isSome_iff_exists, Field.named?, List.find?_isSome]
  exact ⟨field, hfield, beq_self_eq_true field.name⟩

theorem Reworded.refl
    (hknown : ∀ member ∈ given, member.1.text ∈ fields.map Field.name) :
    Reworded fields given given := by
  induction given with
  | nil => exact .done
  | cons member rest ih =>
      obtain ⟨hfirst, hrest⟩ := List.forall_mem_cons.mp hknown
      obtain ⟨field, hfield⟩ := Field.exists_named? hfirst
      exact .keep hfield .same (ih hrest)

/-- The members of a record that was respelled are accepted as its fields. -/
theorem Respelled.exists_members
    (hrespelled : Respelled (.record fields) (.record given) json)
    (hnames : (fields.map Field.name).Nodup)
    (hkeys : (given.map fun member => member.1.text).Sublist
      (fields.map Field.name)) (source : Source) :
    ∃ members, json = .record members ∧
      memberFields? source (fields.map Field.name) members =
        some { source, members } ∧
      Found fields given { source, members } := by
  have hdistinct := hkeys.nodup hnames
  obtain ⟨members, rfl, hreworded⟩ : ∃ members, json = .record members ∧
      Reworded fields given members := by
    cases hrespelled with
    | same =>
        refine ⟨given, rfl, .refl fun member hmember => hkeys.subset ?_⟩
        exact List.mem_map.mpr ⟨member, hmember, rfl⟩
    | record hreworded => exact ⟨_, rfl, hreworded⟩
  refine ⟨members, rfl, if_pos ?_, hreworded, hdistinct⟩
  rw [List.all_eq_true]
  intro name hname
  obtain ⟨field, hfield⟩ := Field.exists_named? hname
  have honce := List.nodup_iff_count_le_one.mp hdistinct name
  rw [List.count, List.countP_map] at honce
  exact decide_eq_true (Nat.le_trans (hreworded.countP_le hfield) honce)

theorem Respelled.exists_caseMembers {cases : List (String × Shape)}
    {name : String}
    (hrespelled : Respelled (.tagged cases) (writeCase name given) json)
    (hcase : cases.lookup name = some (.record fields))
    (hnames : (fields.map Field.name).Nodup)
    (hkeys : (given.map fun member => member.1.text).Sublist
      (fields.map Field.name)) (source : Source) :
    ∃ members, json = .record [(name, .record members)] ∧
      memberFields? source (fields.map Field.name) members =
        some { source, members } ∧
      Found fields given { source, members } := by
  obtain ⟨other, rfl, hcontent⟩ := hrespelled.exists_content hcase
  obtain ⟨members, rfl, hmembers⟩ := hcontent.exists_members hnames hkeys source
  exact ⟨members, rfl, hmembers⟩

variable {α : Type} [Form α] [Shaped α] {found : Fields} {name : String}

theorem Found.fieldOr?_eq_default {default : α}
    (hfound : Found fields given found)
    (hfield : Field.named? fields name = some (.optional name default))
    (hgiven : memberAt? given name = none) :
    fieldOr? found name default = some default := by
  rw [fieldOr?_eq_elim, hfound.reworded.memberAt?_eq_none hfield hgiven]
  rfl

variable [LawfulForm α]

theorem Found.field?_eq {value : α} (hfound : Found fields given found)
    (hfield : Field.named? fields name = some (.required name α))
    (hgiven : memberAt? given name = some (write value)) :
    field? found name = some value := by
  rw [field?_eq_bind]
  rcases hfound.reworded.memberAt?_cases hfield hfound.distinct hgiven with
    ⟨other, hother, hrespelled⟩ | ⟨-, hdefault⟩
  · rw [hother]
    exact read?_respelled value found.source hrespelled
  · cases hdefault

/-- A field with a default yields what was written, also if it was left out. -/
theorem Found.fieldOr?_eq {value default : α} (hfound : Found fields given found)
    (hfield : Field.named? fields name = some (.optional name default))
    (hgiven : memberAt? given name = some (write value)) :
    fieldOr? found name default = some value := by
  rw [fieldOr?_eq_elim]
  rcases hfound.reworded.memberAt?_cases hfield hfound.distinct hgiven with
    ⟨other, hother, hrespelled⟩ | ⟨hnone, hdefault⟩
  · rw [hother]
    exact read?_respelled value found.source hrespelled
  · rw [hnone, write_injective (Option.some.inj hdefault)]
    rfl

end Found

end Tableau
