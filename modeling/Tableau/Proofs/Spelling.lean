import Mathlib.Data.List.Perm.Basic
import Tableau.Form.Table
import Tableau.Proofs.Respelling

/-!
The written forms that hold no amounts are read back: from what is written for a
value, and from every respelling of it.  Main statement: `forms_faithful`.
-/

namespace Tableau

open Form

/-- Values that are written in one way only, and read back from it. -/
class PlainForm (α : Type) [Form α] : Prop where
  read?_write_plain : ∀ (value : α) (source : Source),
    read? source (write value) = some value

export PlainForm (read?_write_plain)

section Plain

variable {α : Type} [Form α] [PlainForm α]

instance (priority := low) : Shaped α where
  shapeOf := .plain

instance (priority := low) : LawfulForm α where
  read?_respelled value source json hjson := by
    rw [Respelled.eq_of_plain hjson]
    exact read?_write_plain value source

/-- Where nothing is written as null, an optional value is read back. -/
theorem plainForm_option
    (hnull : ∀ source, read? source .null = (none : Option α)) :
    PlainForm (Option α) where
  read?_write_plain value source := by
    cases value with
    | none => rfl
    | some value =>
        have hread := read?_write_plain value source
        change read? source (write value) = _
        cases hwritten : write value with
        | null =>
            rw [hwritten, hnull] at hread
            cases hread
        | _ => exact congrArg (Option.map some) (hwritten ▸ hread)

/-- Elements that are read back one by one are read back together. -/
theorem mapM_map_eq_some {β γ : Type} {written : β → γ} {reader : γ → Option β}
    (hread : ∀ value, reader (written value) = some value) (values : List β) :
    (values.map written).mapM reader = some values := by
  induction values with
  | nil => rfl
  | cons value rest ih => simp [List.mapM_cons, hread, ih]

instance : PlainForm (List α) where
  read?_write_plain values source :=
    mapM_map_eq_some (fun value => read?_write_plain value source) values

end Plain

section Words

instance : PlainForm Bool where
  read?_write_plain _ _ := rfl

instance : PlainForm String where
  read?_write_plain _ _ := rfl

theorem readInteger?_eq_some {least most value : Int} (hleast : least ≤ value)
    (hmost : value ≤ most) :
    readInteger? least most (.ofInt value) = some value :=
  if_pos ⟨hleast, hmost⟩

instance : PlainForm UInt32 where
  read?_write_plain value _ := by
    have hread : readInteger? 0 4294967295 (.ofInt value.toNat) =
        some (value.toNat : Int) := by
      have hsize := UInt32.toNat_lt_size value
      rw [UInt32.size] at hsize
      exact readInteger?_eq_some (by omega) (by omega)
    change (readInteger? 0 4294967295 (.ofInt value.toNat)).map _ = _
    rw [hread]
    simp

instance : PlainForm UInt64 where
  read?_write_plain value _ := by
    have hread : readInteger? 0 18446744073709551615 (.ofInt value.toNat) =
        some (value.toNat : Int) := by
      have hsize := UInt64.toNat_lt_size value
      rw [UInt64.size] at hsize
      exact readInteger?_eq_some (by omega) (by omega)
    change (readInteger? 0 18446744073709551615 (.ofInt value.toNat)).map _ = _
    rw [hread]
    simp

instance : PlainForm Int64 where
  read?_write_plain value _ := by
    change (readInteger? _ _ (.ofInt value.toInt)).map _ = _
    rw [readInteger?_eq_some (Int64.minValue_le_toInt value)
      (Int64.toInt_le value)]
    simp

instance : PlainForm Suit where
  read?_write_plain suit _ := by
    cases suit <;> rfl

instance : PlainForm Zone where
  read?_write_plain zone _ := by
    cases zone <;> rfl

instance : PlainForm CardId where
  read?_write_plain id source :=
    congrArg (Option.map CardId.mk) (read?_write_plain id.number source)

instance : PlainForm PlayId where
  read?_write_plain play source :=
    congrArg (Option.map PlayId.mk) (read?_write_plain play.number source)

instance : PlainForm (Option Suit) :=
  plainForm_option fun _ => rfl

instance : PlainForm (Option PlayId) :=
  plainForm_option fun _ => rfl

end Words

section Maps

theorem find?_tag (suit : Suit) :
    Suit.all.find? (fun other => other.tag == suit.tag) = some suit := by
  cases suit <;> rfl

/-- What is written for some values, in another order, is written for the values in
that order. -/
theorem exists_map_of_perm {β γ : Type} {written : β → γ} {values : List β}
    {other : List γ} (hperm : other.Perm (values.map written)) :
    ∃ ordered : List β, other = ordered.map written ∧ ordered.Perm values :=
  (congrFun₂ (List.eq_map_comp_perm written) other values).mpr hperm

instance : Shaped (FinMap Suit UInt32) where
  shapeOf := .map

instance : LawfulForm (FinMap Suit UInt32) where
  read?_respelled slots source json hjson := by
    obtain ⟨members, rfl, hperm⟩ := hjson.exists_perm
    obtain ⟨entries, rfl, hentries⟩ := exists_map_of_perm hperm
    refine Option.bind_eq_some_iff.mpr ⟨entries, ?_, ?_⟩
    · refine mapM_map_eq_some (fun entry => ?_) entries
      refine Option.bind_eq_some_iff.mpr ⟨entry.1, find?_tag entry.1, ?_⟩
      rw [read?_write]
      rfl
    · exact congrArg some (FinMap.ofList_of_perm hentries)

end Maps

/-- A case with a single field, which has to be there. -/
theorem exists_onlyField {α : Type} [Form α] [Shaped α] [LawfulForm α]
    {cases : List (String × Shape)} {name only : String} {value : α} {json : Json}
    (hjson : Respelled (.tagged cases) (writeCase name [(only, write value)]) json)
    (hcase : cases.lookup name = some (.record [.required only α]))
    (source : Source) :
    ∃ members, json = .record [(name, .record members)] ∧
      memberFields? source [only] members = some ⟨source, members⟩ ∧
      field? ⟨source, members⟩ only = some value := by
  obtain ⟨members, rfl, hfields, hfound⟩ := hjson.exists_caseMembers hcase
    (List.nodup_singleton only) (List.Sublist.refl _) source
  refine ⟨members, rfl, hfields, hfound.field?_eq (List.find?_cons_of_pos ?_) ?_⟩
  · exact beq_self_eq_true only
  · rw [memberAt?_cons, if_pos rfl]

section Records

instance : Shaped Card where
  shapeOf := .record [.required "id" CardId, .required "name" String,
    .required "type" Suit, .required "base_score" Int64]

instance : LawfulForm Card where
  read?_respelled card source json hjson := by
    obtain ⟨members, rfl, hfields, hfound⟩ :=
      hjson.exists_members (by decide) (List.Sublist.refl _) source
    -- Which field has the name, and what was given for it, is read off the two lists.
    have hid : field? ⟨source, members⟩ "id" = some card.id :=
      hfound.field?_eq rfl rfl
    have hname : field? ⟨source, members⟩ "name" = some card.name :=
      hfound.field?_eq rfl rfl
    have hsuit : field? ⟨source, members⟩ "type" = some card.suit :=
      hfound.field?_eq rfl rfl
    have hbase : field? ⟨source, members⟩ "base_score" = some card.base :=
      hfound.field?_eq rfl rfl
    refine Option.bind_eq_some_iff.mpr ⟨_, hfields, ?_⟩
    simp [hid, hname, hsuit, hbase]

instance : Shaped InPlay where
  shapeOf := .record [.required "play_id" PlayId, .required "card" Card,
    .optional "slot_free" false]

instance : LawfulForm InPlay where
  read?_respelled seat source json hjson := by
    obtain ⟨members, rfl, hfields, hfound⟩ :=
      hjson.exists_members (by decide) (List.Sublist.refl _) source
    have hplay : field? ⟨source, members⟩ "play_id" = some seat.play :=
      hfound.field?_eq rfl rfl
    have hcard : field? ⟨source, members⟩ "card" = some seat.card :=
      hfound.field?_eq rfl rfl
    have hfree : fieldOr? ⟨source, members⟩ "slot_free" false = some seat.free :=
      hfound.fieldOr?_eq rfl rfl
    refine Option.bind_eq_some_iff.mpr ⟨_, hfields, ?_⟩
    simp [hplay, hcard, hfree]

instance : Shaped Rules where
  shapeOf := .record [.optional "base_babe_limit" (2 : UInt32),
    .optional "base_effect_limit" (2 : UInt32)]

instance : LawfulForm Rules where
  read?_respelled rules source json hjson := by
    obtain ⟨members, rfl, hfields, hfound⟩ :=
      hjson.exists_members (by decide) (List.Sublist.refl _) source
    have hcards :
        fieldOr? ⟨source, members⟩ "base_babe_limit" 2 = some rules.cards :=
      hfound.fieldOr?_eq rfl rfl
    have heffects :
        fieldOr? ⟨source, members⟩ "base_effect_limit" 2 = some rules.effects :=
      hfound.fieldOr?_eq rfl rfl
    refine Option.bind_eq_some_iff.mpr ⟨_, hfields, ?_⟩
    simp [hcards, heffects]

instance : Shaped TargetCount where
  shapeOf := .tagged [("many-babes",
    .record [.required "min" UInt64, .required "max" UInt64])]

instance : LawfulForm TargetCount where
  read?_respelled count source json hjson := by
    cases count with
    | none =>
        rw [hjson.eq_of_string]
        rfl
    | one =>
        rw [hjson.eq_of_string]
        rfl
    | between least most =>
        obtain ⟨members, rfl, hfields, hfound⟩ :=
          hjson.exists_caseMembers rfl (by decide) (List.Sublist.refl _) source
        have hleast : field? ⟨source, members⟩ "min" = some least :=
          hfound.field?_eq rfl rfl
        have hmost : field? ⟨source, members⟩ "max" = some most :=
          hfound.field?_eq rfl rfl
        refine Option.bind_eq_some_iff.mpr ⟨_, hfields, ?_⟩
        simp [hleast, hmost]

instance : Shaped TargetRule where
  shapeOf := .record [.optional "kind" TargetCount.none,
    .optional "of_type" (none : Option Suit), .optional "distinct_types" false,
    .optional "zone" Zone.play]

instance : LawfulForm TargetRule where
  read?_respelled rule source json hjson := by
    obtain ⟨members, rfl, hfields, hfound⟩ :=
      hjson.exists_members (by decide) (List.Sublist.refl _) source
    have hcount : fieldOr? ⟨source, members⟩ "kind" .none = some rule.count :=
      hfound.fieldOr?_eq rfl rfl
    have hsuit : fieldOr? ⟨source, members⟩ "of_type" none = some rule.suit :=
      hfound.fieldOr?_eq rfl rfl
    have hdistinct :
        fieldOr? ⟨source, members⟩ "distinct_types" false = some rule.distinct :=
      hfound.fieldOr?_eq rfl rfl
    have hzone : fieldOr? ⟨source, members⟩ "zone" .play = some rule.zone :=
      hfound.fieldOr?_eq rfl rfl
    refine Option.bind_eq_some_iff.mpr ⟨_, hfields, ?_⟩
    simp [hcount, hsuit, hdistinct, hzone]

instance : Shaped Requirement where
  shapeOf := .tagged
    [("only-babe-played", .record [.required "name" String]),
      ("discard-has-babe", .record [.required "name" String]),
      ("discard-has-type-at-least",
        .record [.required "babe_type" Suit, .required "count" UInt64]),
      ("played-history-has-prefix", .record [.required "prefix" String]),
      ("discard-has-base-score", .record [.required "score" Int64])]

instance : LawfulForm Requirement where
  read?_respelled requirement source json hjson := by
    cases requirement with
    | soleCard name =>
        obtain ⟨members, rfl, hfields, hname⟩ := exists_onlyField hjson rfl source
        refine Option.bind_eq_some_iff.mpr ⟨_, rfl, ?_⟩
        refine Option.bind_eq_some_iff.mpr ⟨_, hfields, ?_⟩
        simp [hname]
    | discardHolds name =>
        obtain ⟨members, rfl, hfields, hname⟩ := exists_onlyField hjson rfl source
        refine Option.bind_eq_some_iff.mpr ⟨_, rfl, ?_⟩
        refine Option.bind_eq_some_iff.mpr ⟨_, hfields, ?_⟩
        simp [hname]
    | discardCount suit least =>
        obtain ⟨members, rfl, hfields, hfound⟩ :=
          hjson.exists_caseMembers rfl (by decide) (List.Sublist.refl _) source
        have hsuit : field? ⟨source, members⟩ "babe_type" = some suit :=
          hfound.field?_eq rfl rfl
        have hleast : field? ⟨source, members⟩ "count" = some least :=
          hfound.field?_eq rfl rfl
        refine Option.bind_eq_some_iff.mpr ⟨_, rfl, ?_⟩
        refine Option.bind_eq_some_iff.mpr ⟨_, hfields, ?_⟩
        simp [hsuit, hleast]
    | historyStart start =>
        obtain ⟨members, rfl, hfields, hstart⟩ := exists_onlyField hjson rfl source
        refine Option.bind_eq_some_iff.mpr ⟨_, rfl, ?_⟩
        refine Option.bind_eq_some_iff.mpr ⟨_, hfields, ?_⟩
        simp [hstart]
    | discardBase score =>
        obtain ⟨members, rfl, hfields, hscore⟩ := exists_onlyField hjson rfl source
        refine Option.bind_eq_some_iff.mpr ⟨_, rfl, ?_⟩
        refine Option.bind_eq_some_iff.mpr ⟨_, hfields, ?_⟩
        simp [hscore]

instance : Shaped LimitRule where
  shapeOf := .tagged
    [("set-babe-limit-to", .record [.required "n" UInt32]),
      ("extra-plays", .record
        [.optional "babes" (0 : UInt32), .optional "effects" (0 : UInt32)]),
      ("cap-effect-limit-to", .record [.required "n" UInt32]),
      ("restrict-babe-type-to", .record [.required "babe_type" Suit]),
      ("extra-type-plays",
        .record [.required "babe_type" Suit, .required "n" UInt32])]

instance : LawfulForm LimitRule where
  read?_respelled rule source json hjson := by
    cases rule with
    | openEffects =>
        rw [hjson.eq_of_string]
        rfl
    | cardFloor least =>
        obtain ⟨members, rfl, hfields, hleast⟩ := exists_onlyField hjson rfl source
        refine Option.bind_eq_some_iff.mpr ⟨_, hfields, ?_⟩
        simp [hleast]
    | extraPlays cards effects =>
        obtain ⟨members, rfl, hfields, hfound⟩ :=
          hjson.exists_caseMembers rfl (by decide) (List.Sublist.refl _) source
        have hcards : fieldOr? ⟨source, members⟩ "babes" 0 = some cards :=
          hfound.fieldOr?_eq rfl rfl
        have heffects : fieldOr? ⟨source, members⟩ "effects" 0 = some effects :=
          hfound.fieldOr?_eq rfl rfl
        refine Option.bind_eq_some_iff.mpr ⟨_, hfields, ?_⟩
        simp [hcards, heffects]
    | effectCap most =>
        obtain ⟨members, rfl, hfields, hmost⟩ := exists_onlyField hjson rfl source
        refine Option.bind_eq_some_iff.mpr ⟨_, hfields, ?_⟩
        simp [hmost]
    | onlySuit suit =>
        obtain ⟨members, rfl, hfields, hsuit⟩ := exists_onlyField hjson rfl source
        refine Option.bind_eq_some_iff.mpr ⟨_, hfields, ?_⟩
        simp [hsuit]
    | takesSlot =>
        rw [hjson.eq_of_string]
        rfl
    | extraSuit suit slots =>
        obtain ⟨members, rfl, hfields, hfound⟩ :=
          hjson.exists_caseMembers rfl (by decide) (List.Sublist.refl _) source
        have hsuit : field? ⟨source, members⟩ "babe_type" = some suit :=
          hfound.field?_eq rfl rfl
        have hslots : field? ⟨source, members⟩ "n" = some slots :=
          hfound.field?_eq rfl rfl
        refine Option.bind_eq_some_iff.mpr ⟨_, hfields, ?_⟩
        simp [hsuit, hslots]

instance : Shaped Reversal where
  shapeOf := .record [.optional "restore_moves" true,
    .optional "refund_strokes" true]

instance : LawfulForm Reversal where
  read?_respelled reversal source json hjson := by
    obtain ⟨members, rfl, hfields, hfound⟩ :=
      hjson.exists_members (by decide) (List.Sublist.refl _) source
    have hrestores : fieldOr? ⟨source, members⟩ "restore_moves" true =
        some reversal.restores := hfound.fieldOr?_eq rfl rfl
    have hrefunds : fieldOr? ⟨source, members⟩ "refund_strokes" true =
        some reversal.refunds := hfound.fieldOr?_eq rfl rfl
    refine Option.bind_eq_some_iff.mpr ⟨_, hfields, ?_⟩
    simp [hrestores, hrefunds]

instance : Shaped Relocation where
  shapeOf := .record [.required "to" Zone]

instance : LawfulForm Relocation where
  read?_respelled relocation source json hjson := by
    obtain ⟨members, rfl, hfields, hfound⟩ :=
      hjson.exists_members (by decide) (List.Sublist.refl _) source
    have hdest : field? ⟨source, members⟩ "to" = some relocation.dest :=
      hfound.field?_eq rfl rfl
    refine Option.bind_eq_some_iff.mpr ⟨_, hfields, ?_⟩
    simp [hdest]

instance : Shaped Choice where
  shapeOf := .record [.optional "targets" ([] : List CardId),
    .optional "resolved_type" (none : Option Suit)]

instance : LawfulForm Choice where
  read?_respelled choice source json hjson := by
    obtain ⟨members, rfl, hfields, hfound⟩ :=
      hjson.exists_members (by decide) (List.Sublist.refl _) source
    have htargets :
        fieldOr? ⟨source, members⟩ "targets" [] = some choice.targets :=
      hfound.fieldOr?_eq rfl rfl
    have hsuit :
        fieldOr? ⟨source, members⟩ "resolved_type" none = some choice.suit :=
      hfound.fieldOr?_eq rfl rfl
    refine Option.bind_eq_some_iff.mpr ⟨_, hfields, ?_⟩
    simp [htargets, hsuit]

instance : Shaped Move where
  shapeOf := .record [.required "card" CardId, .required "from" Zone,
    .required "to" Zone, .optional "play_id" (none : Option PlayId)]

instance : LawfulForm Move where
  read?_respelled move source json hjson := by
    obtain ⟨members, rfl, hfields, hfound⟩ :=
      hjson.exists_members (by decide) (List.Sublist.refl _) source
    have hcard : field? ⟨source, members⟩ "card" = some move.card :=
      hfound.field?_eq rfl rfl
    have hsource : field? ⟨source, members⟩ "from" = some move.source :=
      hfound.field?_eq rfl rfl
    have hdest : field? ⟨source, members⟩ "to" = some move.dest :=
      hfound.field?_eq rfl rfl
    have hplay : fieldOr? ⟨source, members⟩ "play_id" none = some move.play :=
      hfound.fieldOr?_eq rfl rfl
    refine Option.bind_eq_some_iff.mpr ⟨_, hfields, ?_⟩
    simp [hcard, hsource, hdest, hplay]

instance : Shaped Limits where
  shapeOf := .record [.required "babes" UInt32, .required "effects" UInt32,
    .required "ignore_effect_limit" Bool, .required "ignore_babe_limit" Bool,
    .optional "restrict_babe_type_to" (none : Option Suit),
    .optional "extra_babes_by_type" (.empty : FinMap Suit UInt32)]

namespace Limits

/-- The members that are left out where there is nothing to write. -/
def optionalMembers (limits : Limits) : List (JsonKey × Json) :=
  let only : List (JsonKey × Json) := limits.onlySuit.elim []
    (fun suit => [("restrict_babe_type_to", write suit)])
  let slots : List (JsonKey × Json) := if limits.suitSlots.isEmpty then []
    else [("extra_babes_by_type", write limits.suitSlots)]
  only ++ slots

theorem optionalMembers_sublist (limits : Limits) :
    (limits.optionalMembers.map fun member => member.1.text).Sublist
      ["restrict_babe_type_to", "extra_babes_by_type"] := by
  unfold optionalMembers
  cases limits.onlySuit <;> cases limits.suitSlots.isEmpty <;> simp

theorem memberAt?_onlySuit (limits : Limits) :
    memberAt? limits.optionalMembers "restrict_babe_type_to" =
      limits.onlySuit.map write := by
  unfold optionalMembers
  cases limits.onlySuit <;> cases limits.suitSlots.isEmpty <;> rfl

theorem memberAt?_suitSlots (limits : Limits) :
    memberAt? limits.optionalMembers "extra_babes_by_type" =
      if limits.suitSlots.isEmpty then none else some (write limits.suitSlots) := by
  unfold optionalMembers
  cases limits.onlySuit <;> cases limits.suitSlots.isEmpty <;> rfl

end Limits

instance : LawfulForm Limits where
  read?_respelled limits source json hjson := by
    obtain ⟨members, rfl, hfields, hfound⟩ :=
      hjson.exists_members (by decide)
        ((((limits.optionalMembers_sublist.cons_cons _).cons_cons _).cons_cons
          _).cons_cons _) source
    have hcards : field? ⟨source, members⟩ "babes" = some limits.cards :=
      hfound.field?_eq rfl rfl
    have heffects : field? ⟨source, members⟩ "effects" = some limits.effects :=
      hfound.field?_eq rfl rfl
    have hopenEffects : field? ⟨source, members⟩ "ignore_effect_limit" =
        some limits.openEffects := hfound.field?_eq rfl rfl
    have hopenCards : field? ⟨source, members⟩ "ignore_babe_limit" =
        some limits.openCards := hfound.field?_eq rfl rfl
    have honlySuit : fieldOr? ⟨source, members⟩ "restrict_babe_type_to" none =
        some limits.onlySuit := by
      have hgiven := limits.memberAt?_onlySuit
      cases honly : limits.onlySuit with
      | none =>
          rw [honly] at hgiven
          exact hfound.fieldOr?_eq_default rfl hgiven
      | some suit =>
          rw [honly] at hgiven
          exact hfound.fieldOr?_eq rfl hgiven
    have hsuitSlots : fieldOr? ⟨source, members⟩ "extra_babes_by_type" .empty =
        some limits.suitSlots := by
      have hgiven := limits.memberAt?_suitSlots
      by_cases hempty : limits.suitSlots.isEmpty = true
      · rw [if_pos hempty] at hgiven
        rw [FinMap.isEmpty_iff.mp hempty]
        exact hfound.fieldOr?_eq_default rfl hgiven
      · rw [if_neg hempty] at hgiven
        exact hfound.fieldOr?_eq rfl hgiven
    refine Option.bind_eq_some_iff.mpr ⟨_, hfields, ?_⟩
    simp [hcards, heffects, hopenEffects, hopenCards, honlySuit, hsuitSlots]

end Records

/-- What is written for a value is read as the value again, and so is everything that
says the same in other words. -/
def Faithful (α : Type) [Form α] [Shaped α] : Prop :=
  ∀ (value : α) (source : Source), read? source (write value) = some value ∧
    ∀ json, Respelled (shapeOf α) (write value) json →
      read? source json = some value

theorem faithful (α : Type) [Form α] [Shaped α] [LawfulForm α] : Faithful α :=
  fun value source =>
    ⟨read?_write value source, fun _ => read?_respelled value source⟩

/-- Every form without amounts is faithful. -/
theorem forms_faithful :
    Faithful Card ∧ Faithful InPlay ∧ Faithful Rules ∧ Faithful TargetRule ∧
      Faithful Requirement ∧ Faithful LimitRule ∧ Faithful Reversal ∧
      Faithful Relocation ∧ Faithful Choice ∧ Faithful Move ∧ Faithful Limits :=
  ⟨faithful Card, faithful InPlay, faithful Rules, faithful TargetRule,
    faithful Requirement, faithful LimitRule, faithful Reversal,
    faithful Relocation, faithful Choice, faithful Move, faithful Limits⟩

/-- An unknown field in a record and in the record inside it, where `slot_free` is left
out; a case without the first of its fields; and an object without any field. -/
theorem forms_faithful_respelled :
    read? .document (.record [("play_id", .ofNat 4),
        ("card", .record [("id", .ofNat 1), ("art", .null),
          ("name", .string "Roxy"), ("type", .string "BADDIE"),
          ("base_score", .ofInt 8)]),
        ("note", .bool true)]) =
      some (⟨⟨4⟩, ⟨⟨1⟩, "Roxy", .baddie, 8⟩, false⟩ : InPlay) ∧
    read? .request (writeCase "extra-plays" [("effects", .ofNat 1)]) =
      some (LimitRule.extraPlays 0 1) ∧
    read? .document (.record []) = some ({} : Rules) := by
  obtain ⟨-, hseat, hrules, -, -, hrule, -⟩ := forms_faithful
  refine ⟨(hseat _ _).2 _ ?_, (hrule _ _).2 _ ?_, (hrules _ _).2 _ ?_⟩
  · have hcard : Respelled (shapeOf Card)
        (write (⟨⟨1⟩, "Roxy", .baddie, 8⟩ : Card))
        (.record [("id", .ofNat 1), ("art", .null), ("name", .string "Roxy"),
          ("type", .string "BADDIE"), ("base_score", .ofInt 8)]) :=
      .record (.keep rfl .same (.add rfl (.keep rfl .same (.keep rfl .same
        (.keep rfl .same .done)))))
    exact .record (.keep rfl .same (.keep rfl hcard (.add rfl (.leave rfl rfl .done))))
  · exact .tagged rfl (.record (.leave rfl rfl (.keep rfl .same .done)))
  · exact .record (.leave rfl rfl (.leave rfl rfl .done))

end Tableau
