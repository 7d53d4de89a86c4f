import Mathlib.Data.List.Nodup
import Mathlib.Data.List.Perm.Basic
import Tableau.Catalog

/-!
What a catalog holds after registrations in any order, of cards and of scripts,
accepted and refused ones.  An identity stays with the first entry that was
registered under it, and the lists that a catalog is filled from are refused at the
first identity that comes a second time.  Main statement: `ofLists_registerAll`.
-/

namespace Tableau

/-- The first element of a list that has stood in it before. -/
def FirstRepeat {α : Type} (all : List α) (again : α) : Prop :=
  ∃ before after, all = before ++ again :: after ∧ before.Nodup ∧ again ∈ before

namespace FirstRepeat

variable {α : Type} {all : List α} {again other : α}

theorem not_nodup (hrepeat : FirstRepeat all again) : ¬ all.Nodup := by
  obtain ⟨before, after, rfl, -, hmem⟩ := hrepeat
  intro hnodup
  exact List.disjoint_of_nodup_append hnodup hmem List.mem_cons_self

/-- If the part before one repeat goes on to another one without repeats, then the
two are the same. -/
theorem eq_of_nodup_append {before between after later : List α}
    (hmem : again ∈ before) (hnodup : (before ++ between).Nodup)
    (hrest : again :: after = between ++ other :: later) : again = other := by
  cases between with
  | nil => exact (List.cons.inj hrest).1
  | cons first rest =>
      obtain rfl := (List.cons.inj hrest).1
      exact absurd List.mem_cons_self
        (List.disjoint_of_nodup_append hnodup hmem)

theorem unique (hrepeat : FirstRepeat all again)
    (hother : FirstRepeat all other) : again = other := by
  obtain ⟨before, after, rfl, hbefore, hmem⟩ := hrepeat
  obtain ⟨earlier, later, heq, hearlier, hmem'⟩ := hother
  rcases List.append_eq_append_iff.mp heq with
    ⟨between, rfl, hrest⟩ | ⟨between, rfl, hrest⟩
  · exact eq_of_nodup_append hmem hearlier hrest
  · exact (eq_of_nodup_append hmem' hbefore hrest).symm

end FirstRepeat

/-- The map has, under every key, the first of the offered values with that key; its
values are the kept ones. -/
structure Shelved {κ α : Type} [Rank κ] [DecidableEq κ] (key : α → κ)
    (offered kept : List α) (map : FinMap κ α) : Prop where
  get?_eq : ∀ id, map.get? id = offered.find? fun value => key value == id
  values_perm : map.values.Perm kept

namespace Shelved

variable {κ α : Type} [Rank κ] [DecidableEq κ] {key : α → κ}
  {offered kept : List α} {map : FinMap κ α} {value : α} {id : κ}

theorem empty (key : α → κ) : Shelved key [] [] (.empty : FinMap κ α) :=
  ⟨fun _ => rfl, .refl _⟩

theorem get?_eq_none_iff (hshelved : Shelved key offered kept map) :
    map.get? id = none ↔ id ∉ offered.map key := by
  rw [hshelved.get?_eq, List.find?_eq_none]
  simp

theorem exists_get?_eq_some (hshelved : Shelved key offered kept map)
    (htaken : id ∈ offered.map key) : ∃ first, map.get? id = some first :=
  Option.ne_none_iff_exists'.mp
    (mt hshelved.get?_eq_none_iff.mp (not_not_intro htaken))

/-- A value that is not taken in changes nothing, for another one came first. -/
theorem pass (hshelved : Shelved key offered kept map)
    (htaken : key value ∈ offered.map key) :
    Shelved key (offered ++ [value]) kept map := by
  refine ⟨fun id => ?_, hshelved.values_perm⟩
  rw [List.find?_append, ← hshelved.get?_eq]
  by_cases hkey : key value = id
  · obtain ⟨first, hfirst⟩ := hshelved.exists_get?_eq_some (hkey ▸ htaken)
    rw [hfirst, Option.some_or]
  · simp [hkey]

/-- A value under a free key is the first one with that key. -/
theorem insert (hshelved : Shelved key offered kept map)
    (hfree : key value ∉ offered.map key) :
    Shelved key (offered ++ [value]) (kept ++ [value])
      (map.insert (key value) value) := by
  have hnone := hshelved.get?_eq_none_iff.mpr hfree
  refine ⟨fun id => ?_, ?_⟩
  · rw [FinMap.get?_insert_key, List.find?_append, ← hshelved.get?_eq]
    by_cases hkey : id = key value
    · simp [hkey, hnone]
    · simp [hkey, Ne.symm hkey]
  · have hfirst := (FinMap.values_insert_perm hnone).trans
      (hshelved.values_perm.cons value)
    exact hfirst.trans (List.perm_append_singleton value kept).symm

theorem key_of_mem_entries (hshelved : Shelved key offered kept map)
    (hentry : (id, value) ∈ map.entries) : key value = id := by
  have hget := FinMap.get?_eq_some_iff.mpr hentry
  rw [hshelved.get?_eq] at hget
  simpa using List.find?_some hget

/-- A lookup finds the kept values, each under its own key. -/
theorem get?_eq_some_iff (hshelved : Shelved key offered kept map) :
    map.get? id = some value ↔ value ∈ kept ∧ key value = id := by
  rw [FinMap.get?_eq_some_iff, ← hshelved.values_perm.mem_iff, FinMap.values,
    List.mem_map]
  constructor
  · intro hentry
    exact ⟨⟨_, hentry, rfl⟩, hshelved.key_of_mem_entries hentry⟩
  · rintro ⟨⟨⟨stored, _⟩, hentry, rfl⟩, rfl⟩
    rwa [hshelved.key_of_mem_entries hentry]

theorem nodup_map_key (hshelved : Shelved key offered kept map) :
    (kept.map key).Nodup := by
  have hkeys : map.values.map key = map.keys := by
    rw [FinMap.values, FinMap.keys, List.map_map]
    exact List.map_congr_left fun entry hentry =>
      hshelved.key_of_mem_entries hentry
  refine (hshelved.values_perm.map key).nodup_iff.mp ?_
  rw [hkeys]
  exact map.nodup_keys

theorem size_eq (hshelved : Shelved key offered kept map) :
    map.size = kept.length := by
  rw [← hshelved.values_perm.length_eq, FinMap.values, List.length_map,
    FinMap.size]

end Shelved

/-- The cards of each suit, taken together, are all the cards. -/
theorem flatMap_filter_suit_perm (cards : List Card) :
    (Suit.all.flatMap fun suit =>
      cards.filter fun card => card.suit == suit).Perm cards := by
  rw [List.perm_iff_count]
  intro card
  have hcount (suit : Suit) :
      (cards.filter fun other => other.suit == suit).count card =
        if card.suit = suit then cards.count card else 0 := by
    split
    · rename_i hsuit
      exact List.count_filter (by simpa using hsuit)
    · rename_i hsuit
      exact List.count_eq_zero.mpr fun hmem =>
        hsuit (by simpa using (List.mem_filter.mp hmem).2)
  simp only [Suit.all, List.flatMap_cons, List.flatMap_nil, List.count_append,
    List.count_nil, hcount]
  cases card.suit <;> simp

namespace Catalog

namespace Entry

/-- The clash that it would be to register the entry again. -/
def clash : Entry → Clash
  | .card offered => .card offered.id
  | .script offered => .effect offered.id

def card? : Entry → Option Card
  | .card offered => some offered
  | .script _ => none

def script? : Entry → Option Script
  | .card _ => none
  | .script offered => some offered

variable {entries : List Entry}

theorem mem_map_clash_card_iff {id : CardId} :
    .card id ∈ entries.map clash ↔ id ∈ (entries.filterMap card?).map Card.id := by
  induction entries with
  | nil => simp
  | cons entry rest ih => cases entry <;> simp_all [clash, card?]

theorem mem_map_clash_effect_iff {id : EffectId} :
    .effect id ∈ entries.map clash ↔
      id ∈ (entries.filterMap script?).map Script.id := by
  induction entries with
  | nil => simp
  | cons entry rest ih => cases entry <;> simp_all [clash, script?]

theorem length_eq_add (entries : List Entry) : entries.length =
    (entries.filterMap card?).length + (entries.filterMap script?).length := by
  induction entries with
  | nil => rfl
  | cons entry rest ih =>
      cases entry <;> simp [List.filterMap_cons, card?, script?, ih] <;> omega

end Entry

/-- The entries of two lists, in the order in which a catalog is filled. -/
def listed (cards : List Card) (scripts : List Script) : List Entry :=
  cards.map .card ++ scripts.map .script

/-- The entries of some registrations that were accepted. -/
def accepted (entries : List Entry) (answers : List (Except Clash Unit)) :
    List Entry :=
  ((entries.zip answers).filter fun call => call.2.isOk).map Prod.fst

section accepted

variable {entries : List Entry} {answers : List (Except Clash Unit)}
  {entry : Entry} {clash : Clash}

@[simp] theorem accepted_nil : accepted [] answers = [] := rfl

@[simp] theorem accepted_cons_ok :
    accepted (entry :: entries) (.ok () :: answers) =
      entry :: accepted entries answers := rfl

@[simp] theorem accepted_cons_error :
    accepted (entry :: entries) (.error clash :: answers) =
      accepted entries answers := rfl

end accepted

/-- The catalog after some entries were offered to it and some of them kept. -/
structure Holds (offered kept : List Entry) (catalog : Catalog) : Prop where
  cards : Shelved Card.id (offered.filterMap Entry.card?)
    (kept.filterMap Entry.card?) catalog.cards
  scripts : Shelved Script.id (offered.filterMap Entry.script?)
    (kept.filterMap Entry.script?) catalog.scripts

variable {catalog final : Catalog} {offered kept entries : List Entry}

theorem Holds.empty : Holds [] [] {} :=
  ⟨Shelved.empty _, Shelved.empty _⟩

theorem Holds.refuse (hholds : Holds offered kept catalog) {entry : Entry}
    (htaken : entry.clash ∈ offered.map Entry.clash) :
    catalog.register entry = (.error entry.clash, catalog) ∧
      Holds (offered ++ [entry]) kept catalog := by
  obtain ⟨hcards, hscripts⟩ := hholds
  cases entry with
  | card card =>
      have hid := Entry.mem_map_clash_card_iff.mp htaken
      obtain ⟨first, hfirst⟩ := hcards.exists_get?_eq_some hid
      refine ⟨by simp [register, addCard, card?, hfirst, Entry.clash], ?_, ?_⟩
      · simpa [Entry.card?] using hcards.pass hid
      · simpa [List.filterMap_cons, Entry.script?] using hscripts
  | script script =>
      have hid := Entry.mem_map_clash_effect_iff.mp htaken
      obtain ⟨first, hfirst⟩ := hscripts.exists_get?_eq_some hid
      refine ⟨by simp [register, addScript, script?, hfirst, Entry.clash], ?_, ?_⟩
      · simpa [List.filterMap_cons, Entry.card?] using hcards
      · simpa [Entry.script?] using hscripts.pass hid

theorem Holds.accept (hholds : Holds offered kept catalog) {entry : Entry}
    (hfree : entry.clash ∉ offered.map Entry.clash) :
    ∃ grown, catalog.register entry = (.ok (), grown) ∧
      Holds (offered ++ [entry]) (kept ++ [entry]) grown := by
  obtain ⟨hcards, hscripts⟩ := hholds
  cases entry with
  | card card =>
      have hid := mt Entry.mem_map_clash_card_iff.mpr hfree
      have hnone := hcards.get?_eq_none_iff.mpr hid
      refine ⟨{ catalog with cards := catalog.cards.insert card.id card },
        by simp only [register, addCard, card?, hnone], ?_, ?_⟩
      · simpa [Entry.card?] using hcards.insert hid
      · simpa [List.filterMap_cons, Entry.script?] using hscripts
  | script script =>
      have hid := mt Entry.mem_map_clash_effect_iff.mpr hfree
      have hnone := hscripts.get?_eq_none_iff.mpr hid
      refine
        ⟨{ catalog with scripts := catalog.scripts.insert script.id script },
          by simp only [register, addScript, script?, hnone], ?_, ?_⟩
      · simpa [List.filterMap_cons, Entry.card?] using hcards
      · simpa [Entry.script?] using hscripts.insert hid

/-- Registrations go on after a refusal, and what was accepted is kept. -/
theorem Holds.registerAll {answers : List (Except Clash Unit)}
    (hholds : Holds offered kept catalog)
    (hrun : catalog.registerAll entries = (answers, final)) :
    Holds (offered ++ entries) (kept ++ accepted entries answers) final := by
  -- What was offered grows at its end along the run, so the induction is for any
  -- catalog with whatever was offered to it.
  induction entries generalizing catalog offered kept answers with
  | nil =>
      cases hrun
      simpa using hholds
  | cons entry rest ih =>
      by_cases htaken : entry.clash ∈ offered.map Entry.clash
      · obtain ⟨hregister, hnext⟩ := hholds.refuse htaken
        rw [Catalog.registerAll, hregister] at hrun
        cases hrun
        rw [accepted_cons_error, List.append_cons]
        exact ih hnext rfl
      · obtain ⟨grown, hregister, hnext⟩ := hholds.accept htaken
        rw [Catalog.registerAll, hregister] at hrun
        cases hrun
        rw [accepted_cons_ok, List.append_cons, List.append_cons kept]
        exact ih hnext rfl

/-- Register entries up to the first clash. -/
def fill (catalog : Catalog) (entries : List Entry) : Except Clash Catalog :=
  entries.foldlM (fun current entry => insist (current.register entry)) catalog

theorem ofLists_eq_fill (cards : List Card) (scripts : List Script) :
    ofLists cards scripts = fill {} (listed cards scripts) := by
  rw [fill, listed, List.foldlM_append]
  simp only [List.foldlM_map]
  rfl

/-- As long as nothing was refused, a catalog is filled to the end or to the first
repeat. -/
theorem Holds.fill (hholds : Holds offered offered catalog)
    (hnodup : (offered.map Entry.clash).Nodup) (entries : List Entry) :
    (∃ final, catalog.fill entries = .ok final ∧
      Holds (offered ++ entries) (offered ++ entries) final ∧
      ((offered ++ entries).map Entry.clash).Nodup) ∨
    ∃ clash, catalog.fill entries = .error clash ∧
      FirstRepeat ((offered ++ entries).map Entry.clash) clash := by
  induction entries generalizing catalog offered with
  | nil => exact .inl ⟨catalog, rfl, by simpa using hholds, by simpa using hnodup⟩
  | cons entry rest ih =>
      rw [Catalog.fill, List.foldlM_cons]
      by_cases htaken : entry.clash ∈ offered.map Entry.clash
      · rw [(hholds.refuse htaken).1]
        exact .inr ⟨_, rfl, _, rest.map Entry.clash, by simp, hnodup, htaken⟩
      · obtain ⟨grown, hregister, hnext⟩ := hholds.accept htaken
        have hnodup' : ((offered ++ [entry]).map Entry.clash).Nodup := by
          rw [List.map_append, List.map_singleton, ← List.concat_eq_append]
          exact hnodup.concat htaken
        rw [hregister, List.append_cons]
        exact ih hnext hnodup'

/-- What a catalog tells of the entries that were offered to it, and of those
that it kept: one more is refused exactly if its identity was offered before,
and then nothing changes; the cards that were kept are each listed once, under
their own suit. -/
structure Registers (offered kept : List Entry) (catalog : Catalog) : Prop where
  refused_iff : ∀ entry clash after,
    catalog.register entry = (.error clash, after) ↔
      entry.clash ∈ offered.map Entry.clash ∧ clash = entry.clash ∧
        after = catalog
  card?_eq : ∀ id, catalog.card? id =
    (offered.filterMap Entry.card?).find? fun card => card.id == id
  script?_eq : ∀ id, catalog.script? id =
    (offered.filterMap Entry.script?).find? fun script => script.id == id
  card?_eq_some_iff : ∀ id card, catalog.card? id = some card ↔
    card ∈ kept.filterMap Entry.card? ∧ card.id = id
  script?_eq_some_iff : ∀ id script, catalog.script? id = some script ↔
    script ∈ kept.filterMap Entry.script? ∧ script.id = id
  size_eq : catalog.size = kept.length
  nodup_ids : ((kept.filterMap Entry.card?).map Card.id).Nodup
  suits_perm : (Suit.all.flatMap catalog.cardsOf).Perm
    (kept.filterMap Entry.card?)
  mem_cardsOf_iff : ∀ suit card, card ∈ catalog.cardsOf suit ↔
    card ∈ kept.filterMap Entry.card? ∧ card.suit = suit

theorem Holds.refused_iff (hholds : Holds offered kept catalog) {entry : Entry}
    {clash : Clash} {after : Catalog} :
    catalog.register entry = (.error clash, after) ↔
      entry.clash ∈ offered.map Entry.clash ∧ clash = entry.clash ∧
        after = catalog := by
  by_cases htaken : entry.clash ∈ offered.map Entry.clash
  · rw [(hholds.refuse htaken).1]
    simp [htaken, eq_comm]
  · obtain ⟨grown, hregister, -⟩ := hholds.accept htaken
    rw [hregister]
    simp [htaken]

theorem Holds.registers (hholds : Holds offered kept catalog) :
    Registers offered kept catalog where
  refused_iff _ _ _ := hholds.refused_iff
  card?_eq := hholds.cards.get?_eq
  script?_eq := hholds.scripts.get?_eq
  card?_eq_some_iff _ _ := hholds.cards.get?_eq_some_iff
  script?_eq_some_iff _ _ := hholds.scripts.get?_eq_some_iff
  size_eq := by
    rw [size, hholds.cards.size_eq, hholds.scripts.size_eq, Entry.length_eq_add]
  nodup_ids := hholds.cards.nodup_map_key
  suits_perm := (flatMap_filter_suit_perm _).trans hholds.cards.values_perm
  mem_cardsOf_iff suit card := by
    rw [cardsOf, List.mem_filter, hholds.cards.values_perm.mem_iff, beq_iff_eq]

/-- The identities in two lists are all different, cards and scripts apart. -/
theorem nodup_clash_listed_iff {cards : List Card} {scripts : List Script} :
    ((listed cards scripts).map Entry.clash).Nodup ↔
      (cards.map Card.id).Nodup ∧ (scripts.map Script.id).Nodup := by
  have hcards : (cards.map Entry.card).map Entry.clash =
      (cards.map Card.id).map Clash.card := by
    simp [Entry.clash, Function.comp_def]
  have hscripts : (scripts.map Entry.script).map Entry.clash =
      (scripts.map Script.id).map Clash.effect := by
    simp [Entry.clash, Function.comp_def]
  rw [listed, List.map_append, hcards, hscripts, List.nodup_append,
    List.nodup_map_iff fun _ _ => Clash.card.inj,
    List.nodup_map_iff fun _ _ => Clash.effect.inj]
  simp

/-- A catalog is filled from lists exactly if no identity comes twice in them, and is
otherwise refused at the first one that does, cards before scripts.  Whatever is
offered to it later, it keeps what it accepted, the first entry under each identity. -/
theorem ofLists_registerAll (cards : List Card) (scripts : List Script) :
    ((∃ start, ofLists cards scripts = .ok start) ↔
      (cards.map Card.id).Nodup ∧ (scripts.map Script.id).Nodup) ∧
    (∀ clash, ofLists cards scripts = .error clash ↔
      FirstRepeat (cards.map (fun card => .card card.id) ++
        scripts.map fun script => .effect script.id) clash) ∧
    ∀ start entries answers final, ofLists cards scripts = .ok start →
      start.registerAll entries = (answers, final) →
      Registers (listed cards scripts ++ entries)
        (listed cards scripts ++ accepted entries answers) final := by
  have hclashes : (listed cards scripts).map Entry.clash =
      cards.map (fun card => .card card.id) ++
        scripts.map fun script => .effect script.id := by
    simp [listed, Entry.clash, Function.comp_def]
  rw [← nodup_clash_listed_iff, ← hclashes, ofLists_eq_fill]
  rcases Holds.empty.fill .nil (listed cards scripts) with
    ⟨filled, hfill, hholds, hnodup⟩ | ⟨first, hfill, hrepeat⟩
  · rw [hfill]
    refine ⟨by simpa using hnodup, fun clash => ?_, ?_⟩
    · simpa using fun hrepeat : FirstRepeat _ clash => hrepeat.not_nodup hnodup
    · rintro start entries answers final ⟨⟩ hrun
      exact (hholds.registerAll hrun).registers
  · rw [hfill]
    refine ⟨by simpa using hrepeat.not_nodup, fun clash => ?_, ?_⟩
    · constructor
      · rintro ⟨⟩
        exact hrepeat
      · exact fun hother => congrArg Except.error (hrepeat.unique hother)
    · rintro start entries answers final ⟨⟩

def roxy : Card := ⟨⟨1⟩, "Roxy", .baddie, 8⟩

def mia : Card := ⟨⟨2⟩, "Mia", .busty, 6⟩

def jade : Card := ⟨⟨3⟩, "Jade", .baddie, 7⟩

def reprints : List Card := [{ mia with base := 9 }, { roxy with suit := .goth }]

def spotlight : Script := { id := ⟨1⟩, name := "Spotlight" }

/-- The reprints, a new card, an effect with the number of a card, and an effect with
the number of another effect. -/
def lateEntries : List Entry :=
  reprints.map .card ++ [.card jade, .script { id := ⟨2⟩, name := "Encore" },
    .script { id := ⟨1⟩, name := "Limelight" }]

/-- The reprints are refused, and the first of them is what a catalog with all four
cards founders on. -/
theorem ofLists_registerAll_reprints :
    ofLists ([roxy, mia] ++ reprints) [spotlight] = .error (.card ⟨2⟩) ∧
    ∃ start answers final, ofLists [roxy, mia] [spotlight] = .ok start ∧
      start.registerAll lateEntries = (answers, final) ∧
      answers = [.error (.card ⟨2⟩), .error (.card ⟨1⟩), .ok (), .ok (),
        .error (.effect ⟨1⟩)] ∧
      final.card? ⟨2⟩ = some mia ∧ final.script? ⟨1⟩ = some spotlight ∧
      final.card? ⟨4⟩ = none ∧ final.size = 5 ∧
      (Suit.all.flatMap final.cardsOf).Perm [roxy, mia, jade] := by
  constructor
  · obtain ⟨-, herror, -⟩ :=
      ofLists_registerAll ([roxy, mia] ++ reprints) [spotlight]
    exact (herror _).mpr ⟨[.card ⟨1⟩, .card ⟨2⟩],
      [.card ⟨1⟩, .effect ⟨1⟩], rfl, by decide, by decide⟩
  · obtain ⟨hfilled, -, hregisters⟩ := ofLists_registerAll [roxy, mia] [spotlight]
    obtain ⟨start, hstart⟩ := hfilled.mpr ⟨by decide, by decide⟩
    obtain ⟨answers, final, hrun, hanswers⟩ : ∃ answers final,
        start.registerAll lateEntries = (answers, final) ∧
        answers = [.error (.card ⟨2⟩), .error (.card ⟨1⟩), .ok (), .ok (),
          .error (.effect ⟨1⟩)] := by
      cases hstart
      exact ⟨_, _, rfl, rfl⟩
    have hfinal := hregisters start lateEntries answers final hstart hrun
    subst hanswers
    exact ⟨start, _, final, hstart, hrun, rfl, hfinal.card?_eq _,
      hfinal.script?_eq _, hfinal.card?_eq _, hfinal.size_eq, hfinal.suits_perm⟩

end Catalog

end Tableau
