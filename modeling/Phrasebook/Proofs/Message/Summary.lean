import Phrasebook.Proofs.Message.Gather
import Phrasebook.Proofs.Template.Positions

/-! # The catalog in one expression

Gathering takes one record at a time and changes one entry for it. What comes out can be said without the
order of these changes: each field of an entry is computed from the records with its displayed path, by its own
rule. The first record gives the place, all of them give the placeholders and the mark of an array, and the last
one of each locale gives its value.

Entries can be found without a search when a table of their positions is kept beside them. The table is changed
only where a path comes first, and looking up through it finds what searching finds.
-/

namespace Phrasebook.Keyed

variable {α : Type}

theorem keys_alter_eq_addNames (pairs : Keyed α) (key : String) (f : Option α → α) :
    (pairs.alter key f).keys = Template.addNames pairs.keys [key] := by
  rw [keys_alter, Template.addNames, List.foldl_cons, List.foldl_nil]
  refine if_congr ?_ rfl rfl
  rw [has_iff, List.contains_iff_mem]

theorem filterMap_get?_keys {pairs : Keyed α} (hkeys : pairs.keys.Nodup) :
    (pairs.keys.filterMap fun key => (pairs.get? key).map fun value => (key, value)) = pairs := by
  have hfound : ∀ pair ∈ pairs, (pairs.get? pair.1).map (fun value => (pair.1, value)) = some pair := by
    intro pair hpair
    rw [(get?_eq_some_iff hkeys _ _).mpr hpair, Option.map_some]
  rw [keys, List.filterMap_map]
  exact (List.filterMap_congr hfound).trans List.filterMap_some

theorem alter_eq_modify {pairs : Keyed α} {key : String} {position : Nat} (h : pairs.keys[position]? = some key)
    (hsingle : ∀ other, pairs.keys[other]? = some key → other = position) (f : Option α → α) :
    pairs.alter key f = pairs.modify position fun pair => (pair.1, f (some pair.2)) := by
  induction pairs generalizing position with
  | nil => cases h
  | cons pair rest ih =>
    obtain ⟨first, here⟩ := pair
    cases position with
    | zero =>
      cases h
      exact if_pos rfl
    | succ position =>
      have hne : first ≠ key := by
        rintro rfl
        cases hsingle 0 rfl
      rw [alter, if_neg hne, List.modify_succ_cons, ih h]
      intro other hother
      exact Nat.succ.inj (hsingle (other + 1) hother)

theorem keys_modify (pairs : Keyed α) (position : Nat) (f : α → α) :
    Keyed.keys (pairs.modify position fun pair => (pair.1, f pair.2)) = pairs.keys := by
  induction pairs generalizing position with
  | nil => rw [List.modify_nil]
  | cons pair rest ih =>
    cases position with
    | zero => rfl
    | succ position => rw [List.modify_succ_cons, keys_cons, ih, keys_cons]

end Phrasebook.Keyed

namespace Phrasebook.Message

def lastValue? (cs : List (String × Record)) (locale : String) : Option Json :=
  (cs.filter fun c => c.1 = locale).getLast?.map fun c => c.2.value

/-- What records with one displayed path say together. -/
def Entry.summary? (cs : List (String × Record)) : Option Entry :=
  cs.head?.map fun first =>
    { path := first.2.path
      params := (cs.flatMap fun c => c.2.params).eraseDups
      isArrayRoot := cs.any fun c => c.2.isArrayRoot
      item := first.2.item
      values := (cs.map (·.1)).eraseDups.filterMap fun locale =>
        (lastValue? cs locale).map fun value => (locale, value) }

/-- What the records of all locales say together: an entry for each displayed path, in the order in which the
paths come first. -/
def Catalog.summary (records : List (String × List Record)) : Catalog :=
  { locales := (records.map (·.1)).eraseDups
    entries := ((contributions records).map fun c => c.2.key).eraseDups.filterMap fun key =>
      (Entry.summary? ((contributions records).filter fun c => c.2.key = key)).map fun entry => (key, entry) }

/-! ## The fields of an entry -/

theorem foldl_addNames_params (cs : List (String × Record)) (names : List String) :
    cs.foldl (fun names c => Template.addNames names c.2.params) names =
      Template.addNames names (cs.flatMap fun c => c.2.params) := by
  induction cs generalizing names with
  | nil => rfl
  | cons c cs ih => rw [List.foldl_cons, ih, List.flatMap_cons, Template.addNames_append]

/-- The locales of an entry, each where it contributes first. -/
theorem keys_foldl_put_eq_addNames (cs : List (String × Record)) (values : Keyed Json) :
    (cs.foldl (fun values c => values.put c.1 c.2.value) values).keys =
      Template.addNames values.keys (cs.map (·.1)) := by
  induction cs generalizing values with
  | nil => rfl
  | cons c cs ih =>
    rw [List.foldl_cons, ih, Keyed.put, Keyed.keys_alter_eq_addNames, ← Template.addNames_append,
      List.singleton_append, List.map_cons]

theorem get?_foldl_put (cs : List (String × Record)) (values : Keyed Json) (locale : String) :
    (cs.foldl (fun values c => values.put c.1 c.2.value) values).get? locale =
      (lastValue? cs locale).or (values.get? locale) := by
  induction cs generalizing values with
  | nil => rfl
  | cons c cs ih =>
    rw [List.foldl_cons, ih, Keyed.put, Keyed.get?_alter, lastValue?, lastValue?]
    by_cases hlocale : c.1 = locale
    · rw [if_pos hlocale, List.filter_cons_of_pos (by simpa using hlocale), List.getLast?_cons]
      cases (cs.filter fun c => c.1 = locale).getLast? with
      | none => rfl
      | some last => rfl
    · rw [if_neg hlocale, List.filter_cons_of_neg (by simpa using hlocale)]

theorem nodup_keys_foldl_put (cs : List (String × Record)) (values : Keyed Json) (h : values.keys.Nodup) :
    (cs.foldl (fun values c => values.put c.1 c.2.value) values).keys.Nodup := by
  induction cs generalizing values with
  | nil => exact h
  | cons c cs ih => exact ih _ (Keyed.nodup_keys_alter h _ _)

theorem foldl_put_eq_summary (cs : List (String × Record)) :
    cs.foldl (fun values c => Keyed.put values c.1 c.2.value) [] =
      (cs.map (·.1)).eraseDups.filterMap fun locale => (lastValue? cs locale).map fun value => (locale, value) := by
  have hkeys := keys_foldl_put_eq_addNames cs []
  have hnodup := nodup_keys_foldl_put cs [] List.nodup_nil
  rw [← Keyed.filterMap_get?_keys hnodup, hkeys, Keyed.keys, List.map_nil, Template.addNames_nil]
  refine List.filterMap_congr fun locale _ => ?_
  rw [get?_foldl_put, Keyed.get?, Option.or_none]

/-- Merging records one after the other gives what they say together. -/
theorem foldl_merge_eq_summary? (cs : List (String × Record)) : cs.foldl Entry.merge none = Entry.summary? cs := by
  cases cs with
  | nil => rfl
  | cons first rest =>
    rw [foldl_merge_cons, Entry.ofRecords, foldl_addNames_params, Template.addNames_nil, foldl_put_eq_summary]
    rfl

/-! ## The lists of a catalog -/

theorem Catalog.keys_foldl_contribute (cs : List (String × Record)) (entries : Keyed Entry) :
    (cs.foldl contribute entries).keys = Template.addNames entries.keys (cs.map fun c => c.2.key) := by
  induction cs generalizing entries with
  | nil => rfl
  | cons c cs ih =>
    rw [List.foldl_cons, ih, contribute, Keyed.keys_alter_eq_addNames, ← Template.addNames_append,
      List.singleton_append, List.map_cons]

theorem Catalog.entries_gather_eq_summary (records : List (String × List Record)) :
    (gather records).entries = (summary records).entries := by
  have hkeys := keys_foldl_contribute (contributions records) []
  have hnodup := keys_gather_nodup records
  rw [← Keyed.filterMap_get?_keys hnodup, entries_gather, hkeys, Keyed.keys, List.map_nil, Template.addNames_nil]
  refine List.filterMap_congr fun key _ => ?_
  rw [get?_foldl_contribute, Keyed.get?, foldl_merge_eq_summary?]

theorem Catalog.locales_addLocale (catalog : Catalog) (locale : String) (records : List Record) :
    (catalog.addLocale locale records).locales = Template.addNames catalog.locales [locale] := by
  have hrecords (catalog : Catalog) : (records.foldl (addRecord locale) catalog).locales = catalog.locales := by
    induction records generalizing catalog with
    | nil => rfl
    | cons record rest ih => exact ih _
  exact hrecords _

theorem Catalog.locales_gather_eq_summary (records : List (String × List Record)) :
    (gather records).locales = (summary records).locales := by
  have step (catalog : Catalog) :
      (records.foldl (fun catalog document => catalog.addLocale document.1 document.2) catalog).locales =
        Template.addNames catalog.locales (records.map (·.1)) := by
    induction records generalizing catalog with
    | nil => rfl
    | cons document rest ih =>
      rw [List.foldl_cons, ih, locales_addLocale, ← Template.addNames_append, List.singleton_append, List.map_cons]
  exact (step empty).trans (Template.addNames_nil _)

/-! ## Finding entries by their positions -/

/-- Entries in order, with a table of the position of each path. -/
structure Indexed where
  entries : Keyed Entry
  positions : Keyed Nat

namespace Indexed

def get? (table : Indexed) (path : String) : Option Entry :=
  (table.positions.get? path).bind fun position => table.entries[position]?.map (·.2)

def has (table : Indexed) (path : String) : Bool := table.positions.has path

/-- Adds one record: to the entry at the position of its path, or to a new one at the end. -/
def contribute (table : Indexed) (c : String × Record) : Indexed :=
  match table.positions.get? c.2.key with
  | some position =>
    { table with entries := table.entries.modify position fun pair => (pair.1, pair.2.absorb c.1 c.2) }
  | none =>
    { entries := table.entries ++ [(c.2.key, (Entry.start c.2).absorb c.1 c.2)]
      positions := table.positions.put c.2.key table.entries.length }

def gather (records : List (String × List Record)) : Indexed :=
  (contributions records).foldl contribute ⟨[], []⟩

/-- The table holds the position of each path, and nothing else. -/
def Consistent (table : Indexed) : Prop :=
  ∀ path position, table.positions.get? path = some position ↔ table.entries.keys[position]? = some path

variable {table : Indexed}

theorem Consistent.not_mem_keys (h : table.Consistent) {path : String} (hnone : table.positions.get? path = none) :
    path ∉ table.entries.keys := by
  intro hmem
  obtain ⟨position, hget⟩ := List.mem_iff_getElem?.mp hmem
  rw [(h path position).mpr hget] at hnone
  cases hnone

/-- With a consistent table, a record goes where a search would put it. -/
theorem Consistent.entries_contribute (h : table.Consistent) (c : String × Record) :
    (table.contribute c).entries = Message.contribute table.entries c := by
  rw [contribute, Message.contribute]
  split
  · rename_i position hposition
    rw [Keyed.alter_eq_modify ((h _ _).mp hposition) fun other hother => ?_]
    · rfl
    · rw [(h _ other).mpr hother] at hposition
      exact Option.some.inj hposition
  · rename_i hnone
    rw [Keyed.alter_of_not_mem (h.not_mem_keys hnone)]
    rfl

theorem Consistent.contribute (h : table.Consistent) (c : String × Record) : (table.contribute c).Consistent := by
  intro path position
  rw [Indexed.contribute]
  split
  · rw [Keyed.keys_modify table.entries _ fun entry => entry.absorb c.1 c.2]
    exact h path position
  · rename_i hnone
    have hnew := h.not_mem_keys hnone
    have hsize : table.entries.keys.length = table.entries.length := List.length_map _
    dsimp only
    rw [Keyed.put, Keyed.get?_alter, Keyed.keys, List.map_append, List.map_singleton, ← Keyed.keys,
      List.getElem?_append, hsize]
    by_cases hkey : c.2.key = path
    · rw [if_pos hkey, Option.some.injEq]
      constructor
      · rintro rfl
        rw [if_neg (Nat.lt_irrefl _), Nat.sub_self, hkey]
        rfl
      · intro hget
        split at hget
        · exact absurd (hkey ▸ List.mem_of_getElem? hget) hnew
        · rw [List.getElem?_singleton] at hget
          split at hget
          · omega
          · cases hget
    · rw [if_neg hkey, h path position]
      split
      · rfl
      · rename_i hbeyond
        rw [List.getElem?_eq_none (by omega)]
        simp [List.getElem?_singleton, hkey]

theorem consistent_gather (records : List (String × List Record)) :
    (gather records).Consistent ∧ (gather records).entries = (Catalog.gather records).entries := by
  have step (cs : List (String × Record)) (table : Indexed) (h : table.Consistent) :
      (cs.foldl contribute table).Consistent ∧
        (cs.foldl contribute table).entries = cs.foldl Message.contribute table.entries := by
    induction cs generalizing table with
    | nil => exact ⟨h, rfl⟩
    | cons c cs ih =>
      rw [List.foldl_cons, List.foldl_cons, ← h.entries_contribute]
      exact ih _ (h.contribute c)
  rw [Catalog.entries_gather]
  refine step _ ⟨[], []⟩ fun path position => ?_
  simp [Keyed.get?, Keyed.keys]

/-- Looking up through a consistent table finds what searching finds. -/
theorem Consistent.get?_eq (h : table.Consistent) (hkeys : table.entries.keys.Nodup) (path : String) :
    table.get? path = table.entries.get? path := by
  rw [get?]
  cases hposition : table.positions.get? path with
  | none => exact ((Keyed.get?_eq_none_iff _ _).mpr (h.not_mem_keys hposition)).symm
  | some position =>
    have hkey := (h path position).mp hposition
    rw [Keyed.keys, List.getElem?_map] at hkey
    obtain ⟨⟨_, entry⟩, hentry, rfl⟩ := Option.map_eq_some_iff.mp hkey
    rw [Option.bind_some, hentry, (Keyed.get?_eq_some_iff hkeys _ _).mpr (List.mem_of_getElem? hentry)]
    rfl

theorem Consistent.has_iff (h : table.Consistent) (path : String) :
    table.has path = true ↔ path ∈ table.entries.keys := by
  rw [has, Keyed.has, Option.isSome_iff_exists, List.mem_iff_getElem?]
  exact exists_congr (h path)

end Indexed

/-- A gathered catalog is what its records say together, and its entries are found at their positions. -/
theorem Catalog.gather_eq_summary (records : List (String × List Record)) :
    gather records = summary records ∧ (gather records).entries.keys.Nodup ∧
      (Indexed.gather records).entries = (gather records).entries ∧ (Indexed.gather records).Consistent ∧
      ∀ path, (Indexed.gather records).get? path = (gather records).get? path ∧
        ((Indexed.gather records).has path = true ↔ path ∈ (gather records).entries.keys) ∧
        ∀ (position : Nat) (entry : Entry), (gather records).entries[position]? = some (path, entry) →
          (gather records).get? path = some entry := by
  have hkeys := keys_gather_nodup records
  obtain ⟨hconsistent, hentries⟩ := Indexed.consistent_gather records
  refine ⟨?_, hkeys, hentries, hconsistent, fun path => ⟨?_, ?_, fun position entry hget => ?_⟩⟩
  · calc gather records = ⟨(gather records).locales, (gather records).entries⟩ := rfl
      _ = ⟨(summary records).locales, (summary records).entries⟩ := by
        rw [locales_gather_eq_summary, entries_gather_eq_summary]
  · rw [hconsistent.get?_eq (hentries ▸ hkeys), hentries, get?]
  · rw [hconsistent.has_iff, hentries]
  · exact (Keyed.get?_eq_some_iff hkeys _ _).mpr (List.mem_of_getElem? hget)

end Phrasebook.Message
