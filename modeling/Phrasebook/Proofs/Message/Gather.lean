import Phrasebook.Message.Catalog
import Phrasebook.Proofs.Keyed
import Phrasebook.Proofs.Template.Occurrence

/-! # The entries of a gathered catalog

Gathering visits every record of every document once. An entry depends on the records with its displayed
path alone: path and place come from the first of them, placeholders and the mark of an array from all, and
each locale keeps the value of its last one.
-/

namespace Phrasebook.Message

/-- The records of all documents in the order in which they are gathered, each with its locale. -/
def contributions (records : List (String × List Record)) : List (String × Record) :=
  records.flatMap fun (locale, rs) => rs.map fun record => (locale, record)

def Entry.merge (present : Option Entry) (contribution : String × Record) : Option Entry :=
  some ((present.getD (.start contribution.2)).absorb contribution.1 contribution.2)

def contribute (entries : Keyed Entry) (contribution : String × Record) : Keyed Entry :=
  entries.alter contribution.2.key fun present =>
    (present.getD (.start contribution.2)).absorb contribution.1 contribution.2

/-- The entry that records with one displayed path make together. -/
def Entry.ofRecords (first : String × Record) (rest : List (String × Record)) : Entry :=
  { path := first.2.path
    params := (first :: rest).foldl (fun names c => Template.addNames names c.2.params) []
    isArrayRoot := (first :: rest).any fun c => c.2.isArrayRoot
    item := first.2.item
    values := (first :: rest).foldl (fun values c => values.put c.1 c.2.value) [] }

theorem Catalog.entries_addLocale (catalog : Catalog) (locale : String) (records : List Record) :
    (catalog.addLocale locale records).entries =
      (records.map fun record => (locale, record)).foldl contribute catalog.entries := by
  have step (catalog : Catalog) : (records.foldl (addRecord locale) catalog).entries =
      (records.map fun record => (locale, record)).foldl contribute catalog.entries := by
    induction records generalizing catalog with
    | nil => rfl
    | cons record rest ih =>
      rw [List.foldl_cons, ih]
      rfl
  exact step _

theorem Catalog.entries_gather (records : List (String × List Record)) :
    (gather records).entries = (contributions records).foldl contribute [] := by
  have step (catalog : Catalog) :
      (records.foldl (fun catalog (locale, rs) => catalog.addLocale locale rs) catalog).entries =
        (contributions records).foldl contribute catalog.entries := by
    induction records generalizing catalog with
    | nil => rfl
    | cons document rest ih =>
      have hcons : contributions (document :: rest) =
          (document.2.map fun record => (document.1, record)) ++ contributions rest := rfl
      rw [List.foldl_cons, ih, entries_addLocale, hcons, List.foldl_append]
  exact step empty

theorem get?_foldl_contribute (cs : List (String × Record)) (entries : Keyed Entry) (key : String) :
    (cs.foldl contribute entries).get? key =
      (cs.filter fun c => c.2.key = key).foldl Entry.merge (entries.get? key) := by
  induction cs generalizing entries with
  | nil => rfl
  | cons c cs ih =>
    rw [List.foldl_cons, ih, contribute, Keyed.get?_alter]
    by_cases h : c.2.key = key
    · rw [if_pos h, List.filter_cons_of_pos (by simpa using h), List.foldl_cons, Entry.merge, h]
    · rw [if_neg h, List.filter_cons_of_neg (by simpa using h)]

theorem foldl_merge_some (entry : Entry) (cs : List (String × Record)) :
    cs.foldl Entry.merge (some entry) =
      some { entry with
        params := cs.foldl (fun names c => Template.addNames names c.2.params) entry.params
        isArrayRoot := entry.isArrayRoot || cs.any fun c => c.2.isArrayRoot
        values := cs.foldl (fun values c => values.put c.1 c.2.value) entry.values } := by
  induction cs generalizing entry with
  | nil => simp
  | cons c cs ih =>
    rw [List.foldl_cons, Entry.merge, Option.getD_some, ih]
    simp [Entry.absorb, Bool.or_assoc]

theorem foldl_merge_cons (first : String × Record) (rest : List (String × Record)) :
    (first :: rest).foldl Entry.merge none = some (.ofRecords first rest) := by
  rw [List.foldl_cons, Entry.merge, Option.getD_none, foldl_merge_some]
  simp [Entry.ofRecords, Entry.start, Entry.absorb]

theorem Catalog.keys_gather_nodup (records : List (String × List Record)) :
    (gather records).entries.keys.Nodup := by
  have step (cs : List (String × Record)) (entries : Keyed Entry) (h : entries.keys.Nodup) :
      (cs.foldl contribute entries).keys.Nodup := by
    induction cs generalizing entries with
    | nil => exact h
    | cons c cs ih => exact ih _ (Keyed.nodup_keys_alter h _ _)
  rw [entries_gather]
  exact step _ _ List.nodup_nil

/-- The entry of a displayed path is made of the records with that path, and there is one as soon as there
is such a record. -/
theorem Catalog.mem_gather_iff (records : List (String × List Record)) (key : String) (entry : Entry) :
    (key, entry) ∈ (gather records).entries ↔
      ∃ first rest, (contributions records).filter (fun c => c.2.key = key) = first :: rest ∧
        entry = .ofRecords first rest := by
  rw [← Keyed.get?_eq_some_iff (keys_gather_nodup records), entries_gather, get?_foldl_contribute]
  cases (contributions records).filter (fun c => c.2.key = key) with
  | nil => simp [Keyed.get?]
  | cons first rest =>
    simp only [Keyed.get?, foldl_merge_cons, Option.some.injEq]
    constructor
    · rintro rfl
      exact ⟨first, rest, rfl, rfl⟩
    · rintro ⟨first', rest', heq, rfl⟩
      cases heq
      rfl

theorem mem_contributions {records : List (String × List Record)} {locale : String} {record : Record} :
    (locale, record) ∈ contributions records ↔ ∃ rs, (locale, rs) ∈ records ∧ record ∈ rs := by
  simp only [contributions, List.mem_flatMap, List.mem_map, Prod.exists, Prod.mk.injEq]
  constructor
  · rintro ⟨l, rs, hdoc, r, hr, rfl, rfl⟩
    exact ⟨rs, hdoc, hr⟩
  · rintro ⟨rs, hdoc, hr⟩
    exact ⟨locale, rs, hdoc, record, hr, rfl, rfl⟩

theorem mem_foldl_addNames {name : String} (cs : List (String × Record)) (names : List String) :
    name ∈ cs.foldl (fun names c => Template.addNames names c.2.params) names ↔
      name ∈ names ∨ ∃ c ∈ cs, name ∈ c.2.params := by
  induction cs generalizing names with
  | nil => simp
  | cons c cs ih => rw [List.foldl_cons, ih, Template.mem_addNames, or_assoc, List.exists_mem_cons_iff]

theorem Catalog.mem_params_gather_iff {records : List (String × List Record)} {key : String} {entry : Entry}
    (h : (key, entry) ∈ (gather records).entries) (name : String) :
    name ∈ entry.params ↔
      ∃ locale record, (locale, record) ∈ contributions records ∧ record.key = key ∧ name ∈ record.params := by
  obtain ⟨first, rest, hfilter, rfl⟩ := (mem_gather_iff records key entry).mp h
  rw [Entry.ofRecords, ← hfilter, mem_foldl_addNames]
  simp [and_assoc]

theorem forall_mem_foldl_put (holds : Json → Prop) {cs : List (String × Record)} (h : ∀ c ∈ cs, holds c.2.value)
    {values : Keyed Json} (hvalues : ∀ pair ∈ values, holds pair.2) :
    ∀ pair ∈ cs.foldl (fun values c => values.put c.1 c.2.value) values, holds pair.2 := by
  induction cs generalizing values with
  | nil => exact hvalues
  | cons c cs ih =>
    obtain ⟨hhere, hrest⟩ := List.forall_mem_cons.mp h
    exact ih hrest (Keyed.forall_mem_put hvalues c.1 hhere)

theorem Catalog.mem_values_gather {records : List (String × List Record)} {key : String} {entry : Entry}
    (h : (key, entry) ∈ (gather records).entries) {pair : String × Json} (hpair : pair ∈ entry.values) :
    ∃ locale record, (locale, record) ∈ contributions records ∧ record.key = key ∧
      record.value = pair.2 := by
  obtain ⟨first, rest, hfilter, rfl⟩ := (mem_gather_iff records key entry).mp h
  rw [Entry.ofRecords, ← hfilter] at hpair
  refine forall_mem_foldl_put (fun value => ∃ locale record,
    (locale, record) ∈ contributions records ∧ record.key = key ∧ record.value = value) ?_ (by simp) pair hpair
  rintro ⟨locale, record⟩ hc
  obtain ⟨hmem, hkey⟩ := List.mem_filter.mp hc
  exact ⟨locale, record, hmem, of_decide_eq_true hkey, rfl⟩

theorem Catalog.isArrayRoot_gather {records : List (String × List Record)} {key : String} {entry : Entry}
    (h : (key, entry) ∈ (gather records).entries) {locale : String} {record : Record}
    (hrecord : (locale, record) ∈ contributions records) (hkey : record.key = key)
    (hroot : record.isArrayRoot = true) : entry.isArrayRoot = true := by
  obtain ⟨first, rest, hfilter, rfl⟩ := (mem_gather_iff records key entry).mp h
  rw [Entry.ofRecords, ← hfilter]
  exact List.any_eq_true.mpr ⟨_, List.mem_filter.mpr ⟨hrecord, decide_eq_true hkey⟩, hroot⟩

end Phrasebook.Message
