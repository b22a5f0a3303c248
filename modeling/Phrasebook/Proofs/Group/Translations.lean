import Phrasebook.Proofs.Completeness
import Phrasebook.Proofs.Group.Analysis

/-! # The entries of complete documents

Where no document repeats a displayed path, each document has at most one record for an entry, and the
entry's values are those of these records in the order of the documents. Completeness puts a record in every
document. When displayed paths can be read back, all of these records stand at the entry's path, so that an
entry is one position of all documents.
-/

namespace Phrasebook.Group

open Message
open Json (Reaches)

variable {documents : List (String × Json)}

/-- The record with a displayed path in each document that has one. -/
def found (documents : List (String × Json)) (key : String) : List (String × Record) :=
  documents.filterMap fun document =>
    ((Record.ofDocument document.2).find? fun record => record.key = key).map (document.1, ·)

theorem found_cons (document : String × Json) (rest : List (String × Json)) (key : String) :
    found (document :: rest) key =
      ((Record.ofDocument document.2).find? fun record => record.key = key).toList.map (document.1, ·) ++
        found rest key := by
  rw [found, List.filterMap_cons]
  cases (Record.ofDocument document.2).find? fun record => record.key = key with
  | none => rfl
  | some record => rfl

theorem filter_eq_find?_toList {α β : Type} [DecidableEq β] (f : α → β) (y : β) {xs : List α}
    (h : (xs.map f).Nodup) : xs.filter (fun x => f x = y) = (xs.find? fun x => f x = y).toList := by
  induction xs with
  | nil => rfl
  | cons x rest ih =>
    rw [List.map_cons, List.nodup_cons] at h
    by_cases hx : f x = y
    · have hrest : rest.filter (fun x => f x = y) = [] := by
        rw [List.filter_eq_nil_iff]
        intro other hother heq
        apply h.1
        rw [hx, ← of_decide_eq_true heq]
        exact List.mem_map_of_mem hother
      rw [List.filter_cons_of_pos (by simpa using hx), List.find?_cons_of_pos (by simpa using hx), hrest]
      rfl
    · rw [List.filter_cons_of_neg (by simpa using hx), List.find?_cons_of_neg (by simpa using hx), ih h.2]

theorem filter_contributions
    (hrecords : ∀ document ∈ documents, repeatedKey? (Record.ofDocument document.2) = none)
    (key : String) :
    (contributions (recordsOf documents)).filter (fun c => c.2.key = key) = found documents key := by
  induction documents with
  | nil => rfl
  | cons document rest ih =>
    obtain ⟨hhere, hrest⟩ := List.forall_mem_cons.mp hrecords
    rw [repeatedKey?_eq_none_iff] at hhere
    have hcons : contributions (recordsOf (document :: rest)) =
        (Record.ofDocument document.2).map (fun record => (document.1, record)) ++
          contributions (recordsOf rest) := rfl
    rw [hcons, List.filter_append, ih hrest, List.filter_map, found_cons,
      ← filter_eq_find?_toList Record.key key hhere]
    rfl

theorem keys_found_sublist (key : String) :
    ((found documents key).map (·.1)).Sublist (Keyed.keys documents) := by
  induction documents with
  | nil => exact List.Sublist.refl _
  | cons document rest ih =>
    rw [found_cons]
    cases (Record.ofDocument document.2).find? fun record => record.key = key with
    | none => exact ih.cons _
    | some record => exact ih.cons_cons _

theorem mem_found_iff {key locale : String} {record : Record} :
    (locale, record) ∈ found documents key ↔
      ∃ document, (locale, document) ∈ documents ∧
        (Record.ofDocument document).find? (fun record => record.key = key) = some record := by
  simp only [found, List.mem_filterMap, Option.map_eq_some_iff, Prod.exists, Prod.mk.injEq]
  constructor
  · rintro ⟨l, document, hmem, r, hfind, rfl, rfl⟩
    exact ⟨document, hmem, hfind⟩
  · rintro ⟨document, hmem, hfind⟩
    exact ⟨locale, document, hmem, record, hfind, rfl, rfl⟩

/-- An entry has the place of its first record, and the values of all its records in the order of the
documents. -/
theorem exists_found_of_mem_entries (hlocales : (Keyed.keys documents).Nodup)
    (hrecords : ∀ document ∈ documents, repeatedKey? (Record.ofDocument document.2) = none)
    {key : String} {entry : Entry} (h : (key, entry) ∈ (Catalog.gather (recordsOf documents)).entries) :
    (∃ first ∈ found documents key, entry.path = first.2.path ∧ entry.item = first.2.item) ∧
      entry.isArrayRoot = (found documents key).any (fun c => c.2.isArrayRoot) ∧
      entry.values = (found documents key).map fun c => (c.1, c.2.value) := by
  obtain ⟨first, rest, hfilter, rfl⟩ := (Catalog.mem_gather_iff _ key entry).mp h
  rw [filter_contributions hrecords] at hfilter
  rw [hfilter]
  refine ⟨⟨first, List.mem_cons_self, rfl, rfl⟩, rfl, ?_⟩
  have hnodup : (Keyed.keys ((first :: rest).map fun c => (c.1, c.2.value))).Nodup := by
    rw [Keyed.keys, List.map_map, ← hfilter]
    exact (keys_found_sublist key).nodup hlocales
  have happend : ((first :: rest).map fun c => (c.1, c.2.value)).foldl
      (fun values pair => Keyed.put values pair.1 pair.2) [] = _ := Keyed.foldl_put_append [] _ hnodup
  rw [List.foldl_map] at happend
  exact happend

theorem value?_eq_some_iff (hlocales : (Keyed.keys documents).Nodup)
    (hrecords : ∀ document ∈ documents, repeatedKey? (Record.ofDocument document.2) = none)
    {key : String} {entry : Entry} (h : (key, entry) ∈ (Catalog.gather (recordsOf documents)).entries)
    {locale : String} {value : Json} :
    entry.value? locale = some value ↔ ∃ record, (locale, record) ∈ found documents key ∧ record.value = value := by
  obtain ⟨-, -, hvalues⟩ := exists_found_of_mem_entries hlocales hrecords h
  have hnodup : (Keyed.keys entry.values).Nodup := by
    rw [hvalues, Keyed.keys, List.map_map]
    exact (keys_found_sublist key).nodup hlocales
  rw [Entry.value?, Keyed.get?_eq_some_iff hnodup, hvalues]
  constructor
  · intro hmem
    obtain ⟨⟨_, record⟩, hrecord, heq⟩ := List.mem_map.mp hmem
    cases heq
    exact ⟨record, hrecord, rfl⟩
  · rintro ⟨record, hrecord, rfl⟩
    exact List.mem_map_of_mem (f := fun c : String × Record => (c.1, c.2.value)) hrecord

def samples (documents : List (String × Json)) (path : Path) : Keyed Json :=
  documents.filterMap fun document => (path.lookup? document.2).map (document.1, ·)

/-- Documents whose displayed paths can be read back: objects with distinct names, in which no name holds a
point or an opening bracket. -/
structure Addressable (documents : List (String × Json)) : Prop where
  object : ∀ document ∈ documents, document.2.isObject = true
  tidy : ∀ document ∈ documents, document.2.Tidy
  plain : ∀ document ∈ documents, PlainNames document.2

/-- An entry that stands for one position of all documents. -/
structure Covers (documents : List (String × Json)) (key : String) (entry : Entry) : Prop where
  display : key = entry.path.display
  keyed : entry.path.Keyed
  plain : entry.path.Plain
  item : entry.item = entry.path.item?
  value : ∀ document ∈ documents, ∃ value, entry.value? document.1 = some value ∧
    Reaches document.2 entry.path value ∧ value.isObject = false ∧ value.isArray = entry.isArrayRoot
  values : entry.values = samples documents entry.path

theorem Addressable.reaches_of_mem_found (hdocuments : Addressable documents) {key locale : String}
    {record : Record} (h : (locale, record) ∈ found documents key) :
    ∃ document path value, (locale, document) ∈ documents ∧ Reaches document path value ∧
      value.isObject = false ∧ record = .ofValue path path.item? value ∧ key = path.display ∧
      path.Plain ∧ path.Keyed := by
  obtain ⟨document, hdocument, hfind⟩ := mem_found_iff.mp h
  have hkey := List.find?_some hfind
  rw [decide_eq_true_eq] at hkey
  obtain ⟨path, value, hreach, hvalue, rfl⟩ :=
    (Record.mem_ofDocument_iff _ _).mp (List.mem_of_find?_eq_some hfind)
  exact ⟨document, path, value, hdocument, hreach, hvalue, rfl, hkey.symm,
    (hdocuments.plain _ hdocument).plain hreach,
    keyed_of_reaches (hdocuments.object _ hdocument) hreach hvalue⟩

/-- The records of all documents under a displayed path stand at that path, which can be read back from it. -/
theorem Addressable.reaches_at (hdocuments : Addressable documents) {path : Path} (hplain : path.Plain)
    (hkeyed : path.Keyed) {locale : String} {record : Record}
    (h : (locale, record) ∈ found documents path.display) :
    ∃ document, (locale, document) ∈ documents ∧ Reaches document path record.value ∧
      record.value.isObject = false ∧ record.isArrayRoot = record.value.isArray := by
  obtain ⟨document, other, value, hdocument, hreach, hvalue, rfl, hother, hotherPlain, hotherKeyed⟩ :=
    hdocuments.reaches_of_mem_found h
  have heq := Path.display_injective hotherPlain hplain hotherKeyed hkeyed hother.symm
  subst heq
  exact ⟨document, hdocument, hreach, hvalue, rfl⟩

/-- An entry stands at the one place that its displayed path spells. -/
theorem place_of_mem_entries (hdocuments : Addressable documents) (hlocales : (Keyed.keys documents).Nodup)
    (hrecords : ∀ document ∈ documents, repeatedKey? (Record.ofDocument document.2) = none)
    {key : String} {entry : Entry} (h : (key, entry) ∈ (Catalog.gather (recordsOf documents)).entries) :
    key = entry.path.display ∧ entry.path.Plain ∧ entry.path.Keyed ∧ entry.item = entry.path.item? := by
  obtain ⟨⟨⟨locale, record⟩, hrecord, hpath, hitem⟩, -, -⟩ := exists_found_of_mem_entries hlocales hrecords h
  obtain ⟨_, path, _, -, -, -, rfl, hdisplay, hplain, hkeyed⟩ := hdocuments.reaches_of_mem_found hrecord
  change entry.path = path at hpath
  subst hpath
  exact ⟨hdisplay, hplain, hkeyed, hitem⟩

theorem any_eq_of_forall {α : Type} {xs : List α} {f : α → Bool} {b : Bool} (hsome : xs ≠ [])
    (h : ∀ x ∈ xs, f x = b) : xs.any f = b := by
  cases b with
  | true =>
    obtain ⟨x, hx⟩ := List.exists_mem_of_ne_nil xs hsome
    exact List.any_eq_true.mpr ⟨x, hx, h x hx⟩
  | false => exact List.any_eq_false.mpr fun x hx => by simp [h x hx]

theorem covers_of_mem_entries (hdocuments : Addressable documents)
    (hlocales : (Keyed.keys documents).Nodup)
    (hrecords : ∀ document ∈ documents, repeatedKey? (Record.ofDocument document.2) = none)
    {expected : List String} (hexpected : ∀ document ∈ documents, document.1 ∈ expected)
    {defaultLocale : String} (hdefault : defaultLocale ∈ expected)
    (hcheck : Completeness.check expected defaultLocale (.gather (recordsOf documents)) = .ok ())
    {key : String} {entry : Entry} (h : (key, entry) ∈ (Catalog.gather (recordsOf documents)).entries) :
    Covers documents key entry := by
  obtain ⟨⟨first, hfirst, -⟩, hroot, hvalues⟩ := exists_found_of_mem_entries hlocales hrecords h
  obtain ⟨hdisplay, hplain, hkeyed, hitem⟩ := place_of_mem_entries hdocuments hlocales hrecords h
  have hplace {locale : String} {record : Record} (hmem : (locale, record) ∈ found documents key) :=
    hdocuments.reaches_at hplain hkeyed (hdisplay ▸ hmem)
  obtain ⟨reference, -, hkinds⟩ := Completeness.value_of_check hcheck hdefault h
  have hrootEq : entry.isArrayRoot = reference.isArray := by
    rw [hroot]
    refine any_eq_of_forall (List.ne_nil_of_mem hfirst) ?_
    rintro ⟨locale, record⟩ hmem
    obtain ⟨document, hdocument, -, -, harray⟩ := hplace hmem
    obtain ⟨value, hvalue, hkind⟩ := hkinds locale (hexpected _ hdocument)
    rw [(value?_eq_some_iff hlocales hrecords h).mpr ⟨record, hmem, rfl⟩] at hvalue
    cases hvalue
    rw [harray, hkind]
  have hvalue : ∀ document ∈ documents, ∃ value, entry.value? document.1 = some value ∧
      Reaches document.2 entry.path value ∧ value.isObject = false ∧
        value.isArray = entry.isArrayRoot := by
    rintro ⟨locale, document⟩ hdocument
    obtain ⟨_, hvalue, hkind⟩ := hkinds locale (hexpected _ hdocument)
    obtain ⟨record, hmem, rfl⟩ := (value?_eq_some_iff hlocales hrecords h).mp hvalue
    obtain ⟨document', hdocument', hreach, hobject, -⟩ := hplace hmem
    cases Keyed.eq_of_mem hlocales hdocument hdocument'
    exact ⟨_, hvalue, hreach, hobject, by rw [hrootEq, hkind]⟩
  refine ⟨hdisplay, hkeyed, hplain, hitem, hvalue, ?_⟩
  rw [hvalues, found, samples, List.map_filterMap]
  refine List.filterMap_congr ?_
  rintro ⟨locale, document⟩ hdocument
  obtain ⟨_, hvalue, hreach, -⟩ := hvalue _ hdocument
  obtain ⟨record, hmem, rfl⟩ := (value?_eq_some_iff hlocales hrecords h).mp hvalue
  obtain ⟨document', hdocument', hfind⟩ := mem_found_iff.mp hmem
  cases Keyed.eq_of_mem hlocales hdocument hdocument'
  rw [hfind, ((hdocuments.tidy _ hdocument).reaches_iff_lookup? _ _).mp hreach]
  rfl

/-- Every value that is no object has an entry. -/
theorem exists_entry_of_reaches {locale : String} {document value : Json} {path : Path}
    (hdocument : (locale, document) ∈ documents) (hreach : Reaches document path value)
    (hvalue : value.isObject = false) :
    ∃ entry, (path.display, entry) ∈ (Catalog.gather (recordsOf documents)).entries := by
  have hrecord := (Record.mem_ofDocument_iff document _).mpr ⟨path, value, hreach, hvalue, rfl⟩
  have hmem : (locale, Record.ofValue path path.item? value) ∈
      (contributions (recordsOf documents)).filter (fun c => c.2.key = path.display) :=
    List.mem_filter.mpr ⟨mem_contributions_recordsOf.mpr ⟨document, hdocument, hrecord⟩,
      decide_eq_true rfl⟩
  cases hfilter : (contributions (recordsOf documents)).filter fun c => c.2.key = path.display with
  | nil =>
    rw [hfilter] at hmem
    cases hmem
  | cons first rest => exact ⟨_, (Catalog.mem_gather_iff _ _ _).mpr ⟨first, rest, hfilter, rfl⟩⟩

end Phrasebook.Group
