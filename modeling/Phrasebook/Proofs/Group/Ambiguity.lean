import Phrasebook.Proofs.Group.Gaps
import Phrasebook.Proofs.Message.SourceOrder

/-! # Ambiguous documents

Keys that hold points or brackets can spell the path of a nested value. The analysis of a group fails exactly
when two values of one document are displayed at the same path, and otherwise every record of a document has
an entry of its own in the catalog.
-/

namespace Phrasebook

open Message

def IsMessagePath (document : Json) (path : Path) : Prop :=
  ∃ value, path.lookup? document = some value ∧ value.isObject = false

/-- Two paths to values that are no objects are displayed alike. -/
def Ambiguous (document : Json) : Prop :=
  ∃ first second, first ≠ second ∧ first.display = second.display ∧ IsMessagePath document first ∧
    IsMessagePath document second

/-- The displayed path that comes a second time first, in the order of the records. -/
def FirstShared (document : Json) (path : String) : Prop :=
  ∃ front back, (Record.ofDocument document).map Record.key = front ++ path :: back ∧ front.Nodup ∧ path ∈ front

theorem isMessagePath_iff {document : Json} (h : document.Tidy) (path : Path) :
    IsMessagePath document path ↔ path ∈ (Record.ofDocument document).map Record.path := by
  rw [List.mem_map]
  constructor
  · rintro ⟨value, hlookup, hmessage⟩
    have hreach := (h.reaches_iff_lookup? path value).mpr hlookup
    exact ⟨.ofValue path path.item? value,
      (Record.mem_ofDocument_iff document _).mpr ⟨path, value, hreach, hmessage, rfl⟩, rfl⟩
  · rintro ⟨record, hrecord, rfl⟩
    have hdescribes := Record.describes_of_mem h hrecord
    exact ⟨record.value, hdescribes.value, hdescribes.message⟩

/-- A document is ambiguous when the keys of its records are not distinct. -/
theorem not_ambiguous_iff {document : Json} (h : document.Tidy) :
    ¬Ambiguous document ↔ ((Record.ofDocument document).map Record.key).Nodup := by
  have hkeys : (Record.ofDocument document).map Record.key =
      ((Record.ofDocument document).map Record.path).map Path.display := (List.map_map ..).symm
  rw [hkeys, List.nodup_map_iff_inj_on (Record.nodup_paths_ofDocument h)]
  simp only [← isMessagePath_iff h]
  constructor
  · intro hnot first hfirst second hsecond hdisplay
    by_contra hne
    exact hnot ⟨first, second, hne, hdisplay, hfirst, hsecond⟩
  · rintro hinjective ⟨first, second, hne, hdisplay, hfirst, hsecond⟩
    exact hne (hinjective first hfirst second hsecond hdisplay)

theorem not_ambiguous_of_plainNames {document : Json} (hobject : document.isObject = true) (htidy : document.Tidy)
    (hplain : PlainNames document) : ¬Ambiguous document :=
  (not_ambiguous_iff htidy).mpr
    ((repeatedKey?_eq_none_iff _).mp (Record.repeatedKey?_ofDocument_eq_none hobject htidy hplain))

theorem ambiguous_of_firstShared {document : Json} {path : String} (htidy : document.Tidy)
    (h : FirstShared document path) : Ambiguous document := by
  by_contra hnot
  obtain ⟨front, back, hkeys, -, hmem⟩ := h
  have hnodup := (not_ambiguous_iff htidy).mp hnot
  rw [hkeys] at hnodup
  exact (List.nodup_append.mp hnodup).2.2 path hmem path List.mem_cons_self rfl

theorem repeatedKey?_eq_some_iff {document : Json} {path : String} :
    repeatedKey? (Record.ofDocument document) = some path ↔ FirstShared document path :=
  firstRepeated?_eq_some_iff _ path

namespace Group

theorem records_eq_error_iff (locale : String) (document : Json) (problem : Problem) :
    records locale document = .error problem ↔
      ∃ path, FirstShared document path ∧ problem = .ambiguousPath locale path := by
  simp only [← repeatedKey?_eq_some_iff]
  rw [records]
  cases repeatedKey? (Record.ofDocument document) with
  | none => simp
  | some path => simp [eq_comm]

theorem exists_records_eq_ok_iff {document : Json} (htidy : document.Tidy) (locale : String) :
    (∃ rs, records locale document = .ok rs) ↔ ¬Ambiguous document := by
  simp only [records_eq_ok_iff, exists_and_left, exists_eq, and_true]
  rw [repeatedKey?_eq_none_iff, not_ambiguous_iff htidy]

theorem analyze_eq_error_iff {documents : List (String × Json)} (htidy : ∀ document ∈ documents, document.2.Tidy)
    (problem : Problem) :
    analyze documents = .error problem ↔ ∃ before locale document after path,
      documents = before ++ (locale, document) :: after ∧ (∀ earlier ∈ before, ¬Ambiguous earlier.2) ∧
        FirstShared document path ∧ problem = .ambiguousPath locale path := by
  have hstep (locale : String) (document : Json) (error : Problem) :
      (do return (locale, ← records locale document) : Except Problem _) = .error error ↔
        records locale document = .error error := Outcome.bind_pure_eq_error_iff
  have hfine (locale : String) {document : Json} (hdocument : document.Tidy) :
      (∃ result, (do return (locale, ← records locale document) : Except Problem _) = .ok result) ↔
        ¬Ambiguous document := by
    rw [← exists_records_eq_ok_iff hdocument locale]
    constructor
    · rintro ⟨result, h⟩
      obtain ⟨rs, hrs, -⟩ := Outcome.bind_eq_ok_iff.mp h
      exact ⟨rs, hrs⟩
    · rintro ⟨rs, hrs⟩
      exact ⟨_, Outcome.bind_eq_ok_iff.mpr ⟨rs, hrs, rfl⟩⟩
  rw [analyze, Outcome.bind_pure_eq_error_iff, Outcome.mapM_eq_error_iff]
  constructor
  · rintro ⟨before, ⟨locale, document⟩, after, rfl, hbefore, herror⟩
    obtain ⟨path, hshared, rfl⟩ := (records_eq_error_iff _ _ _).mp ((hstep locale document _).mp herror)
    refine ⟨before, locale, document, after, path, rfl, fun earlier hearlier => ?_, hshared, rfl⟩
    exact (hfine earlier.1 (htidy earlier (List.mem_append_left _ hearlier))).mp (hbefore earlier hearlier)
  · rintro ⟨before, locale, document, after, path, rfl, hbefore, hshared, rfl⟩
    refine ⟨before, (locale, document), after, rfl, fun earlier hearlier => ?_, ?_⟩
    · exact (hfine earlier.1 (htidy earlier (List.mem_append_left _ hearlier))).mpr (hbefore earlier hearlier)
    · exact (hstep locale document _).mpr ((records_eq_error_iff _ _ _).mpr ⟨path, hshared, rfl⟩)

def valueCount (catalog : Catalog) (locale : String) : Nat :=
  (catalog.entries.filter fun pair => (pair.2.value? locale).isSome).length

/-- Each record of a document without repeated paths is the value of one entry. -/
theorem length_records_eq_valueCount {documents : List (String × Json)} (hlocales : (Keyed.keys documents).Nodup)
    {locale : String} {document : Json} (hmem : (locale, document) ∈ documents)
    (hnodup : ((Record.ofDocument document).map Record.key).Nodup) :
    (Record.ofDocument document).length = valueCount (.gather (recordsOf documents)) locale := by
  have hkeys := Catalog.keys_gather_nodup (recordsOf documents)
  have hvalued : (Keyed.keys ((Catalog.gather (recordsOf documents)).entries.filter fun pair =>
      (pair.2.value? locale).isSome)).Nodup := (List.filter_sublist.map _).nodup hkeys
  have hsame (path : String) : path ∈ (Record.ofDocument document).map Record.key ↔
      path ∈ Keyed.keys ((Catalog.gather (recordsOf documents)).entries.filter fun pair =>
        (pair.2.value? locale).isSome) := by
    rw [List.mem_map]
    constructor
    · rintro ⟨record, hrecord, rfl⟩
      obtain ⟨value, hvalue⟩ := Option.isSome_iff_exists.mp
        ((Completeness.isSome_value?_gather documents record.key locale).mpr ⟨document, hmem, record, hrecord, rfl⟩)
      obtain ⟨entry, hentry, hlocale⟩ := Completeness.exists_entry_of_value? hvalue
      exact List.mem_map.mpr ⟨_, List.mem_filter.mpr ⟨hentry, Option.isSome_of_eq_some hlocale⟩, rfl⟩
    · intro hpath
      obtain ⟨⟨_, entry⟩, hfiltered, rfl⟩ := List.mem_map.mp hpath
      obtain ⟨hentry, hvalue⟩ := List.mem_filter.mp hfiltered
      rw [← Completeness.value?_of_mem hkeys hentry] at hvalue
      obtain ⟨document', hmem', hrecord⟩ := (Completeness.isSome_value?_gather documents _ locale).mp hvalue
      cases Keyed.eq_of_mem hlocales hmem hmem'
      exact hrecord
  have hperm := (List.perm_ext_iff_of_nodup hnodup hvalued).mpr hsame
  simpa [valueCount, Keyed.keys] using hperm.length_eq

/-- The analysis of documents fails exactly when one of them is ambiguous, at the first such document and at the
displayed path that is the first to come again among its records. When it succeeds no record is lost: the number of
records of a document is the number of entries with a value for its locale. Documents without points and opening
brackets in their keys are never to blame. -/
theorem analyze_rejects_ambiguous {documents : List (String × Json)} (hlocales : (Keyed.keys documents).Nodup)
    (hdocuments : ∀ document ∈ documents, document.2.isObject = true ∧ document.2.Tidy) :
    ((∃ problem, analyze documents = .error problem) ↔ ∃ document ∈ documents, Ambiguous document.2) ∧
    (∀ problem, analyze documents = .error problem ↔ ∃ before locale document after path,
      documents = before ++ (locale, document) :: after ∧ (∀ earlier ∈ before, ¬Ambiguous earlier.2) ∧
        FirstShared document path ∧ problem = .ambiguousPath locale path) ∧
    (∀ analysis, analyze documents = .ok analysis →
      Keyed.keys analysis.counts = Keyed.keys documents ∧
      ∀ locale document, (locale, document) ∈ documents →
        Keyed.get? analysis.counts locale = some (Record.ofDocument document).length ∧
          (Record.ofDocument document).length = valueCount analysis.catalog locale) ∧
    ∀ document ∈ documents, PlainNames document.2 →
      ¬Ambiguous document.2 ∧ ∀ path, analyze documents ≠ .error (.ambiguousPath document.1 path) := by
  have htidy := fun document hmem => (hdocuments document hmem).2
  have hnone (document : String × Json) (hmem : document ∈ documents) :
      repeatedKey? (Record.ofDocument document.2) = none ↔ ¬Ambiguous document.2 := by
    rw [repeatedKey?_eq_none_iff, not_ambiguous_iff (htidy document hmem)]
  refine ⟨?_, analyze_eq_error_iff htidy, fun analysis h => ?_, fun document hmem hplain => ?_⟩
  · constructor
    · rintro ⟨problem, h⟩
      obtain ⟨before, locale, document, after, path, rfl, -, hshared, -⟩ :=
        (analyze_eq_error_iff htidy problem).mp h
      have hmem : (locale, document) ∈ before ++ (locale, document) :: after :=
        List.mem_append_right _ List.mem_cons_self
      exact ⟨_, hmem, ambiguous_of_firstShared (htidy _ hmem) hshared⟩
    · rintro ⟨document, hmem, hambiguous⟩
      cases hresult : analyze documents with
      | error problem => exact ⟨problem, rfl⟩
      | ok analysis =>
        have hfine := ((analyze_eq_ok_iff documents analysis).mp hresult).1 document hmem
        exact absurd hambiguous ((hnone document hmem).mp hfine)
  · obtain ⟨hfine, heq⟩ := (analyze_eq_ok_iff documents analysis).mp h
    have hkeys : Keyed.keys analysis.counts = Keyed.keys documents := by
      rw [heq]
      simp [Keyed.keys, recordsOf]
    refine ⟨hkeys, fun locale document hmem => ⟨?_, ?_⟩⟩
    · refine (Keyed.get?_eq_some_iff (hkeys ▸ hlocales) _ _).mpr ?_
      rw [heq]
      exact List.mem_map.mpr ⟨_, List.mem_map_of_mem hmem, rfl⟩
    · rw [heq]
      exact length_records_eq_valueCount hlocales hmem ((repeatedKey?_eq_none_iff _).mp (hfine _ hmem))
  · have hfine := not_ambiguous_of_plainNames (hdocuments document hmem).1 (htidy document hmem) hplain
    refine ⟨hfine, fun path h => ?_⟩
    obtain ⟨before, locale, document', after, path', rfl, -, hshared, heq⟩ := (analyze_eq_error_iff htidy _).mp h
    cases heq
    have hmem' : (document.1, document') ∈ before ++ (document.1, document') :: after :=
      List.mem_append_right _ List.mem_cons_self
    cases Keyed.eq_of_mem hlocales hmem hmem'
    exact hfine (ambiguous_of_firstShared (htidy _ hmem) hshared)

/-- The documents of two locales: the second one spells the path of a nested value with one of its keys. -/
def dottedDocuments : List (String × Json) :=
  [ ("en", .object [("", .string "x"), ("a.b", .string "y")]),
    ("es", .object [("", .array []), ("a", .object [("b", .string "y")]), ("a.b", .string "z")]) ]

/-- The second document is rejected for that key, the first one for none. -/
theorem analyze_rejects_ambiguous_dotted :
    (Keyed.keys dottedDocuments).Nodup ∧
      (∀ document ∈ dottedDocuments, document.2.isObject = true ∧ document.2.Tidy) ∧
      (∃ document ∈ dottedDocuments, Ambiguous document.2) ∧
      analyze dottedDocuments = .error (.ambiguousPath "es" "a.b") := by
  have hlocales : (Keyed.keys dottedDocuments).Nodup := by decide
  have hdocuments : ∀ document ∈ dottedDocuments, document.2.isObject = true ∧ document.2.Tidy := by
    simp [dottedDocuments, Json.isObject, Json.Tidy, Json.throughout_object_iff, Json.throughout_array_iff,
      Json.throughout_string, Keyed.keys]
  have hrejected : analyze dottedDocuments = .error (.ambiguousPath "es" "a.b") := by rfl
  obtain ⟨hiff, -, -, -⟩ := analyze_rejects_ambiguous hlocales hdocuments
  exact ⟨hlocales, hdocuments, hiff.mp ⟨_, hrejected⟩, hrejected⟩

end Group

end Phrasebook
