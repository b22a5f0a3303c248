import Phrasebook.Group.Basic
import Phrasebook.Proofs.Namespace.Existence

/-! # Complete groups have a namespace

In a complete group every message has a record in the first document, which gives the entry its place. The
first document repeats no displayed path, so no message is in another one's way. This holds for keys with
points and brackets too, with which two documents can spell one displayed path by different steps.
-/

namespace Phrasebook.Group

open Message Namespace
open Json (Reaches)

variable {documents : List (String × Json)}

theorem eq_of_display_eq {document : Json} (h : repeatedKey? (Record.ofDocument document) = none)
    {path path' : Path} {value value' : Json} (hreach : Reaches document path value)
    (hvalue : value.isObject = false) (hreach' : Reaches document path' value')
    (hvalue' : value'.isObject = false) (hdisplay : path.display = path'.display) : path = path' := by
  rw [repeatedKey?_eq_none_iff] at h
  have hmem := (Record.mem_ofDocument_iff document _).mpr ⟨path, value, hreach, hvalue, rfl⟩
  have hmem' := (Record.mem_ofDocument_iff document _).mpr ⟨path', value', hreach', hvalue', rfl⟩
  exact congrArg Record.path (List.inj_on_of_nodup_map h hmem hmem' hdisplay)

theorem exists_record_of_first {first : String × Json} {rest : List (String × Json)}
    (hlocales : (Keyed.keys (first :: rest)).Nodup)
    (hrecords : ∀ document ∈ first :: rest, repeatedKey? (Record.ofDocument document.2) = none)
    {key : String} {entry : Entry} (hentry : (key, entry) ∈ (Catalog.gather (recordsOf (first :: rest))).entries)
    (hvalue : entry.values.has first.1 = true) :
    ∃ record ∈ Record.ofDocument first.2, record.key = key ∧ entry.path = record.path ∧
      entry.item = record.item := by
  obtain ⟨-, -, hvalues⟩ := exists_found_of_mem_entries hlocales hrecords hentry
  rw [Keyed.has_iff, hvalues, Keyed.keys, List.map_map] at hvalue
  obtain ⟨⟨locale, record⟩, hfound, rfl⟩ := List.mem_map.mp hvalue
  obtain ⟨document, hdocument, hfind⟩ := mem_found_iff.mp hfound
  cases Keyed.eq_of_mem hlocales hdocument List.mem_cons_self
  obtain ⟨head, tail, hfilter, rfl⟩ := (Catalog.mem_gather_iff _ key entry).mp hentry
  rw [filter_contributions hrecords, found_cons, hfind] at hfilter
  cases hfilter
  have hkey := List.find?_some hfind
  exact ⟨record, List.mem_of_find?_eq_some hfind, of_decide_eq_true hkey, rfl, rfl⟩

/-- A complete catalog rests on the first document. -/
theorem restsOn_of_gaps {first : String × Json} {rest : List (String × Json)}
    (hobject : first.2.isObject = true) (htidy : first.2.Tidy)
    (hlocales : (Keyed.keys (first :: rest)).Nodup)
    (hrecords : ∀ document ∈ first :: rest, repeatedKey? (Record.ofDocument document.2) = none)
    {expected : List String} (hfirst : first.1 ∈ expected)
    (hgaps : Completeness.gaps expected (.gather (recordsOf (first :: rest))) = [])
    (group defaultLocale : String) :
    Source.RestsOn ⟨.gather (recordsOf (first :: rest)), group, defaultLocale⟩ first.2 := by
  have hrecord {key : String} {entry : Entry}
      (hentry : (key, entry) ∈ (Catalog.gather (recordsOf (first :: rest))).entries) :
      ∃ value, Reaches first.2 entry.path value ∧ value.isObject = false ∧ key = entry.path.display ∧
        entry.item = entry.path.item? := by
    have hhas := Completeness.gaps_eq_nil_iff.mp hgaps first.1 hfirst _ hentry
    obtain ⟨record, hrecord, rfl, hpath, hitem⟩ := exists_record_of_first hlocales hrecords hentry hhas
    obtain ⟨path, value, hreach, hvalue, rfl⟩ := (Record.mem_ofDocument_iff _ _).mp hrecord
    rw [hpath, hitem]
    exact ⟨value, hreach, hvalue, rfl, rfl⟩
  refine ⟨hobject, htidy, Catalog.keys_gather_nodup _, ?_, ?_, ?_, ?_⟩
  · intro key entry hentry
    obtain ⟨value, hreach, hvalue, -, -⟩ := hrecord hentry
    exact ⟨value, hreach, hvalue⟩
  · intro key entry hentry
    obtain ⟨-, -, -, hdisplay, -⟩ := hrecord hentry
    exact hdisplay
  · intro key entry hentry
    obtain ⟨-, -, -, -, hitem⟩ := hrecord hentry
    exact hitem
  · exact eq_of_display_eq (hrecords first List.mem_cons_self)

/-- Complete documents have a namespace, in whatever order and with whatever keys they are given. -/
theorem exists_buildNamespace_of_check (hobjects : ∀ document ∈ documents, document.2.isObject = true)
    (htidy : ∀ document ∈ documents, document.2.Tidy) (hlocales : (Keyed.keys documents).Nodup)
    {expected : List String} (hexpected : ∀ locale ∈ Keyed.keys documents, locale ∈ expected)
    {analysis : Analysis} (hanalysis : analyze documents = .ok analysis) {defaultLocale : String}
    (hcheck : Completeness.check expected defaultLocale analysis.catalog = .ok ()) (group : String) :
    ∃ root, buildNamespace group defaultLocale analysis.catalog = .ok root := by
  obtain ⟨hrecords, rfl⟩ := (analyze_eq_ok_iff documents analysis).mp hanalysis
  obtain ⟨-, hgaps, -⟩ := Completeness.check_eq_ok_iff.mp hcheck
  obtain ⟨root, hbuild⟩ : ∃ root,
      Source.build ⟨.gather (recordsOf documents), group, defaultLocale⟩ = .ok root := by
    cases documents with
    | nil => exact ⟨_, rfl⟩
    | cons first rest =>
      have hrests := restsOn_of_gaps (hobjects first List.mem_cons_self) (htidy first List.mem_cons_self)
        hlocales hrecords (hexpected _ List.mem_cons_self) hgaps group defaultLocale
      exact hrests.exists_build
  exact ⟨root, Outcome.mapError_eq_ok_iff.mpr hbuild⟩

/-- Two documents that spell the path of one message by different steps. -/
def respelledDocuments : List (String × Json) :=
  [ ("es", .object [("a.b", .string "u"), ("l", .array [.object [("c", .string "v")]])]),
    ("en", .object [("a", .object [("b", .string "x")]), ("l[0].c", .string "y"), ("l", .array [])]) ]

theorem exists_buildNamespace_of_check_point :
    ∃ analysis,
      analyze respelledDocuments = .ok analysis ∧
        Completeness.check ["en", "es"] "en" analysis.catalog = .ok () ∧
        ∃ root, buildNamespace "shop" "en" analysis.catalog = .ok root := by
  have htidy : ∀ document ∈ respelledDocuments, document.2.Tidy := by
    simp [respelledDocuments, Json.Tidy, Json.throughout_object_iff, Json.throughout_array_iff, Keyed.keys,
      Json.throughout_string]
  have hlocales : ∀ locale ∈ Keyed.keys respelledDocuments, locale ∈ ["en", "es"] := by decide
  have hanalysis := (analyze_eq_ok_iff respelledDocuments _).mpr ⟨by decide, rfl⟩
  have hcheck : Completeness.check ["en", "es"] "en" (.gather (recordsOf respelledDocuments)) = .ok () := by
    decide +kernel
  refine ⟨_, hanalysis, hcheck, ?_⟩
  exact exists_buildNamespace_of_check (by decide) htidy (by decide) hlocales hanalysis hcheck "shop"

end Phrasebook.Group
