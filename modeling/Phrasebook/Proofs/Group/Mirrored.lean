import Phrasebook.Group.Basic
import Phrasebook.Proofs.Namespace.Mirror

/-! # The namespace of a complete group

When the documents of a group are complete, its namespace is built, every message is found by walking along
its path, and the tree has no more messages than the catalog.
-/

namespace Phrasebook

open Message Namespace

theorem Namespace.Source.Mirrors.exists_walk? {source : Source} {documents : List (String × Json)}
    {document : Json} (h : source.Follows documents document) {root : Node}
    (hroot : source.Mirrors [] root) {key : String} {entry : Entry}
    (hentry : (key, entry) ∈ source.catalog.entries) :
    ∃ node, root.walk? entry.path = some node ∧ node.IsFor source.group key entry := by
  obtain ⟨node, hnode⟩ := hroot.complete hentry (List.nil_append _).symm
  obtain ⟨key', entry', hentry', hpath, hfor⟩ := hroot.sound _ hnode
  obtain ⟨rfl, rfl⟩ := h.entry_unique hentry hentry' (by rw [hpath, List.nil_append])
  exact ⟨node, hroot.tidy.walk?_eq hnode, hfor⟩

theorem Namespace.Source.Mirrors.size_eq {source : Source} {documents : List (String × Json)}
    {document : Json} (h : source.Follows documents document) {root : Node}
    (hroot : source.Mirrors [] root) : root.size = source.catalog.size := by
  have hentries : (source.catalog.entries.map fun pair => pair.2.path).Nodup := by
    have hkeys := h.nodup
    have heq : Keyed.keys source.catalog.entries =
        (source.catalog.entries.map fun pair => pair.2.path).map Path.display := by
      rw [Keyed.keys, List.map_map]
      exact List.map_congr_left fun pair hpair => (h.covers hpair).display
    rw [heq] at hkeys
    exact hkeys.of_map _
  have hperm : (root.messages.map (·.1)).Perm (source.catalog.entries.map fun pair => pair.2.path) := by
    rw [List.perm_ext_iff_of_nodup hroot.tidy.nodup_paths hentries]
    intro path
    simp only [List.mem_map]
    constructor
    · rintro ⟨message, hmessage, rfl⟩
      obtain ⟨key, entry, hentry, hpath, -⟩ := hroot.sound message hmessage
      exact ⟨(key, entry), hentry, hpath⟩
    · rintro ⟨⟨key, entry⟩, hentry, rfl⟩
      obtain ⟨node, hnode⟩ := hroot.complete hentry (List.nil_append _).symm
      exact ⟨_, hnode, rfl⟩
  rw [← Node.length_messages, Catalog.size]
  simpa using hperm.length_eq

namespace Group

/-- Documents that pass all checks are the source of a namespace. -/
theorem follows_of_check {documents : List (String × Json)} (hdocuments : Addressable documents)
    (hlocales : (Keyed.keys documents).Nodup) {expected : List String}
    (hexpected : ∀ locale, locale ∈ Keyed.keys documents ↔ locale ∈ expected) {defaultLocale : String}
    (hdefault : defaultLocale ∈ expected)
    (hrecords : ∀ document ∈ documents, repeatedKey? (Record.ofDocument document.2) = none)
    (hcheck : Completeness.check expected defaultLocale (.gather (recordsOf documents)) = .ok ())
    (group : String) :
    ∃ document, Source.Follows ⟨.gather (recordsOf documents), group, defaultLocale⟩ documents document := by
  obtain ⟨⟨_, document⟩, hmem, rfl⟩ := List.mem_map.mp ((hexpected _).mpr hdefault)
  have hin : ∀ document ∈ documents, document.1 ∈ expected := fun document hdocument =>
    (hexpected _).mp (List.mem_map_of_mem (f := (·.1)) hdocument)
  refine ⟨document, hmem, hdocuments, Catalog.keys_gather_nodup _, ?_, ?_⟩
  · intro key entry hentry
    exact covers_of_mem_entries hdocuments hlocales hrecords hin hdefault hcheck hentry
  · intro path value hreach hvalue
    obtain ⟨entry, hentry⟩ := exists_entry_of_reaches hmem hreach hvalue
    have hcovers := covers_of_mem_entries hdocuments hlocales hrecords hin hdefault hcheck hentry
    refine ⟨entry, hentry, ?_⟩
    exact (Path.display_injective ((hdocuments.plain _ hmem).plain hreach) hcovers.plain
      (keyed_of_reaches (hdocuments.object _ hmem) hreach hvalue) hcovers.keyed hcovers.display).symm

/-- The namespace of a complete group leads to every message, and has as many messages as the catalog. -/
theorem buildNamespace_mirrors_catalog {documents : List (String × Json)} (hdocuments : Addressable documents)
    (hlocales : (Keyed.keys documents).Nodup) {expected : List String}
    (hexpected : ∀ locale, locale ∈ Keyed.keys documents ↔ locale ∈ expected) {defaultLocale : String}
    (hdefault : defaultLocale ∈ expected) {analysis : Analysis} (hanalysis : analyze documents = .ok analysis)
    (hcheck : Completeness.check expected defaultLocale analysis.catalog = .ok ()) (group : String) :
    ∃ root, buildNamespace group defaultLocale analysis.catalog = .ok root ∧
      (∀ key entry, (key, entry) ∈ analysis.catalog.entries →
        ∃ node, root.walk? entry.path = some node ∧ node.IsFor group key entry) ∧
      root.size = analysis.catalog.size := by
  obtain ⟨hrecords, rfl⟩ := (analyze_eq_ok_iff documents analysis).mp hanalysis
  obtain ⟨document, hfollows⟩ :=
    follows_of_check hdocuments hlocales hexpected hdefault hrecords hcheck group
  obtain ⟨root, hbuild, hroot⟩ := hfollows.exists_build
  refine ⟨root, ?_, fun key entry hentry => hroot.exists_walk? hfollows hentry, hroot.size_eq hfollows⟩
  rw [buildNamespace, Outcome.mapError_eq_ok_iff]
  exact hbuild

def listDocuments : List (String × Json) :=
  [ ("es", .object [("l", .array [.string "u", .object [("c", .string "v")]])]),
    ("en", .object [("l", .array [.string "x", .object [("c", .string "y")]])]) ]

theorem buildNamespace_mirrors_catalog_list :
    ∃ analysis,
      analyze listDocuments = .ok analysis ∧ Completeness.check ["en", "es"] "en" analysis.catalog = .ok () ∧
        ∃ root, buildNamespace "shop" "en" analysis.catalog = .ok root ∧
          (∀ key entry, (key, entry) ∈ analysis.catalog.entries →
            ∃ node, root.walk? entry.path = some node ∧ node.IsFor "shop" key entry) ∧
          root.size = analysis.catalog.size := by
  have hdocuments : Addressable listDocuments := by
    refine ⟨by decide, ?_, ?_⟩
    · simp [listDocuments, Json.Tidy, Json.throughout_object_iff, Json.throughout_array_iff, Keyed.keys,
        Json.throughout_string]
    · simp [listDocuments, PlainNames, Json.throughout_object_iff, Json.throughout_array_iff, Keyed.keys,
        Json.throughout_string, PlainName, startsStep]
  have hexpected (locale : String) : locale ∈ Keyed.keys listDocuments ↔ locale ∈ ["en", "es"] := by
    simp [listDocuments, Keyed.keys, or_comm]
  have hanalysis := (analyze_eq_ok_iff listDocuments _).mpr ⟨by decide, rfl⟩
  have hcheck : Completeness.check ["en", "es"] "en" (.gather (recordsOf listDocuments)) = .ok () := by
    decide +kernel
  refine ⟨_, hanalysis, hcheck, ?_⟩
  exact buildNamespace_mirrors_catalog hdocuments (by decide) hexpected (by decide) hanalysis hcheck "shop"

end Group

end Phrasebook
