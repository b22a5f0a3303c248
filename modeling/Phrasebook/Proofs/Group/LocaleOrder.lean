import Phrasebook.Proofs.Accessor
import Phrasebook.Proofs.Group.Translations
import Phrasebook.Proofs.Message.SourceOrder

/-! # The order of the documents

Documents whose displayed paths can be read back are always analyzed. All records with one displayed path stand
at one place, so that an entry does not depend on which document comes first: in another order of the documents
the catalog has the same paths, and its entries say the same.
-/

namespace Phrasebook.Group

open Message
open Json (Reaches)

variable {documents first second : List (String × Json)}

theorem Addressable.repeatedKey?_eq_none (h : Addressable documents) :
    ∀ document ∈ documents, repeatedKey? (Record.ofDocument document.2) = none :=
  fun document hdocument => Record.repeatedKey?_ofDocument_eq_none (h.object document hdocument)
    (h.tidy document hdocument) (h.plain document hdocument)

theorem Addressable.perm (h : Addressable first) (hperm : first.Perm second) : Addressable second :=
  ⟨fun document hdocument => h.object document (hperm.mem_iff.mpr hdocument),
    fun document hdocument => h.tidy document (hperm.mem_iff.mpr hdocument),
    fun document hdocument => h.plain document (hperm.mem_iff.mpr hdocument)⟩

theorem found_perm (hperm : first.Perm second) (key : String) : (found first key).Perm (found second key) :=
  hperm.filterMap _

theorem mem_keys_gather_iff (h : Addressable documents) (key : String) :
    key ∈ Keyed.keys (Catalog.gather (recordsOf documents)).entries ↔ found documents key ≠ [] := by
  have hentry (entry : Entry) := Catalog.mem_gather_iff (recordsOf documents) key entry
  simp only [filter_contributions h.repeatedKey?_eq_none] at hentry
  constructor
  · intro hmem
    obtain ⟨⟨_, entry⟩, hpair, rfl⟩ := List.mem_map.mp hmem
    obtain ⟨record, rest, hfound, -⟩ := (hentry entry).mp hpair
    rw [hfound]
    exact List.cons_ne_nil record rest
  · intro hsome
    obtain ⟨record, rest, hfound⟩ := List.exists_cons_of_ne_nil hsome
    exact List.mem_map_of_mem (f := (·.1)) ((hentry _).mpr ⟨record, rest, hfound, rfl⟩)

theorem mem_params_iff (h : Addressable documents) {key : String} {entry : Entry}
    (hentry : (key, entry) ∈ (Catalog.gather (recordsOf documents)).entries) (name : String) :
    name ∈ entry.params ↔ ∃ c ∈ found documents key, name ∈ c.2.params := by
  obtain ⟨record, rest, hfilter, rfl⟩ := (Catalog.mem_gather_iff _ key entry).mp hentry
  rw [filter_contributions h.repeatedKey?_eq_none] at hfilter
  rw [Entry.ofRecords, ← hfilter, mem_foldl_addNames]
  simp

/-- Entries of one displayed path say the same, whatever the order of the documents. -/
theorem agrees_of_perm (hdocuments : Addressable first) (hlocales : (Keyed.keys first).Nodup)
    (hperm : first.Perm second) {key : String} {entry other : Entry}
    (hentry : (key, entry) ∈ (Catalog.gather (recordsOf first)).entries)
    (hother : (key, other) ∈ (Catalog.gather (recordsOf second)).entries) : entry.Agrees other := by
  have hsecond := hdocuments.perm hperm
  have hlocales' : (Keyed.keys second).Nodup := (hperm.map _).nodup_iff.mp hlocales
  have hfound := found_perm hperm key
  have hrecords := hdocuments.repeatedKey?_eq_none
  have hrecords' := hsecond.repeatedKey?_eq_none
  obtain ⟨hdisplay, hplain, hkeyed, hitem⟩ := place_of_mem_entries hdocuments hlocales hrecords hentry
  obtain ⟨hdisplay', hplain', hkeyed', hitem'⟩ := place_of_mem_entries hsecond hlocales' hrecords' hother
  have hpath : entry.path = other.path :=
    Path.display_injective hplain hplain' hkeyed hkeyed' (hdisplay.symm.trans hdisplay')
  obtain ⟨-, hroot, -⟩ := exists_found_of_mem_entries hlocales hrecords hentry
  obtain ⟨-, hroot', -⟩ := exists_found_of_mem_entries hlocales' hrecords' hother
  refine ⟨hpath, ?_, by rw [hitem, hitem', hpath], fun locale => Option.ext fun value => ?_, fun name => ?_⟩
  · rw [hroot, hroot', hfound.any_eq]
  · rw [value?_eq_some_iff hlocales hrecords hentry, value?_eq_some_iff hlocales' hrecords' hother]
    simp only [hfound.mem_iff]
  · rw [mem_params_iff hdocuments hentry, mem_params_iff hsecond hother]
    simp only [hfound.mem_iff]

/-- In another order of the documents, messages mean the same. -/
theorem analyze_perm (hdocuments : Addressable first) (hlocales : (Keyed.keys first).Nodup)
    (hperm : first.Perm second) :
    ∃ analysis other, analyze first = .ok analysis ∧ analyze second = .ok other ∧
      (∀ key, key ∈ Keyed.keys analysis.catalog.entries ↔ key ∈ Keyed.keys other.catalog.entries) ∧
      ∀ key entry entry', analysis.catalog.get? key = some entry → other.catalog.get? key = some entry' →
        entry.Agrees entry' ∧ ∀ defaultLocale lang params ambient,
          Accessor.call ⟨entry, defaultLocale⟩ lang params ambient =
            Accessor.call ⟨entry', defaultLocale⟩ lang params ambient := by
  have hsecond := hdocuments.perm hperm
  refine ⟨_, _, (analyze_eq_ok_iff first _).mpr ⟨hdocuments.repeatedKey?_eq_none, rfl⟩,
    (analyze_eq_ok_iff second _).mpr ⟨hsecond.repeatedKey?_eq_none, rfl⟩, fun key => ?_, ?_⟩
  · rw [mem_keys_gather_iff hdocuments, mem_keys_gather_iff hsecond, ne_eq, ne_eq, ← List.length_eq_zero_iff,
      ← List.length_eq_zero_iff, (found_perm hperm key).length_eq]
  · intro key entry entry' hentry hentry'
    have hagrees := agrees_of_perm hdocuments hlocales hperm (Keyed.mem_of_get? hentry) (Keyed.mem_of_get? hentry')
    exact ⟨hagrees, fun defaultLocale lang params ambient =>
      Accessor.call_congr hagrees defaultLocale lang params ambient⟩

/-- A message that is a list in one locale and a text in the other. -/
def mixedDocuments : List (String × Json) :=
  [("en", .object [("l", .array [.string "\x7bx\x7d"])]), ("es", .object [("l", .string "\x7by\x7d")])]

theorem analyze_perm_mixed :
    ∃ analysis other,
      Addressable mixedDocuments ∧ (Keyed.keys mixedDocuments).Nodup ∧
      mixedDocuments.Perm mixedDocuments.reverse ∧
      Keyed.keys mixedDocuments.reverse = ["es", "en"] ∧
      analyze mixedDocuments = .ok analysis ∧ analyze mixedDocuments.reverse = .ok other ∧
      (∀ key, key ∈ Keyed.keys analysis.catalog.entries ↔ key ∈ Keyed.keys other.catalog.entries) ∧
      ∀ key entry entry', analysis.catalog.get? key = some entry → other.catalog.get? key = some entry' →
        entry.Agrees entry' ∧ ∀ defaultLocale lang params ambient,
          Accessor.call ⟨entry, defaultLocale⟩ lang params ambient =
            Accessor.call ⟨entry', defaultLocale⟩ lang params ambient := by
  have hdocuments : Addressable mixedDocuments := by
    refine ⟨by decide, ?_, ?_⟩
    · simp [mixedDocuments, Json.Tidy, Json.throughout_object_iff, Json.throughout_array_iff, Keyed.keys,
        Json.throughout_string]
    · simp [mixedDocuments, PlainNames, Json.throughout_object_iff, Json.throughout_array_iff, Keyed.keys,
        Json.throughout_string, PlainName, startsStep]
  have hperm : mixedDocuments.Perm mixedDocuments.reverse := (List.reverse_perm _).symm
  obtain ⟨analysis, other, hrun⟩ := analyze_perm hdocuments (by decide) hperm
  exact ⟨analysis, other, hdocuments, by decide, hperm, by decide, hrun⟩

end Phrasebook.Group
