import Phrasebook.Proofs.Completeness
import Phrasebook.Proofs.Group.Analysis
import Phrasebook.Proofs.Message.Summary

/-! # What is reported about incomplete groups

The check of a catalog that is gathered from documents names the first configured locale without a document.
When all have one, it lists every path that a configured locale lacks, and when none lacks any, every value that
is an array where the default locale's is none, or the reverse. Otherwise it accepts.
-/

namespace Phrasebook

open Message

def Message.Catalog.value? (catalog : Catalog) (path locale : String) : Option Json :=
  (catalog.get? path).bind fun entry => entry.value? locale

namespace Completeness

def FirstWithout (documents : List (String × Json)) (locales : List String) (locale : String) : Prop :=
  locale ∉ Keyed.keys documents ∧ ∃ before after, locales = before ++ locale :: after ∧
    ∀ other ∈ before, other ∈ Keyed.keys documents

def Present (documents : List (String × Json)) (locales : List String) : Prop :=
  ∀ locale ∈ locales, locale ∈ Keyed.keys documents

def Full (catalog : Catalog) (locales : List String) : Prop :=
  ∀ locale ∈ locales, ∀ path ∈ Keyed.keys catalog.entries, (catalog.value? path locale).isSome = true

/-- The values of a path are arrays in all configured locales or in none. -/
def Uniform (catalog : Catalog) (locales : List String) : Prop :=
  ∀ path, ∀ first ∈ locales, ∀ second ∈ locales, ∀ value other,
    catalog.value? path first = some value → catalog.value? path second = some other →
      value.isArray = other.isArray

/-- Every configured locale with every path that it lacks, each once, in order. -/
structure ListsGaps (catalog : Catalog) (locales : List String) (gaps : List Gap) : Prop where
  pairs : ∀ locale path, (∃ gap ∈ gaps, gap.locale = locale ∧ path ∈ gap.paths) ↔
    locale ∈ locales ∧ path ∈ Keyed.keys catalog.entries ∧ catalog.value? path locale = none
  once : (gaps.flatMap fun gap => gap.paths.map fun path => (gap.locale, path)).Nodup
  locales : (gaps.map Gap.locale).Sublist locales
  paths : ∀ gap ∈ gaps, gap.paths ≠ [] ∧ gap.paths.Sublist (Keyed.keys catalog.entries)

/-- Every path with every configured locale whose value differs in kind from that of the default locale, each
once. -/
structure ListsMismatches (catalog : Catalog) (locales : List String) (defaultLocale : String)
    (mismatches : List Mismatch) : Prop where
  pairs : ∀ path locale, (∃ mismatch ∈ mismatches, mismatch.path = path ∧ mismatch.locale = locale) ↔
    locale ∈ locales ∧ ∃ expected found, catalog.value? path defaultLocale = some expected ∧
      catalog.value? path locale = some found ∧ found.isArray ≠ expected.isArray
  once : (mismatches.map fun mismatch => (mismatch.path, mismatch.locale)).Nodup
  kinds : ∀ mismatch ∈ mismatches,
    (catalog.value? mismatch.path defaultLocale).map Json.kind = some mismatch.expected ∧
      (catalog.value? mismatch.path mismatch.locale).map Json.kind = some mismatch.found

/-- When the check comes to which result, for a catalog of documents, and what it then tells. -/
structure Exact (documents : List (String × Json)) (catalog : Catalog) (locales : List String)
    (defaultLocale : String) : Prop where
  value : ∀ path locale, (catalog.value? path locale).isSome = true ↔
    ∃ document, (locale, document) ∈ documents ∧ ∃ record ∈ Record.ofDocument document, record.key = path
  missingLocale : ∀ locale expected found,
    check locales defaultLocale catalog = .error (.missingLocale locale expected found) ↔
      FirstWithout documents locales locale ∧ expected = locales ∧ found = catalog.locales
  missingMessages : (∃ gaps, check locales defaultLocale catalog = .error (.missingMessages gaps)) ↔
    Present documents locales ∧ ¬Full catalog locales
  gaps : ∀ gaps, check locales defaultLocale catalog = .error (.missingMessages gaps) →
    ListsGaps catalog locales gaps
  kindMismatches : (∃ mismatches, check locales defaultLocale catalog = .error (.kindMismatches mismatches)) ↔
    Present documents locales ∧ Full catalog locales ∧ ¬Uniform catalog locales
  mismatches : ∀ mismatches, check locales defaultLocale catalog = .error (.kindMismatches mismatches) →
    ListsMismatches catalog locales defaultLocale mismatches
  ok : check locales defaultLocale catalog = .ok () ↔
    Present documents locales ∧ Full catalog locales ∧ Uniform catalog locales

section Phases

variable {locales : List String} {defaultLocale : String} {catalog : Catalog}

theorem check_eq_missingLocale_iff (locale : String) (expected found : List String) :
    check locales defaultLocale catalog = .error (.missingLocale locale expected found) ↔
      missingLocale? locales catalog = some locale ∧ expected = locales ∧ found = catalog.locales := by
  rw [check]
  cases missingLocale? locales catalog with
  | some first => simp [eq_comm]
  | none =>
    cases gaps locales catalog with
    | cons gap rest => simp
    | nil => cases mismatches locales defaultLocale catalog <;> simp

theorem check_eq_missingMessages_iff (listed : List Gap) :
    check locales defaultLocale catalog = .error (.missingMessages listed) ↔
      missingLocale? locales catalog = none ∧ gaps locales catalog = listed ∧ listed ≠ [] := by
  rw [check]
  cases missingLocale? locales catalog with
  | some first => simp
  | none =>
    cases gaps locales catalog with
    | cons gap rest => simpa using fun h => h ▸ List.cons_ne_nil gap rest
    | nil => cases mismatches locales defaultLocale catalog <;> simp [eq_comm]

theorem check_eq_kindMismatches_iff (listed : List Mismatch) :
    check locales defaultLocale catalog = .error (.kindMismatches listed) ↔
      missingLocale? locales catalog = none ∧ gaps locales catalog = [] ∧
        mismatches locales defaultLocale catalog = listed ∧ listed ≠ [] := by
  rw [check]
  cases missingLocale? locales catalog with
  | some first => simp
  | none =>
    cases gaps locales catalog with
    | cons gap rest => simp
    | nil =>
      cases mismatches locales defaultLocale catalog with
      | cons mismatch rest => simpa using fun h => h ▸ List.cons_ne_nil mismatch rest
      | nil => simp [eq_comm]

end Phases

section Lists

variable {locales : List String} {defaultLocale : String} {catalog : Catalog}

theorem value?_of_mem (hkeys : (Keyed.keys catalog.entries).Nodup) {path : String} {entry : Entry}
    (hentry : (path, entry) ∈ catalog.entries) (locale : String) :
    catalog.value? path locale = entry.value? locale := by
  rw [Catalog.value?, Catalog.get?, (Keyed.get?_eq_some_iff hkeys path entry).mpr hentry]
  rfl

theorem exists_entry_of_value? {path locale : String} {value : Json}
    (h : catalog.value? path locale = some value) :
    ∃ entry, (path, entry) ∈ catalog.entries ∧ entry.value? locale = some value := by
  obtain ⟨entry, hentry, hvalue⟩ := Option.bind_eq_some_iff.mp h
  exact ⟨entry, Keyed.mem_of_get? hentry, hvalue⟩

theorem mem_missingPaths_iff (hkeys : (Keyed.keys catalog.entries).Nodup) (locale path : String) :
    path ∈ missingPaths catalog locale ↔
      path ∈ Keyed.keys catalog.entries ∧ catalog.value? path locale = none := by
  have hlacks (entry : Entry) : (!entry.values.has locale) = true ↔ entry.value? locale = none := by
    rw [Keyed.has, Entry.value?, Bool.not_eq_true', Option.isSome_eq_false_iff, Option.isNone_iff_eq_none]
  constructor
  · intro h
    obtain ⟨⟨_, entry⟩, hmem, rfl⟩ := List.mem_map.mp h
    obtain ⟨hentry, hmissing⟩ := List.mem_filter.mp hmem
    exact ⟨List.mem_map_of_mem hentry, by rw [value?_of_mem hkeys hentry, (hlacks entry).mp hmissing]⟩
  · rintro ⟨hpath, hnone⟩
    obtain ⟨⟨_, entry⟩, hentry, rfl⟩ := List.mem_map.mp hpath
    rw [value?_of_mem hkeys hentry] at hnone
    exact List.mem_map.mpr ⟨_, List.mem_filter.mpr ⟨hentry, (hlacks entry).mpr hnone⟩, rfl⟩

theorem missingPaths_sublist (catalog : Catalog) (locale : String) :
    (missingPaths catalog locale).Sublist (Keyed.keys catalog.entries) :=
  List.filter_sublist.map _

theorem mem_gaps_iff (gap : Gap) : gap ∈ gaps locales catalog ↔
    gap.locale ∈ locales ∧ gap.paths = missingPaths catalog gap.locale ∧ gap.paths ≠ [] := by
  rw [gaps, List.mem_filter, List.mem_map, Bool.not_eq_true', List.isEmpty_eq_false_iff]
  constructor
  · rintro ⟨⟨locale, hlocale, rfl⟩, hsome⟩
    exact ⟨hlocale, rfl, hsome⟩
  · rintro ⟨hlocale, hpaths, hsome⟩
    exact ⟨⟨gap.locale, hlocale, by rw [← hpaths]⟩, hsome⟩

theorem gaps_sublist : ((gaps locales catalog).map Gap.locale).Sublist locales := by
  have hlocales : (locales.map fun locale => (⟨locale, missingPaths catalog locale⟩ : Gap)).map Gap.locale =
      locales := by
    simp [Function.comp_def]
  have hsublist := (List.filter_sublist (p := fun gap : Gap => !gap.paths.isEmpty)
    (l := locales.map fun locale => ⟨locale, missingPaths catalog locale⟩)).map Gap.locale
  rwa [hlocales] at hsublist

theorem listsGaps_gaps (hkeys : (Keyed.keys catalog.entries).Nodup) (hlocales : locales.Nodup) :
    ListsGaps catalog locales (gaps locales catalog) := by
  refine ⟨fun locale path => ⟨?_, ?_⟩, ?_, gaps_sublist, fun gap hgap => ?_⟩
  · rintro ⟨gap, hgap, rfl, hpath⟩
    obtain ⟨hlocale, hpaths, -⟩ := (mem_gaps_iff gap).mp hgap
    rw [hpaths, mem_missingPaths_iff hkeys] at hpath
    exact ⟨hlocale, hpath⟩
  · rintro ⟨hlocale, hmissing⟩
    have hpath := (mem_missingPaths_iff hkeys locale path).mpr hmissing
    exact ⟨⟨locale, missingPaths catalog locale⟩,
      (mem_gaps_iff _).mpr ⟨hlocale, rfl, List.ne_nil_of_mem hpath⟩, rfl, hpath⟩
  · rw [List.nodup_flatMap]
    constructor
    · intro gap hgap
      rw [((mem_gaps_iff gap).mp hgap).2.1]
      exact ((missingPaths_sublist catalog gap.locale).nodup hkeys).map fun _ _ heq => (Prod.mk.inj heq).2
    · refine (List.pairwise_map.mp (gaps_sublist.nodup hlocales)).imp fun hne => ?_
      rw [Function.onFun_apply, List.disjoint_left]
      intro pair hpair hpair'
      obtain ⟨_, -, rfl⟩ := List.mem_map.mp hpair
      obtain ⟨_, -, heq⟩ := List.mem_map.mp hpair'
      exact hne (Prod.mk.inj heq).1.symm
  · obtain ⟨-, hpaths, hsome⟩ := (mem_gaps_iff gap).mp hgap
    exact ⟨hsome, hpaths ▸ missingPaths_sublist catalog gap.locale⟩

theorem gaps_eq_nil_iff_full (hkeys : (Keyed.keys catalog.entries).Nodup) :
    gaps locales catalog = [] ↔ Full catalog locales := by
  rw [gaps_eq_nil_iff]
  constructor
  · intro h locale hlocale path hpath
    obtain ⟨⟨_, entry⟩, hentry, rfl⟩ := List.mem_map.mp hpath
    rw [value?_of_mem hkeys hentry]
    exact h locale hlocale _ hentry
  · rintro h locale hlocale ⟨path, entry⟩ hentry
    have hsome := h locale hlocale path (List.mem_map_of_mem hentry)
    rw [value?_of_mem hkeys hentry] at hsome
    exact hsome

def IsMismatch (catalog : Catalog) (defaultLocale : String) (mismatch : Mismatch) : Prop :=
  ∃ expected found, catalog.value? mismatch.path defaultLocale = some expected ∧
    catalog.value? mismatch.path mismatch.locale = some found ∧ found.isArray ≠ expected.isArray ∧
    mismatch.expected = expected.kind ∧ mismatch.found = found.kind

theorem mem_entryMismatches_iff {path : String} {entry : Entry} (mismatch : Mismatch) :
    mismatch ∈ entryMismatches locales defaultLocale path entry ↔
      mismatch.path = path ∧ mismatch.locale ∈ locales ∧ ∃ expected found,
        entry.value? defaultLocale = some expected ∧ entry.value? mismatch.locale = some found ∧
        found.isArray ≠ expected.isArray ∧ mismatch.expected = expected.kind ∧ mismatch.found = found.kind := by
  rw [entryMismatches]
  cases hexpected : entry.value? defaultLocale with
  | none => simp
  | some expected =>
    simp only [List.mem_filterMap, List.mem_filter, decide_eq_true_eq]
    constructor
    · rintro ⟨locale, ⟨hlocale, -⟩, hmismatch⟩
      split at hmismatch
      · cases hmismatch
      · rename_i found hfound
        split at hmismatch
        · cases hmismatch
        · rename_i hkind
          cases hmismatch
          exact ⟨rfl, hlocale, expected, found, rfl, hfound, hkind, rfl, rfl⟩
    · rintro ⟨rfl, hlocale, _, found, ⟨⟩, hfound, hkind, hexp, hfnd⟩
      refine ⟨mismatch.locale, ⟨hlocale, ?_⟩, ?_⟩
      · rintro heq
        rw [heq, hexpected] at hfound
        cases hfound
        exact hkind rfl
      · rw [hfound]
        dsimp only
        rw [if_neg hkind, ← hexp, ← hfnd]

theorem mem_mismatches_iff (hkeys : (Keyed.keys catalog.entries).Nodup) (mismatch : Mismatch) :
    mismatch ∈ mismatches locales defaultLocale catalog ↔
      mismatch.locale ∈ locales ∧ IsMismatch catalog defaultLocale mismatch := by
  rw [mismatches, List.mem_flatMap]
  constructor
  · rintro ⟨⟨path, entry⟩, hentry, hmem⟩
    obtain ⟨rfl, hlocale, expected, found, hexpected, hfound, hkinds⟩ := (mem_entryMismatches_iff mismatch).mp hmem
    refine ⟨hlocale, expected, found, ?_, ?_, hkinds⟩
    · rw [value?_of_mem hkeys hentry, hexpected]
    · rw [value?_of_mem hkeys hentry, hfound]
  · rintro ⟨hlocale, expected, found, hexpected, hfound, hkinds⟩
    obtain ⟨entry, hentry, hvalue⟩ := exists_entry_of_value? hexpected
    rw [value?_of_mem hkeys hentry] at hfound
    exact ⟨_, hentry, (mem_entryMismatches_iff mismatch).mpr
      ⟨rfl, hlocale, expected, found, hvalue, hfound, hkinds⟩⟩

theorem map_filterMap_sublist {α β γ : Type} {choose : α → Option β} {name : β → γ} {nameBefore : α → γ}
    (h : ∀ x y, choose x = some y → name y = nameBefore x) (xs : List α) :
    ((xs.filterMap choose).map name).Sublist (xs.map nameBefore) := by
  induction xs with
  | nil => exact List.Sublist.refl _
  | cons x rest ih =>
    rw [List.filterMap_cons, List.map_cons]
    split
    · exact ih.cons _
    · rename_i y hy
      rw [List.map_cons, h x y hy]
      exact ih.cons_cons _

theorem pairs_entryMismatches_sublist (path : String) (entry : Entry) :
    ((entryMismatches locales defaultLocale path entry).map fun mismatch => (mismatch.path, mismatch.locale)).Sublist
      (locales.map fun locale => (path, locale)) := by
  rw [entryMismatches]
  split
  · exact List.nil_sublist _
  · refine (map_filterMap_sublist ?_ _).trans (List.filter_sublist.map _)
    intro locale mismatch hmismatch
    split at hmismatch
    · cases hmismatch
    · split at hmismatch
      · cases hmismatch
      · cases hmismatch
        rfl

theorem listsMismatches_mismatches (hkeys : (Keyed.keys catalog.entries).Nodup) (hlocales : locales.Nodup) :
    ListsMismatches catalog locales defaultLocale (mismatches locales defaultLocale catalog) := by
  refine ⟨fun path locale => ⟨?_, ?_⟩, ?_, fun mismatch hmismatch => ?_⟩
  · rintro ⟨mismatch, hmismatch, rfl, rfl⟩
    obtain ⟨hlocale, expected, found, hexpected, hfound, hkind, -⟩ := (mem_mismatches_iff hkeys mismatch).mp hmismatch
    exact ⟨hlocale, expected, found, hexpected, hfound, hkind⟩
  · rintro ⟨hlocale, expected, found, hexpected, hfound, hkind⟩
    exact ⟨⟨path, locale, expected.kind, found.kind⟩,
      (mem_mismatches_iff hkeys _).mpr ⟨hlocale, expected, found, hexpected, hfound, hkind, rfl, rfl⟩, rfl, rfl⟩
  · rw [mismatches, List.map_flatMap, List.nodup_flatMap]
    constructor
    · rintro ⟨path, entry⟩ -
      exact (pairs_entryMismatches_sublist path entry).nodup (hlocales.map fun _ _ heq => (Prod.mk.inj heq).2)
    · refine (List.pairwise_map.mp hkeys).imp fun hne => ?_
      rw [Function.onFun_apply, List.disjoint_left]
      intro pair hpair hpair'
      obtain ⟨_, -, rfl⟩ := List.mem_map.mp ((pairs_entryMismatches_sublist _ _).subset hpair)
      obtain ⟨_, -, heq⟩ := List.mem_map.mp ((pairs_entryMismatches_sublist _ _).subset hpair')
      exact hne (Prod.mk.inj heq).1.symm
  · obtain ⟨-, expected, found, hexpected, hfound, -, hexpectedKind, hfoundKind⟩ :=
      (mem_mismatches_iff hkeys mismatch).mp hmismatch
    rw [hexpected, hfound, hexpectedKind, hfoundKind]
    exact ⟨rfl, rfl⟩

/-- Agreement with the default locale is agreement of all locales. -/
theorem mismatches_eq_nil_iff_uniform (hkeys : (Keyed.keys catalog.entries).Nodup) (hdefault : defaultLocale ∈ locales)
    (hfull : Full catalog locales) : mismatches locales defaultLocale catalog = [] ↔ Uniform catalog locales := by
  rw [List.eq_nil_iff_forall_not_mem]
  constructor
  · intro h path first hfirst second hsecond value other hvalue hother
    obtain ⟨entry, hentry, -⟩ := exists_entry_of_value? hvalue
    obtain ⟨expected, hexpected⟩ := Option.isSome_iff_exists.mp
      (hfull defaultLocale hdefault path (List.mem_map_of_mem hentry))
    have hagrees {locale : String} {found : Json} (hlocale : locale ∈ locales)
        (hfound : catalog.value? path locale = some found) : found.isArray = expected.isArray := by
      by_contra hkind
      exact h ⟨path, locale, expected.kind, found.kind⟩ ((mem_mismatches_iff hkeys _).mpr
        ⟨hlocale, expected, found, hexpected, hfound, hkind, rfl, rfl⟩)
    rw [hagrees hfirst hvalue, hagrees hsecond hother]
  · intro h mismatch hmismatch
    obtain ⟨hlocale, expected, found, hexpected, hfound, hkind, -⟩ := (mem_mismatches_iff hkeys mismatch).mp hmismatch
    exact hkind (h mismatch.path _ hlocale _ hdefault found expected hfound hexpected)

end Lists

section Documents

variable {documents : List (String × Json)} {locales : List String} {defaultLocale : String}

theorem mem_locales_gather (records : List (String × List Record)) (locale : String) :
    locale ∈ (Catalog.gather records).locales ↔ locale ∈ records.map (·.1) := by
  rw [Catalog.locales_gather_eq_summary, Catalog.summary, List.mem_eraseDups]

theorem mem_locales_documents (documents : List (String × Json)) (locale : String) :
    locale ∈ (Catalog.gather (Group.recordsOf documents)).locales ↔ locale ∈ Keyed.keys documents := by
  rw [mem_locales_gather, Group.recordsOf, List.map_map]
  rfl

theorem keys_foldl_put (cs : List (String × Record)) (values : Keyed Json) (locale : String) :
    locale ∈ (cs.foldl (fun values c => values.put c.1 c.2.value) values).keys ↔
      locale ∈ values.keys ∨ ∃ c ∈ cs, c.1 = locale := by
  rw [keys_foldl_put_eq_addNames, Template.mem_addNames, List.mem_map]

theorem isSome_value?_gather (documents : List (String × Json)) (path locale : String) :
    ((Catalog.gather (Group.recordsOf documents)).value? path locale).isSome = true ↔
      ∃ document, (locale, document) ∈ documents ∧ ∃ record ∈ Record.ofDocument document, record.key = path := by
  have hkeys := Catalog.keys_gather_nodup (Group.recordsOf documents)
  constructor
  · intro h
    obtain ⟨value, hvalue⟩ := Option.isSome_iff_exists.mp h
    obtain ⟨entry, hentry, hvalue⟩ := exists_entry_of_value? hvalue
    obtain ⟨first, rest, hfilter, rfl⟩ := (Catalog.mem_gather_iff _ _ _).mp hentry
    have hlocale := List.mem_map_of_mem (f := (·.1)) (Keyed.mem_of_get? hvalue)
    rw [Entry.ofRecords, ← hfilter] at hlocale
    obtain ⟨⟨_, record⟩, hmem, rfl⟩ := ((keys_foldl_put _ _ _).mp hlocale).resolve_left List.not_mem_nil
    obtain ⟨hmem, hkey⟩ := List.mem_filter.mp hmem
    obtain ⟨document, hdocument, hrecord⟩ := Group.mem_contributions_recordsOf.mp hmem
    exact ⟨document, hdocument, record, hrecord, of_decide_eq_true hkey⟩
  · rintro ⟨document, hdocument, record, hrecord, hkey⟩
    have hmem : (locale, record) ∈ (contributions (Group.recordsOf documents)).filter fun c => c.2.key = path :=
      List.mem_filter.mpr ⟨Group.mem_contributions_recordsOf.mpr ⟨document, hdocument, hrecord⟩, decide_eq_true hkey⟩
    obtain ⟨first, rest, hfilter⟩ := List.exists_cons_of_ne_nil (List.ne_nil_of_mem hmem)
    have hentry := (Catalog.mem_gather_iff _ path _).mpr ⟨first, rest, hfilter, rfl⟩
    rw [value?_of_mem hkeys hentry, Entry.ofRecords, ← hfilter]
    exact (Keyed.has_iff _ _).mpr ((keys_foldl_put _ _ _).mpr (.inr ⟨_, hmem, rfl⟩))

theorem missingLocale?_eq_some_iff (locale : String) :
    missingLocale? locales (.gather (Group.recordsOf documents)) = some locale ↔
      FirstWithout documents locales locale := by
  rw [missingLocale?, List.find?_eq_some_iff_append, FirstWithout]
  simp only [Bool.not_not, List.contains_iff_mem, mem_locales_documents, Bool.not_eq_true', ← Bool.not_eq_true]

theorem missingLocale?_eq_none_iff :
    missingLocale? locales (.gather (Group.recordsOf documents)) = none ↔ Present documents locales := by
  rw [missingLocale?, List.find?_eq_none]
  simp only [Bool.not_eq_true', Bool.not_eq_false, List.contains_iff_mem, mem_locales_documents, Present]

/-- The check of a catalog gathered from documents reports exactly what is missing. -/
theorem check_reports_exactly (documents : List (String × Json)) {locales : List String} (hlocales : locales.Nodup)
    {defaultLocale : String} (hdefault : defaultLocale ∈ locales) :
    Exact documents (.gather (Group.recordsOf documents)) locales defaultLocale := by
  have hkeys := Catalog.keys_gather_nodup (Group.recordsOf documents)
  have hfull : gaps locales (.gather (Group.recordsOf documents)) = [] ↔ Full _ locales :=
    gaps_eq_nil_iff_full hkeys
  refine ⟨isSome_value?_gather documents, fun locale expected found => ?_, ?_, fun listed h => ?_, ?_,
    fun listed h => ?_, ?_⟩
  · rw [check_eq_missingLocale_iff, missingLocale?_eq_some_iff]
  · simp only [check_eq_missingMessages_iff, missingLocale?_eq_none_iff, ← hfull]
    constructor
    · rintro ⟨listed, hpresent, rfl, hsome⟩
      exact ⟨hpresent, hsome⟩
    · rintro ⟨hpresent, hsome⟩
      exact ⟨_, hpresent, rfl, hsome⟩
  · obtain ⟨-, rfl, -⟩ := (check_eq_missingMessages_iff listed).mp h
    exact listsGaps_gaps hkeys hlocales
  · simp only [check_eq_kindMismatches_iff, missingLocale?_eq_none_iff, hfull]
    constructor
    · rintro ⟨listed, hpresent, hcomplete, rfl, hsome⟩
      exact ⟨hpresent, hcomplete, mt (mismatches_eq_nil_iff_uniform hkeys hdefault hcomplete).mpr hsome⟩
    · rintro ⟨hpresent, hcomplete, hkinds⟩
      exact ⟨_, hpresent, hcomplete, rfl, mt (mismatches_eq_nil_iff_uniform hkeys hdefault hcomplete).mp hkinds⟩
  · obtain ⟨-, -, rfl, -⟩ := (check_eq_kindMismatches_iff listed).mp h
    exact listsMismatches_mismatches hkeys hlocales
  · rw [check_eq_ok_iff, missingLocale?_eq_none_iff, hfull]
    exact and_congr_right fun _ => and_congr_right fun hcomplete =>
      mismatches_eq_nil_iff_uniform hkeys hdefault hcomplete

/-- Two locales that differ in kind at one path, and a third that is not configured. -/
def unevenKinds : List (String × Json) :=
  [ ("es", .object [("a", .array [])]), ("en", .object [("a", .string "x")]), ("fr", .object [("b", .string "y")]) ]

theorem check_reports_exactly_kinds :
    ["en", "es"].Nodup ∧ "en" ∈ ["en", "es"] ∧
      Exact unevenKinds (.gather (Group.recordsOf unevenKinds)) ["en", "es"] "en" ∧
      check ["en", "es"] "en" (.gather (Group.recordsOf unevenKinds)) =
        .error (.missingMessages [⟨"en", ["b"]⟩, ⟨"es", ["b"]⟩]) :=
  ⟨by decide, by decide, check_reports_exactly _ (by decide) (by decide), by decide +kernel⟩

end Documents

end Completeness

end Phrasebook
