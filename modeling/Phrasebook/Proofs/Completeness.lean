import Phrasebook.Completeness
import Phrasebook.Proofs.Keyed

/-! # What completeness says

The check accepts a catalog exactly when every configured locale has a document and a value for every message,
and all values of a message agree with that of the default locale in being arrays or not.
-/

namespace Phrasebook.Completeness

open Message

variable {locales : List String} {defaultLocale : String} {catalog : Catalog}

theorem missingPaths_eq_nil_iff (locale : String) :
    missingPaths catalog locale = [] ↔
      ∀ pair ∈ catalog.entries, pair.2.values.has locale = true := by
  simp [missingPaths, Keyed.keys]

theorem gaps_eq_nil_iff :
    gaps locales catalog = [] ↔
      ∀ locale ∈ locales, ∀ pair ∈ catalog.entries, pair.2.values.has locale = true := by
  simp only [gaps, List.filter_eq_nil_iff, List.forall_mem_map, ← missingPaths_eq_nil_iff]
  simp

theorem entryMismatches_eq_nil_iff (path : String) (entry : Entry) :
    entryMismatches locales defaultLocale path entry = [] ↔
      ∀ expected, entry.value? defaultLocale = some expected → ∀ locale ∈ locales, locale ≠ defaultLocale →
        ∀ found, entry.value? locale = some found → found.isArray = expected.isArray := by
  rw [entryMismatches]
  cases entry.value? defaultLocale with
  | none => simp
  | some expected =>
    simp only [List.filterMap_eq_nil_iff, List.mem_filter, decide_eq_true_eq, Option.some.injEq, forall_eq']
    constructor
    · intro h locale hlocale hne found hfound
      have hnone := h locale ⟨hlocale, hne⟩
      rw [hfound] at hnone
      by_contra hkind
      simp [hkind] at hnone
    · rintro h locale ⟨hlocale, hne⟩
      split
      · rfl
      · rename_i found hfound
        rw [if_pos (h locale hlocale hne found hfound)]

theorem mismatches_eq_nil_iff :
    mismatches locales defaultLocale catalog = [] ↔
      ∀ pair ∈ catalog.entries, entryMismatches locales defaultLocale pair.1 pair.2 = [] := by
  simp [mismatches, List.flatMap_eq_nil_iff]

theorem check_eq_ok_iff :
    check locales defaultLocale catalog = .ok () ↔
      missingLocale? locales catalog = none ∧ gaps locales catalog = [] ∧
        mismatches locales defaultLocale catalog = [] := by
  rw [check]
  cases missingLocale? locales catalog with
  | some locale => simp
  | none =>
    cases gaps locales catalog with
    | cons gap rest => simp
    | nil =>
      cases mismatches locales defaultLocale catalog with
      | cons mismatch rest => simp
      | nil => simp

/-- In a complete catalog every configured locale has a value for every message, and all of them are arrays
or none is. -/
theorem value_of_check (h : check locales defaultLocale catalog = .ok ())
    (hdefault : defaultLocale ∈ locales) {key : String} {entry : Entry}
    (hentry : (key, entry) ∈ catalog.entries) :
    ∃ expected, entry.value? defaultLocale = some expected ∧
      ∀ locale ∈ locales, ∃ found, entry.value? locale = some found ∧ found.isArray = expected.isArray := by
  obtain ⟨-, hgaps, hmismatches⟩ := check_eq_ok_iff.mp h
  have hvalue (locale : String) (hlocale : locale ∈ locales) : ∃ found, entry.value? locale = some found :=
    Option.isSome_iff_exists.mp (gaps_eq_nil_iff.mp hgaps locale hlocale _ hentry)
  obtain ⟨expected, hexpected⟩ := hvalue defaultLocale hdefault
  refine ⟨expected, hexpected, fun locale hlocale => ?_⟩
  by_cases heq : locale = defaultLocale
  · subst heq
    exact ⟨expected, hexpected, rfl⟩
  · obtain ⟨found, hfound⟩ := hvalue locale hlocale
    have hentries := (entryMismatches_eq_nil_iff key entry).mp (mismatches_eq_nil_iff.mp hmismatches _ hentry)
    exact ⟨found, hfound, hentries expected hexpected locale hlocale heq found hfound⟩

end Phrasebook.Completeness
