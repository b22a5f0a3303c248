import Phrasebook.Message.Catalog

/-! # Completeness of a catalog

A group is complete when every configured locale has a document, every message has a value in every
configured locale, and each message is an array in all of them or in none. The three conditions are checked
in this order; all gaps, and all differences of kind, are reported together.
-/

namespace Phrasebook.Completeness

open Message

/-- The paths that a locale lacks. -/
structure Gap where
  locale : String
  paths : List String
deriving Repr, DecidableEq

/-- A value whose kind differs from that of the default locale. -/
structure Mismatch where
  path : String
  locale : String
  expected : Json.Kind
  found : Json.Kind
deriving Repr, DecidableEq

inductive Failure where
  | missingLocale (locale : String) (expected found : List String)
  | missingMessages (gaps : List Gap)
  | kindMismatches (mismatches : List Mismatch)
deriving Repr, DecidableEq

/-- The first configured locale without a document. -/
def missingLocale? (locales : List String) (catalog : Catalog) : Option String :=
  locales.find? fun locale => !catalog.locales.contains locale

/-- The paths without a value in a locale, in catalog order. -/
def missingPaths (catalog : Catalog) (locale : String) : List String :=
  Keyed.keys (catalog.entries.filter fun (_, entry) => !entry.values.has locale)

def gaps (locales : List String) (catalog : Catalog) : List Gap :=
  (locales.map fun locale => ⟨locale, missingPaths catalog locale⟩).filter fun gap =>
    !gap.paths.isEmpty

/-- The values of one message that are arrays where the default locale's is none, or the reverse. -/
def entryMismatches (locales : List String) (defaultLocale path : String) (entry : Entry) :
    List Mismatch :=
  match entry.value? defaultLocale with
  | none => []
  | some expected =>
    (locales.filter (· ≠ defaultLocale)).filterMap fun locale =>
      match entry.value? locale with
      | none => none
      | some found =>
        if found.isArray = expected.isArray then none
        else some ⟨path, locale, expected.kind, found.kind⟩

def mismatches (locales : List String) (defaultLocale : String) (catalog : Catalog) :
    List Mismatch :=
  catalog.entries.flatMap fun (path, entry) => entryMismatches locales defaultLocale path entry

def check (locales : List String) (defaultLocale : String) (catalog : Catalog) :
    Except Failure Unit :=
  match missingLocale? locales catalog with
  | some locale => .error (.missingLocale locale locales catalog.locales)
  | none =>
    match gaps locales catalog with
    | gap :: rest => .error (.missingMessages (gap :: rest))
    | [] =>
      match mismatches locales defaultLocale catalog with
      | mismatch :: rest => .error (.kindMismatches (mismatch :: rest))
      | [] => .ok ()

end Phrasebook.Completeness
