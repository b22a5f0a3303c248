import Phrasebook.Message.Record

/-! # Catalogs

A catalog merges the records of all locales: one entry per displayed path, in the order in which paths first
appear, holding the value of every locale that has one. The place of a path is that of its first record; a
path is an array root when it is one in any locale.
-/

namespace Phrasebook.Message

/-- What the locales say at one path. -/
structure Entry where
  path : Path
  params : List String
  isArrayRoot : Bool
  item : Option ItemRef
  /-- The values by locale, in the order in which the locales were gathered. -/
  values : Keyed Json
deriving Repr

namespace Entry

/-- The entry of a path that no record has reached yet. -/
def start (record : Record) : Entry :=
  { path := record.path
    params := []
    isArrayRoot := record.isArrayRoot
    item := record.item
    values := [] }

def absorb (entry : Entry) (locale : String) (record : Record) : Entry :=
  { entry with
    params := Template.addNames entry.params record.params
    isArrayRoot := entry.isArrayRoot || record.isArrayRoot
    values := entry.values.put locale record.value }

def value? (entry : Entry) (locale : String) : Option Json := entry.values.get? locale

end Entry

structure Catalog where
  locales : List String
  entries : Keyed Entry
deriving Repr

namespace Catalog

def empty : Catalog := ⟨[], []⟩

def get? (catalog : Catalog) (path : String) : Option Entry := catalog.entries.get? path

def size (catalog : Catalog) : Nat := catalog.entries.length

def addRecord (locale : String) (catalog : Catalog) (record : Record) : Catalog :=
  { catalog with
    entries := catalog.entries.alter record.key fun present =>
      (present.getD (.start record)).absorb locale record }

def addLocale (catalog : Catalog) (locale : String) (records : List Record) : Catalog :=
  records.foldl (addRecord locale)
    { catalog with
      locales := if catalog.locales.contains locale then catalog.locales
        else catalog.locales ++ [locale] }

/-- The catalog of the records of all locales, in the given order. -/
def gather (records : List (String × List Record)) : Catalog :=
  records.foldl (fun catalog (locale, rs) => catalog.addLocale locale rs) empty

end Catalog

end Phrasebook.Message
