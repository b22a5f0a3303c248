import Phrasebook.Group.Problem
import Phrasebook.Namespace.Build
import Phrasebook.Script.GroupModule
import Phrasebook.Script.Index
import Phrasebook.Settings.Basic

/-! # Groups of messages

A group is the messages of one directory: a document per locale. Its analysis is the catalog of the
documents, which exists when no document spells a displayed path twice. Compiling a group checks its catalog
and its names and gives its module and its part of the index.
-/

namespace Phrasebook

open Message

structure Group where
  /-- The path of the directory below the messages directory, empty for that directory itself. -/
  path : String
  /-- The documents by locale, in the order of the settings. -/
  documents : List (String × Json)

namespace Group

/-- The name by which users see the group of a path. -/
def displayName (path : String) : String := if path.isEmpty then "(root)" else path

structure Analysis where
  catalog : Catalog
  /-- The number of records of each document. -/
  counts : List (String × Nat)

/-- The records of a document, none of which shares its displayed path with another one. -/
def records (locale : String) (document : Json) : Except Problem (List Record) :=
  match repeatedKey? (Record.ofDocument document) with
  | some path => .error (.ambiguousPath locale path)
  | none => .ok (Record.ofDocument document)

def analyze (documents : List (String × Json)) : Except Problem Analysis := do
  let all ← documents.mapM fun (locale, document) => do
    return (locale, ← records locale document)
  return {
    catalog := Catalog.gather all
    counts := all.map fun (locale, records) => (locale, records.length) }

def checkComplete (settings : Settings) (catalog : Catalog) : Except Problem Unit :=
  (Completeness.check settings.locales settings.defaultLocale catalog).mapError .incomplete

def functions (path : String) (catalog : Catalog) : List Script.Function :=
  catalog.entries.map fun (key, entry) => Script.Function.ofEntry key entry path

/-- The names of the shared module with their owner. -/
def runtimeClaims : List (String × String) :=
  Script.runtimeExports.map fun name => (name, Script.runtimeFile)

def accessorClaims (function : Script.Function) : List (String × String) :=
  (function.identifier :: function.paramsType.toList).map fun name => (name, function.path)

/-- All names that stand in a group's module, with their owners. -/
def claims (functions : List Script.Function) (namespaceConst : Option String) :
    List (String × String) :=
  runtimeClaims ++ functions.flatMap accessorClaims ++
    namespaceConst.toList.map fun name => (name, "namespace")

def checkNames (claims : List (String × String)) : Except Problem Unit :=
  match Registry.registerAll [] claims with
  | .ok _ => .ok ()
  | .error failure => .error (.refusedName failure)

def buildNamespace (path defaultLocale : String) (catalog : Catalog) :
    Except Problem Namespace.Node :=
  (Namespace.Source.build { catalog, group := path, defaultLocale }).mapError fun
    | .conflict path => .namespaceConflict path
    | .unfinished => .nestedTooDeep

structure Compiled where
  /-- The path of the group. -/
  path : String
  size : Nat
  counts : List (String × Nat)
  source : String
  exports : Script.Exports

def Compiled.name (compiled : Compiled) : String := displayName compiled.path

def compile (group : Group) (settings : Settings) : Except Problem Compiled := do
  let analysis ← analyze group.documents
  if settings.requireComplete then checkComplete settings analysis.catalog
  let accessors := functions group.path analysis.catalog
  let namespaceConst :=
    if settings.generateNamespaces then some (Identifier.namespaceConst group.path) else none
  checkNames (claims accessors namespaceConst)
  let namespaceObject ← namespaceConst.mapM fun name => do
    return (name, ← buildNamespace group.path settings.defaultLocale analysis.catalog)
  return {
    path := group.path
    size := analysis.catalog.size
    counts := analysis.counts
    source := Script.GroupModule.render
      { group := group.path, functions := accessors, namespaceObject } settings.defaultLocale
    exports := {
      group := displayName group.path
      modulePath := Script.moduleImport group.path
      accessors := accessors.map fun function => function.identifier
      paramsTypes := accessors.filterMap fun function => function.paramsType
      namespaceConst } }

end Group

end Phrasebook
