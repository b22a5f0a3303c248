import Phrasebook.Project.Scan

/-! # Documents of groups

The documents of a group are read from its files in their order; each must be an object. A group is found by
its path, with slashes around it left away.
-/

namespace Phrasebook.Project

/-- The document that a text holds; the path tells where the text stands. -/
def decodeDocument (path : FilePath) (text : String) : Except Error Json :=
  match Json.parse? text with
  | none => .error (.malformed path)
  | some (.object members) => .ok (.object members)
  | some other => .error (.notObject path other.kind)

def readDocument (tree : FileTree) (path : FilePath) : Except Error Json := do
  decodeDocument path (← readText tree path)

def readGroup (tree : FileTree) (group : GroupFiles) : Except Error Group := do
  let documents ← group.files.mapM fun file => do
    return (file.locale, ← readDocument tree file.path)
  return ⟨group.path, documents⟩

def scan (project : Project) (tree : FileTree) : Except Error Scan :=
  Scan.ofDirectory tree project.messagesDir project.settings.locales

/-- Names the place of a problem. -/
def within {α : Type} (place : String) (result : Except Group.Problem α) : Except Error α :=
  result.mapError (.inGroup place)

/-- A group's path without slashes around it. -/
def trimSlashes (path : String) : String :=
  String.ofList ((path.toList.dropWhile (· = '/')).reverse.dropWhile (· = '/')).reverse

def loadGroup (project : Project) (tree : FileTree) (path : String) : Except Error Group.Analysis := do
  let scan ← project.scan tree
  match scan.groups.find? fun group => group.path = trimSlashes path with
  | none =>
    .error (.unknownGroup (Group.displayName (trimSlashes path)) (scan.groups.map GroupFiles.name))
  | some files =>
    let group ← readGroup tree files
    within files.name (Group.analyze group.documents)

end Phrasebook.Project
