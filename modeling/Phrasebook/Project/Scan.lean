import Phrasebook.Group.Basic
import Phrasebook.Project.Basic

/-! # Messages of a project

Every directory at or below the messages directory that holds document files is a group. The name of a
document file without its extension is the locale. A group has the files of the configured locales, in the
order of the settings; the files of other locales are left out with a warning.
-/

namespace Phrasebook

structure LocaleFile where
  locale : String
  path : FilePath
deriving Repr, DecidableEq

def LocaleFile.localeOf? (path : FilePath) : Option String := path.stem?

def LocaleFile.warning (file : LocaleFile) : String :=
  "ignoring " ++ file.path.text ++ ": locale \"" ++ file.locale ++ "\" is not configured"

structure GroupFiles where
  /-- The path of the group, empty for the messages directory itself. -/
  path : String
  files : List LocaleFile
deriving Repr, DecidableEq

namespace GroupFiles

def name (group : GroupFiles) : String := Group.displayName group.path

end GroupFiles

structure Scan where
  groups : List GroupFiles
  /-- Files of locales that are not configured. -/
  ignored : List LocaleFile
deriving Repr, DecidableEq

namespace Scan

/-- The document files among the entries of a directory, in the order of their locales. A file whose path is
too long to be followed is not one. -/
def documentFiles (dir : FilePath) (names : List String) : List LocaleFile :=
  (names.filterMap fun name =>
    match FilePath.splitName name with
    | (stem, some "json") =>
      if FileTree.accepts (dir.child name) then some ⟨stem, dir.child name⟩ else none
    | _ => none).mergeSort fun a b => decide (a.locale ≤ b.locale)

/-- The files of the configured locales, in the order of the settings. -/
def configured (locales : List String) (found : List LocaleFile) : List LocaleFile :=
  locales.filterMap fun locale => found.find? fun file => file.locale = locale

def unconfigured (locales : List String) (found : List LocaleFile) : List LocaleFile :=
  found.filter fun file => !locales.contains file.locale

/-- What one directory contributes, by the names that lead to it from the messages directory, unless its path
is too long to be followed. -/
def directory (locales : List String) (messagesDir : FilePath) (steps names : List String) :
    Except Error Scan :=
  let dir := steps.foldl FilePath.child messagesDir
  if !FileTree.accepts dir then .error (.inaccessible dir)
  else
    match documentFiles dir names with
    | [] => .ok ⟨[], []⟩
    | found =>
      .ok
        { groups := [⟨"/".intercalate steps, configured locales found⟩]
          ignored := unconfigured locales found }

def concat (scans : List Scan) : Scan :=
  { groups := scans.flatMap fun scan => scan.groups
    ignored := scans.flatMap fun scan => scan.ignored }

def ofDirectory (tree : FileTree) (messagesDir : FilePath) (locales : List String) :
    Except Error Scan :=
  match tree.locate messagesDir with
  | .error _ => .error (.messagesMissing messagesDir)
  | .ok top =>
    if tree.holdsDirectory top then do
      let scans ← (tree.directoriesFrom top).mapM fun place =>
        directory locales messagesDir (place.drop top.length) (tree.fileNames place)
      return concat scans
    else .error (.messagesNotDirectory messagesDir)

end Scan

end Phrasebook
