import Phrasebook.Error
import Phrasebook.FileTree
import Phrasebook.Settings.Document

/-! # Projects

A project is found from a directory inside it: its settings file stands in that directory or the nearest one
around it. The search ends at the top of a repository, which may hold the settings file itself.
-/

namespace Phrasebook

def Settings.fileName : String := "glider.config.json"

structure Project where
  settings : Settings
  path : FilePath
deriving Repr, DecidableEq

namespace Project

/-- The directory of the settings file, from which the directories of the settings are seen. -/
def baseDir (project : Project) : FilePath := project.path.parent?.getD ⟨["."]⟩

def messagesDir (project : Project) : FilePath :=
  project.baseDir.join (.ofText project.settings.messagesDir)

def outputDir (project : Project) : FilePath :=
  project.baseDir.join (.ofText project.settings.outputDir)

/-- The settings file of the first of several directories that has one, if no directory before that one is
the top of a repository. -/
def findAmong? (tree : FileTree) : List FilePath → Option FilePath
  | [] => none
  | dir :: around =>
    let path := dir.child Settings.fileName
    if tree.has path then some path
    else if tree.has (dir.child ".git") then none
    else findAmong? tree around

/-- The settings file of the project around a directory. -/
def findSettings? (tree : FileTree) (start : FilePath) : Option FilePath :=
  findAmong? tree start.ancestors

def readText (tree : FileTree) (path : FilePath) : Except Error String :=
  match tree.text? path with
  | some text => .ok text
  | none => .error (.inaccessible path)

/-- Opens the project around a directory, with overrides of its settings. -/
def openFrom (tree : FileTree) (start : FilePath) (overrides : Settings.Overrides) :
    Except Error Project :=
  match findSettings? tree start with
  | none => .error (.settingsNotFound start)
  | some path => do
    let text ← readText tree path
    match Settings.parse? text with
    | none => .error (.malformed path)
    | some settings =>
      let settings := settings.override overrides
      match settings.problem? with
      | some problem => .error (.settings problem)
      | none => .ok ⟨settings, path⟩

end Project

end Phrasebook
