import Phrasebook.FilePath
import Phrasebook.Group.Problem
import Phrasebook.Settings.Basic

/-! # Errors of a project

Everything that can stop a run, from unusable settings to problems of one group. An error tells where it
arose. The texts of the reader of documents and of the file system are not part of it.
-/

namespace Phrasebook

inductive Error where
  | settings (problem : Settings.Problem)
  | messagesMissing (dir : FilePath)
  | messagesNotDirectory (path : FilePath)
  | unknownGroup (name : String) (known : List String)
  | settingsNotFound (start : FilePath)
  /-- The text of a file is no document. -/
  | malformed (path : FilePath)
  /-- The document of a file is no object. -/
  | notObject (path : FilePath) (found : Json.Kind)
  | inGroup (place : String) (problem : Group.Problem)
  | inaccessible (path : FilePath)
deriving Repr, DecidableEq

namespace Error

/-- Whether a group that is not complete is at fault, and nothing else. -/
def isIncomplete : Error → Bool
  | .inGroup _ problem => problem.isIncomplete
  | _ => false

def invalidSettings (detail : String) : String := "invalid configuration: " ++ detail

def message : Error → String
  | .settings problem => invalidSettings problem.message
  | .messagesMissing dir =>
    invalidSettings <| "messages directory '" ++ dir.text ++
      "' does not exist\nHint: check \"messagesDir\" in your glider.config.json."
  | .messagesNotDirectory path => invalidSettings <| "'" ++ path.text ++ "' is not a directory"
  | .unknownGroup name known =>
    invalidSettings <| "no message group \"" ++ name ++ "\" (found: " ++
      ", ".intercalate known ++ ")"
  | .settingsNotFound start =>
    "glider.config.json not found in " ++ start.text ++
      " or any parent directory\nHint: run `glider init` to create one."
  | .malformed path => "failed to parse " ++ path.text
  | .notObject path found =>
    path.text ++ ": top-level value must be an object, found " ++ found.name
  | .inGroup place problem => problem.describe place
  | .inaccessible path => "I/O error on " ++ path.text

end Error

end Phrasebook
