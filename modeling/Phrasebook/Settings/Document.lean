import Phrasebook.Json.Printer
import Phrasebook.Json.Written
import Phrasebook.Settings.Basic

/-! # Documents of settings

A settings document is an object with one member per setting, or an array of the settings in their order.
Unknown members are ignored, whatever they hold. A setting that is given twice, has the wrong type, or is
missing without a default value makes the whole document unreadable.
-/

namespace Phrasebook.Settings

open Json

/-- The settings of a document before defaults are filled in, each as it is written. -/
structure Draft where
  locales : Option Written
  defaultLocale : Option Written
  messagesDir : Option Written
  outputDir : Option Written
  requireComplete : Option Written
  generateNamespaces : Option Written

def text? : Written → Option String
  | .string text => text
  | _ => none

def flag? : Written → Option Bool
  | .bool value => some value
  | _ => none

def texts? : Written → Option (List String)
  | .array items => items.mapM text?
  | _ => none

/-- A setting with a default: the written value must have its type, and may be missing. -/
def orDefault {α : Type} (read? : Written → Option α) (default : α) : Option Written → Option α
  | none => some default
  | some written => read? written

def Draft.settings? (draft : Draft) : Option Settings := do
  let locales ← draft.locales.bind texts?
  let defaultLocale ← draft.defaultLocale.bind text?
  let messagesDir ← orDefault text? initial.messagesDir draft.messagesDir
  let outputDir ← orDefault text? initial.outputDir draft.outputDir
  let requireComplete ←
    orDefault flag? initial.requireComplete draft.requireComplete
  let generateNamespaces ← orDefault flag? initial.generateNamespaces draft.generateNamespaces
  return { locales, defaultLocale, messagesDir, outputDir, requireComplete, generateNamespaces }

def fieldNames : List String :=
  ["locales", "defaultLocale", "messagesDir", "outputDir", "validateTranslations",
    "generateNamespaces"]

/-- The members of an object with their names, if all names can be read. -/
def named? (members : List (Option String × Written)) : Option (Keyed Written) :=
  members.mapM fun (name, value) => name.map fun name => (name, value)

def ofWritten? : Written → Option Settings
  | .object members => do
    let members ← named? members
    let known := members.filter fun (name, _) => fieldNames.contains name
    if (Keyed.keys known).eraseDups.length ≠ known.length then none
    let field := Keyed.get? known
    Draft.settings?
      ⟨field "locales", field "defaultLocale", field "messagesDir", field "outputDir",
        field "validateTranslations", field "generateNamespaces"⟩
  | .array items =>
    if items.length ≤ fieldNames.length then
      Draft.settings? ⟨items[0]?, items[1]?, items[2]?, items[3]?, items[4]?, items[5]?⟩
    else none
  | _ => none

def parse? (text : String) : Option Settings := (Written.read? text).bind ofWritten?

def document (settings : Settings) : Json :=
  .object
    [ ("locales", .array (settings.locales.map Json.string)),
      ("defaultLocale", .string settings.defaultLocale),
      ("messagesDir", .string settings.messagesDir),
      ("outputDir", .string settings.outputDir),
      ("validateTranslations", .bool settings.requireComplete),
      ("generateNamespaces", .bool settings.generateNamespaces) ]

def initialText : String := initial.document.pretty

end Phrasebook.Settings
