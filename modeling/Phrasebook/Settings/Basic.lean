import Phrasebook.Json.Basic

/-! # Settings of a project

The settings name the locales, where messages are read and where modules are written, and what a run does.
Settings are usable when the locales are distinct identifiers and the default locale is one of them.
-/

namespace Phrasebook

structure Settings where
  locales : List String
  defaultLocale : String
  /-- Directory of the messages, seen from the settings file. -/
  messagesDir : String
  /-- Directory of the generated modules, seen from the settings file. -/
  outputDir : String
  /-- Whether modules are only written for complete groups. -/
  requireComplete : Bool
  /-- Whether modules hold namespace constants. -/
  generateNamespaces : Bool
deriving Repr, DecidableEq

namespace Settings

def initial : Settings :=
  { locales := ["en"]
    defaultLocale := "en"
    messagesDir := "messages"
    outputDir := "src/glider"
    requireComplete := true
    generateNamespaces := true }

inductive Problem where
  | noLocales
  | malformedLocale (locale : String)
  | repeatedLocale (locale : String)
  | foreignDefault (locale : String) (locales : List String)
deriving Repr, DecidableEq

def Problem.message : Problem → String
  | .noLocales => "\"locales\" must list at least one locale"
  | .malformedLocale locale =>
    "locale \"" ++ locale ++ "\" may only contain letters, digits, '_' and '-'"
  | .repeatedLocale locale => "locale \"" ++ locale ++ "\" is listed more than once"
  | .foreignDefault locale locales =>
    "defaultLocale \"" ++ locale ++ "\" is not one of the configured locales (" ++
      ", ".intercalate locales ++ ")"

def isLocaleChar (c : Char) : Bool := c.isAlphanum || c = '_' || c = '-'

def isLocale (text : String) : Bool := !text.isEmpty && text.toList.all isLocaleChar

/-- What is wrong with the first faulty locale of a list, after the given ones. -/
def localeProblem? (earlier : List String) : List String → Option Problem
  | [] => none
  | locale :: rest =>
    if !isLocale locale then some (.malformedLocale locale)
    else if earlier.contains locale then some (.repeatedLocale locale)
    else localeProblem? (locale :: earlier) rest

def problem? (settings : Settings) : Option Problem :=
  if settings.locales.isEmpty then some .noLocales
  else
    match localeProblem? [] settings.locales with
    | some problem => some problem
    | none =>
      if settings.locales.contains settings.defaultLocale then none
      else some (.foreignDefault settings.defaultLocale settings.locales)

/-- Values given for one run; each takes the place of the settings file's. -/
structure Overrides where
  messagesDir : Option String
  outputDir : Option String
  locales : Option (List String)
  noValidate : Bool
  noNamespaces : Bool
deriving Repr, DecidableEq

def Overrides.empty : Overrides := ⟨none, none, none, false, false⟩

def override (settings : Settings) (overrides : Overrides) : Settings :=
  { settings with
    messagesDir := overrides.messagesDir.getD settings.messagesDir
    outputDir := overrides.outputDir.getD settings.outputDir
    locales := overrides.locales.getD settings.locales
    requireComplete := settings.requireComplete && !overrides.noValidate
    generateNamespaces := settings.generateNamespaces && !overrides.noNamespaces }

end Settings

end Phrasebook
