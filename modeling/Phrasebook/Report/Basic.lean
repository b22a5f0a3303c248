import Phrasebook.Project.Check
import Phrasebook.Project.Compile
import Phrasebook.Report.Style

/-! # Reports

What users are told about a project: its settings, warnings, the outcome of compiling and checking, and the
value of a message.
-/

namespace Phrasebook.Report

def successMark : String := "✓"

def failureMark : String := "✘"

def counts (pairs : List (String × Nat)) : String :=
  ", ".intercalate (pairs.map fun (locale, n) => locale ++ ": " ++ toString n)

/-- A number of things, by the name of one of them. -/
def amount (n : Nat) (noun : String) : String :=
  toString n ++ " " ++ noun ++ (if n = 1 then "" else "s")

/-- The number of messages of several groups, from the number of each. -/
def total (sizes : List Nat) : Nat := sizes.foldl (fun sum size => sum + size) 0

def warnings (styled : Bool) (ignored : List LocaleFile) : String :=
  String.join (ignored.map fun file =>
    paint styled .boldYellow "warning:" ++ " " ++ file.warning ++ "\n")

def error (styled : Bool) (error : Error) : String :=
  paint styled .boldRed "error" ++ ": " ++ error.message ++ "\n"

def closing (styled : Bool) (style : Style) (mark text : String) : String :=
  paint styled style mark ++ " " ++ paint styled style text ++ "\n"

def success (styled : Bool) (text : String) : String := closing styled .green successMark text

def failure (styled : Bool) (text : String) : String := closing styled .red failureMark text

def groupSize (styled : Bool) (name : String) (size : Nat) (pairs : List (String × Nat)) : String :=
  paint styled .bold name ++ " " ++ amount size "message" ++ " (" ++ counts pairs ++ ")\n"

/-- What a run has compiled, and with more words, from which groups and into which files. -/
def compilation (styled verbose : Bool) (outputDir : FilePath) (compilation : Compilation) : String :=
  let details :=
    compilation.groups.map (fun group =>
      "  " ++ groupSize styled group.name group.size group.counts) ++
    compilation.written.map (fun path =>
      "  " ++ paint styled .dimmed "wrote" ++ " " ++ path.text ++ "\n")
  let messages := total (compilation.groups.map fun group => group.size)
  (if verbose then String.join details else "") ++
    success styled ("Compiled " ++ amount messages "message" ++ " in " ++
      amount compilation.groups.length "group" ++ " into " ++ outputDir.text)

def nothingWritten (styled : Bool) : String :=
  failure styled "Compilation failed, no files were written"

/-- The outcome of a check for one group; complete groups are only named with more words. -/
def groupCheck (styled verbose : Bool) (group : GroupCheck) : String :=
  match group.error? with
  | some problem => error styled problem
  | none =>
    if verbose then
      "  " ++ paint styled .green successMark ++ " " ++
        groupSize styled group.name group.size group.counts
    else ""

def check (styled verbose : Bool) (check : Check) : String :=
  let messages := total (check.groups.map fun group => group.size)
  let groups := amount check.groups.length "group"
  String.join (check.groups.map (groupCheck styled verbose)) ++
    if check.isValid then
      success styled ("Checked " ++ amount messages "message" ++ " in " ++ groups ++
        " - all translations complete")
    else
      failure styled (toString check.failed.length ++ " of " ++ groups ++ " have problems")

def yesNo (flag : Bool) : String := if flag then "yes" else "no"

def project (styled : Bool) (project : Project) : String :=
  let settings := project.settings
  String.join
    [ paint styled .bold "glider configuration" ++ "\n",
      "  Config File: " ++ project.path.text ++ "\n",
      "  Locales: " ++ ", ".intercalate settings.locales ++ "\n",
      "  Default Locale: " ++ settings.defaultLocale ++ "\n",
      "  Messages Directory: " ++ project.messagesDir.text ++ "\n",
      "  Output Directory: " ++ project.outputDir.text ++ "\n",
      "  Validate Translations: " ++ yesNo settings.requireComplete ++ "\n",
      "  Generate Namespaces: " ++ yesNo settings.generateNamespaces ++ "\n" ]

/-- The value of a message: strings as they are, other values as indented documents. -/
def value (styled : Bool) : Option Json → String
  | some (.string text) => text ++ "\n"
  | some other => other.pretty ++ "\n"
  | none => paint styled .dimmed "undefined" ++ "\n"

end Phrasebook.Report
