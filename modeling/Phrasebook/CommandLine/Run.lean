import Phrasebook.Accessor
import Phrasebook.CommandLine.Command
import Phrasebook.Report.Basic

/-! # Running commands

A command runs on a file tree, from its working directory. It leaves a tree, texts for the standard streams,
and an ending: an exit status, or a failure that ends the program with an error. A failure prints nothing
before it.
-/

namespace Phrasebook.CommandLine

inductive Failure where
  | project (error : Error)
  | noMessage (path group : String)
  | directoryNotMade (path : FilePath)
  | fileNotWritten (path : FilePath)
deriving Repr, DecidableEq

def Failure.message : Failure → String
  | .project error => error.message
  | .noMessage path group => "no message \"" ++ path ++ "\" in " ++ group
  | .directoryNotMade path => "Failed to create directory: " ++ path.text
  | .fileNotWritten path => "Failed to write file: " ++ path.text

inductive Status where
  /-- The command did what it should. -/
  | success
  /-- The messages are not complete, or there is a settings file already. -/
  | negative
deriving Repr, DecidableEq

/-- The number that the program exits with. -/
def Status.code : Status → Nat
  | .success => 0
  | .negative => 1

/-- The number that the program exits with after a failure. -/
def failureCode : Nat := 2

/-- What a finished command has printed, and how it ends. -/
structure Outcome where
  stdout : String
  stderr : String
  status : Status
deriving Repr, DecidableEq

/-- The tree that a command leaves, and its outcome. -/
abbrev Result := FileTree × Except Failure Outcome

def workingDir (tree : FileTree) : FilePath := .ofLocation tree.workingDir

/-- A path given on the command line, seen from the working directory. -/
def fromWorkingDir (tree : FileTree) (text : String) : String :=
  ((workingDir tree).join (.ofText text)).text

def openProject (tree : FileTree) (overrides : Settings.Overrides) : Except Failure Project :=
  (Project.openFrom tree (workingDir tree) overrides).mapError .project

def CompileRequest.overrides (request : CompileRequest) (tree : FileTree) : Settings.Overrides :=
  { messagesDir := request.input.map (fromWorkingDir tree)
    outputDir := request.output.map (fromWorkingDir tree)
    locales := request.locales
    noValidate := request.noValidate
    noNamespaces := request.noNamespaces }

def inputOverrides (input : Option String) (tree : FileTree) : Settings.Overrides :=
  { Settings.Overrides.empty with messagesDir := input.map (fromWorkingDir tree) }

def compile (styled : Bool) (request : CompileRequest) (tree : FileTree) : Result :=
  match openProject tree (request.overrides tree) with
  | .error failure => (tree, .error failure)
  | .ok project =>
    match project.compile tree with
    | (tree, .ok compilation) =>
      (tree, .ok {
        stdout := Report.compilation styled request.verbose project.outputDir compilation
        stderr := Report.warnings styled compilation.ignored
        status := .success })
    | (tree, .error error) =>
      if error.isIncomplete then
        (tree, .ok {
          stdout := ""
          stderr := Report.error styled error ++ Report.nothingWritten styled
          status := .negative })
      else (tree, .error (.project error))

def check (styled : Bool) (input : Option String) (verbose : Bool) (tree : FileTree) :
    Except Failure Outcome := do
  let project ← openProject tree (inputOverrides input tree)
  let check ← (project.check tree).mapError .project
  return {
    stdout := Report.check styled verbose check
    stderr := Report.warnings styled check.ignored
    status := if check.isValid then .success else .negative }

def info (styled : Bool) (tree : FileTree) : Except Failure Outcome := do
  let project ← openProject tree .empty
  return { stdout := Report.project styled project, stderr := "", status := .success }

def init (styled : Bool) (dir : String) (tree : FileTree) : Result :=
  let dir := FilePath.ofText dir
  let path := dir.child Settings.fileName
  if tree.has path then
    let stderr := "Error: " ++ path.text ++ " already exists\n"
    (tree, .ok { stdout := "", stderr, status := .negative })
  else
    match tree.makeDirectories dir with
    | (tree, false) => (tree, .error (.directoryNotMade dir))
    | (tree, true) =>
      match tree.write? path Settings.initialText.toUTF8 with
      | none => (tree, .error (.fileNotWritten path))
      | some tree =>
        let stdout := Report.success styled ("Created " ++ path.text)
        (tree, .ok { stdout, stderr := "", status := .success })

def lookup (styled : Bool) (request : LookupRequest) (tree : FileTree) : Except Failure Outcome := do
  let project ← openProject tree .empty
  let analysis ← (project.loadGroup tree request.group).mapError .project
  match analysis.catalog.get? request.path with
  | none =>
    let group := Group.displayName (Project.trimSlashes request.group)
    .error (.noMessage request.path group)
  | some entry =>
    let accessor : Accessor := ⟨entry, project.settings.defaultLocale⟩
    let params := if request.params.isEmpty then none else some (Keyed.ofPairs request.params)
    let value := accessor.call request.lang params request.currentLocale
    return { stdout := Report.value styled value, stderr := "", status := .success }

def run (styled : Bool) (tree : FileTree) : Command → Result
  | .compile request => compile styled request tree
  | .check input verbose => (tree, check styled input verbose tree)
  | .info => (tree, info styled tree)
  | .init dir => init styled dir tree
  | .lookup request => (tree, lookup styled request tree)

end Phrasebook.CommandLine
