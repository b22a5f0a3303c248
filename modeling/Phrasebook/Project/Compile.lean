import Phrasebook.Plan
import Phrasebook.Project.Load

/-! # Compiling a project

All groups are compiled and the output is planned before the first file is written. So a run that fails for
any reason but an inaccessible file leaves everything as it was.
-/

namespace Phrasebook

structure Compilation where
  groups : List Group.Compiled
  ignored : List LocaleFile
  written : List FilePath

namespace Project

/-- Writes files below a directory in their order, up to the first that cannot be written. -/
def writeFiles (tree : FileTree) (dir : FilePath) :
    List OutputFile → FileTree × Except Error (List FilePath)
  | [] => (tree, .ok [])
  | file :: rest =>
    let path := dir.join file.path
    let parent := path.parent?.getD path
    match tree.makeDirectories parent with
    | (tree, false) => (tree, .error (.inaccessible parent))
    | (tree, true) =>
      match tree.write? path file.text.toUTF8 with
      | none => (tree, .error (.inaccessible path))
      | some tree =>
        match writeFiles tree dir rest with
        | (tree, .ok written) => (tree, .ok (path :: written))
        | (tree, .error error) => (tree, .error error)

def compileGroup (project : Project) (tree : FileTree) (files : GroupFiles) :
    Except Error Group.Compiled := do
  let group ← readGroup tree files
  within files.name (group.compile project.settings)

/-- What a run would do, and the files that it would write. -/
def prepare (project : Project) (tree : FileTree) :
    Except Error (List Group.Compiled × List LocaleFile × List OutputFile) := do
  let scan ← project.scan tree
  let groups ← scan.groups.mapM (project.compileGroup tree)
  let files ← within Script.indexFile (Plan.files groups project.settings)
  return (groups, scan.ignored, files)

/-- Compiles a project and writes its output. -/
def compile (project : Project) (tree : FileTree) : FileTree × Except Error Compilation :=
  match project.prepare tree with
  | .error error => (tree, .error error)
  | .ok (groups, ignored, files) =>
    match writeFiles tree project.outputDir files with
    | (tree, .ok written) => (tree, .ok ⟨groups, ignored, written⟩)
    | (tree, .error error) => (tree, .error error)

end Project

end Phrasebook
