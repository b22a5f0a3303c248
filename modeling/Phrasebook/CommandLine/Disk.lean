import Phrasebook.CommandLine.Run

/-! # The disk as a file tree

Commands run on a file tree that holds the part of the disk they can see: the directories around the working
directory with the marks of projects and repositories in them, the messages, and what stands where output
will be written. Afterwards the changes are written to the disk.
-/

namespace Phrasebook.CommandLine.Disk

/-- The content of a file; a file that cannot be read holds no text. -/
def content (path : String) : IO ByteArray := do
  try IO.FS.readBinFile path
  catch _ => return ⟨#[255]⟩

/-- Adds what stands at a location and says whether it is a directory. -/
def addPlace (tree : FileTree) (location : Location) : IO (FileTree × Bool) := do
  let here ← IO.currentDir
  let path := here / (FilePath.ofLocation location).text
  if ← path.isDir then
    return (if location.isEmpty then tree else tree.put location .directory, true)
  if ← path.pathExists then
    return (tree.put location (.file (← content path.toString)), false)
  return (tree, false)

/-- Adds what stands on the way of some steps from a location, and gives the location they lead to if all of
them are there. -/
def addSteps (tree : FileTree) (here : Location) : List String → IO (FileTree × Option Location)
  | [] => return (tree, some here)
  | part :: rest => do
    let next :=
      if FilePath.isBlank part then here
      else if part = ".." then here.dropLast
      else here ++ [part]
    let (tree, isDirectory) ← addPlace tree next
    if isDirectory then addSteps tree next rest else return (tree, none)

def addPath (tree : FileTree) (path : FilePath) : IO (FileTree × Option Location) :=
  addSteps tree (tree.startOf path) path.parts

/-- Adds everything below a directory. -/
partial def addBelow (tree : FileTree) (location : Location) : IO FileTree := do
  let here ← IO.currentDir
  let mut tree := tree
  for entry in ← (here / (FilePath.ofLocation location).text).readDir do
    let place := location ++ [entry.fileName]
    let (next, isDirectory) ← addPlace tree place
    tree ← if isDirectory then addBelow next place else pure next
  return tree

def surroundings : IO FileTree := do
  let here ← IO.currentDir
  let location := (Text.parts '/' here.toString).filter fun part => !part.isEmpty
  let mut tree : FileTree := { FileTree.empty with workingDir := location }
  for dir in (FilePath.ofLocation location).ancestors do
    for name in [Settings.fileName, ".git"] do
      tree := (← addPath tree (dir.child name)).1
  return tree

def addMessages (tree : FileTree) (project : Project) : IO FileTree := do
  match ← addPath tree project.messagesDir with
  | (tree, some location) => addBelow tree location
  | (tree, none) => return tree

def addOutput (tree : FileTree) (project : Project) : IO FileTree := do
  match project.prepare tree with
  | .error _ => return tree
  | .ok (_, _, files) =>
    files.foldlM (fun tree file => return (← addPath tree (project.outputDir.join file.path)).1) tree

/-- What a command can see of the disk. -/
def view (command : Command) : IO FileTree := do
  let tree ← surroundings
  match command with
  | .info => return tree
  | .init dir => return (← addPath tree ((FilePath.ofText dir).child Settings.fileName)).1
  | .compile request =>
    match openProject tree (request.overrides tree) with
    | .error _ => return tree
    | .ok project => addOutput (← addMessages tree project) project
  | .check input _ =>
    match openProject tree (inputOverrides input tree) with
    | .error _ => return tree
    | .ok project => addMessages tree project
  | .lookup _ =>
    match openProject tree .empty with
    | .error _ => return tree
    | .ok project => addMessages tree project

def isUnchanged (before : Option FileTree.Node) (content : ByteArray) : Bool :=
  match before with
  | some (.file old) => old.toList.map UInt8.toNat = content.toList.map UInt8.toNat
  | _ => false

/-- Writes what one tree holds and another does not. -/
def writeChanges (before after : FileTree) : IO Unit := do
  for (location, node) in after.entries do
    let path := (FilePath.ofLocation location).text
    match node with
    | .directory => if !before.holdsDirectory location then IO.FS.createDirAll path
    | .file content =>
      if !isUnchanged (before.node? location) content then IO.FS.writeBinFile path content

end Phrasebook.CommandLine.Disk
