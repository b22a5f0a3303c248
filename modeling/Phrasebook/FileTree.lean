import Phrasebook.FilePath

/-! # File trees

A file tree holds directories and files by their locations, which are the names on the way from the top, and
the directory from which relative paths are read. A path is followed part by part: only a directory can be
passed through, also by a part that stands for nothing, and the step up from the top leads to the top. A path
that is too long or has a null character is not followed at all, wherever its parts would lead.

Directories and files are made where their names are missing in a present directory. Making a directory with
all that are missing before it starts at the nearest one that is there; what was made stays when a later one
is refused.
-/

namespace Phrasebook

/-- The names on the way from the top to a file or a directory. -/
abbrev Location := List String

def FilePath.ofLocation (location : Location) : FilePath :=
  if location.isEmpty then ⟨["", ""]⟩ else ⟨"" :: location⟩

inductive FileTree.Node where
  | directory
  | file (content : ByteArray)

structure FileTree where
  /-- What stands below the top, which is itself a directory. -/
  entries : List (Location × FileTree.Node)
  /-- Where relative paths start. -/
  workingDir : Location

namespace FileTree

def empty : FileTree := ⟨[], []⟩

def node? (tree : FileTree) (location : Location) : Option Node :=
  if location = [] then some .directory else tree.entries.lookup location

def holdsDirectory (tree : FileTree) (location : Location) : Bool :=
  match tree.node? location with
  | some .directory => true
  | _ => false

/-- The longest path that is followed, in bytes. -/
def maximalPathSize : Nat := 4095

/-- Whether a path is followed at all. -/
def accepts (path : FilePath) : Bool :=
  path.text.utf8ByteSize ≤ maximalPathSize && !path.text.toList.contains '\x00'

inductive Obstacle where
  /-- The path is not followed at all. -/
  | unacceptable
  | missing
  | notDirectory
deriving Repr, DecidableEq

def step (tree : FileTree) (here : Location) (part : String) : Except Obstacle Location :=
  if !tree.holdsDirectory here then .error .notDirectory
  else if FilePath.isBlank part then .ok here
  else if part = ".." then .ok here.dropLast
  else if (tree.node? (here ++ [part])).isSome then .ok (here ++ [part])
  else .error .missing

/-- The location that parts lead to from a directory. -/
def follow (tree : FileTree) (start : Location) (parts : List String) : Except Obstacle Location :=
  parts.foldlM tree.step start

def startOf (tree : FileTree) (path : FilePath) : Location :=
  if path.isAbsolute then [] else tree.workingDir

/-- The location of a path. The empty path has none. -/
def locate (tree : FileTree) (path : FilePath) : Except Obstacle Location :=
  if !accepts path then .error .unacceptable
  else if path.parts = [""] then .error .missing
  else tree.follow (tree.startOf path) path.parts

def lookup? (tree : FileTree) (path : FilePath) : Option Node :=
  match tree.locate path with
  | .ok location => tree.node? location
  | .error _ => none

def has (tree : FileTree) (path : FilePath) : Bool := (tree.lookup? path).isSome

def isDirectory (tree : FileTree) (path : FilePath) : Bool :=
  match tree.lookup? path with
  | some .directory => true
  | _ => false

def text? (tree : FileTree) (path : FilePath) : Option String :=
  match tree.lookup? path with
  | some (.file content) => String.fromUTF8? content
  | _ => none

/-- Sets what stands at a location, and leaves everything else. -/
def put (tree : FileTree) (location : Location) (node : Node) : FileTree :=
  { tree with entries := go tree.entries }
where
  go : List (Location × Node) → List (Location × Node)
    | [] => [(location, node)]
    | (place, present) :: rest =>
      if place = location then (place, node) :: rest else (place, present) :: go rest

theorem lookup_put_go (location other : Location) (node : Node) (entries : List (Location × Node)) :
    (put.go location node entries).lookup other =
      if other = location then some node else entries.lookup other := by
  induction entries with
  | nil => by_cases h : other = location <;> simp [put.go, h]
  | cons entry rest ih =>
    obtain ⟨place, present⟩ := entry
    by_cases hp : place = location
    · subst hp
      by_cases h : other = place
      · simp [put.go, h]
      · have hb : (other == place) = false := beq_false_of_ne h
        simp [put.go, List.lookup_cons, h, hb]
    · by_cases h : other = place
      · simp [put.go, hp, h]
      · have hb : (other == place) = false := beq_false_of_ne h
        simp [put.go, List.lookup_cons, hp, hb, ih]

/-- Setting what stands below the top changes nothing anywhere else. -/
theorem node?_put (tree : FileTree) {location : Location} (h : location ≠ []) (node : Node)
    (other : Location) :
    (tree.put location node).node? other =
      if other = location then some node else tree.node? other := by
  by_cases ho : other = []
  · subst ho
    simp [node?, Ne.symm h]
  · simp [node?, put, ho, lookup_put_go]

/-- The longest name that a directory can hold, in bytes. -/
def maximalNameSize : Nat := 255

def isStorable (name : String) : Bool := name.utf8ByteSize ≤ maximalNameSize

/-- The location at which a path would make an entry: the last part is a name, and the parts before it lead
to a directory. -/
def siteOf (tree : FileTree) (path : FilePath) (parts : List String) :
    Except Obstacle (Location × String) := do
  if !accepts path then .error .unacceptable
  let parent ← tree.follow (tree.startOf path) parts.dropLast
  if tree.holdsDirectory parent then return (parent, parts.getLast?.getD "")
  else .error .notDirectory

inductive Made where
  | fresh (tree : FileTree)
  /-- Something stands there already. -/
  | present
  /-- The directory that should hold it is missing. -/
  | orphan
  | refused

/-- Makes one directory. Slashes at the end of its path do not count. -/
def makeDirectory (tree : FileTree) (path : FilePath) : Made :=
  let parts := (path.parts.reverse.dropWhile (· = "")).reverse
  match tree.siteOf path parts with
  | .error .missing => .orphan
  | .error _ => .refused
  | .ok (parent, name) =>
    if name = "" || name = "." || name = ".." || (tree.node? (parent ++ [name])).isSome then .present
    else if isStorable name then .fresh (tree.put (parent ++ [name]) .directory)
    else .refused

/-- Makes the first of several directories; the others are the paths of those around it, nearest first.
Tells whether all is as wanted in the end. -/
def makeAmong (tree : FileTree) : List FilePath → FileTree × Bool
  | [] => (tree, true)
  | path :: around =>
    match tree.makeDirectory path with
    | .fresh tree => (tree, true)
    | .present => (tree, tree.isDirectory path)
    | .refused => (tree, false)
    | .orphan =>
      match tree.makeAmong around with
      | (tree, false) => (tree, false)
      | (tree, true) =>
        match tree.makeDirectory path with
        | .fresh tree => (tree, true)
        | .present => (tree, tree.isDirectory path)
        | _ => (tree, false)

/-- Makes a directory and those around it that are missing. -/
def makeDirectories (tree : FileTree) (path : FilePath) : FileTree × Bool :=
  tree.makeAmong (path.ancestors.takeWhile fun dir => dir.parent?.isSome)

/-- Writes a file into a present directory, in place of the file of that name. -/
def write? (tree : FileTree) (path : FilePath) (content : ByteArray) : Option FileTree :=
  match tree.siteOf path path.parts with
  | .error _ => none
  | .ok (parent, name) =>
    if FilePath.isBlank name || name = ".." || !isStorable name then none
    else if tree.holdsDirectory (parent ++ [name]) then none
    else some (tree.put (parent ++ [name]) (.file content))

/-- Whether a location comes no later than another one in the order of names, compared from the top. -/
def isUpTo : Location → Location → Bool
  | [], _ => true
  | _ :: _, [] => false
  | a :: as, b :: bs => if a = b then isUpTo as bs else decide (a < b)

/-- The locations of the directories at or below a directory, each before those inside it, and those side by
side in the order of their names. -/
def directoriesFrom (tree : FileTree) (top : Location) : List Location :=
  (top :: tree.entries.filterMap fun (place, node) =>
    match node with
    | .directory => if top.isPrefixOf place && place ≠ top then some place else none
    | .file _ => none).mergeSort isUpTo

def fileNames (tree : FileTree) (directory : Location) : List String :=
  tree.entries.filterMap fun (place, node) =>
    match node with
    | .directory => none
    | .file _ =>
      match place.getLast? with
      | some name => if place = directory ++ [name] then some name else none
      | none => none

end FileTree

end Phrasebook
