import Phrasebook.Text.Cutting

/-! # File paths

A path is kept as its parts between slashes, empty ones included, so that its text is shown as it was given:
the text is absolute when the first of several parts is empty. Empty parts and lone points elsewhere stand
for nothing, and no path is simplified before it is shown.
-/

namespace Phrasebook

structure FilePath where
  parts : List String
deriving Repr, DecidableEq

namespace FilePath

def ofText (text : String) : FilePath := ⟨Text.parts '/' text⟩

def text (path : FilePath) : String := "/".intercalate path.parts

def isAbsolute (path : FilePath) : Bool :=
  match path.parts with
  | "" :: _ :: _ => true
  | _ => false

/-- The second path seen from the first. An absolute path is the same from everywhere. -/
def join (base path : FilePath) : FilePath :=
  if path.isAbsolute then path
  else if base.parts.getLast? = some "" then ⟨base.parts.dropLast ++ path.parts⟩
  else ⟨base.parts ++ path.parts⟩

def child (path : FilePath) (name : String) : FilePath := path.join ⟨[name]⟩

def isBlank (part : String) : Bool := part = "" || part = "."

/-- The parts without those at the end that stand for nothing. -/
def settle (parts : List String) : List String := (parts.reverse.dropWhile isBlank).reverse

/-- The path without its last step, if it has one. A point at the front of a relative path is a step. -/
def parent? (path : FilePath) : Option FilePath :=
  match path.parts with
  | "" :: part :: rest =>
    match settle (part :: rest) with
    | [] => none
    | steps =>
      match settle steps.dropLast with
      | [] => some ⟨["", ""]⟩
      | rest => some ⟨"" :: rest⟩
  | "." :: rest =>
    match settle rest with
    | [] => some ⟨[""]⟩
    | steps => some ⟨"." :: settle steps.dropLast⟩
  | parts =>
    match settle parts with
    | [] => none
    | steps =>
      match settle steps.dropLast with
      | [] => some ⟨[""]⟩
      | rest => some ⟨rest⟩

/-- The paths around a path, for an allowance of steps, nearest first. -/
def around : Nat → FilePath → List FilePath
  | 0, _ => []
  | allowance + 1, path =>
    match path.parent? with
    | none => []
    | some parent => parent :: around allowance parent

/-- A path and all paths around it, nearest first. Every step outwards leaves fewer parts, except the last one
to the top or to the empty path, so there are no more steps than parts. -/
def ancestors (path : FilePath) : List FilePath :=
  path :: around path.parts.length path

/-- The name of the file at the end of the path. A step up names no file. -/
def name? (path : FilePath) : Option String :=
  match (settle path.parts).getLast? with
  | some name => if name = ".." then none else some name
  | none => none

/-- A file name cut at its last point: what stands before the point, and after it. A name without a point, or
with its only point at the front, is not cut. -/
def splitName (name : String) : String × Option String :=
  match ((Text.parts '.' name).reverse : List String) with
  | extension :: first :: rest =>
    let stem := ".".intercalate (first :: rest).reverse
    if stem = "" then (name, none) else (stem, some extension)
  | _ => (name, none)

def stem? (path : FilePath) : Option String := path.name?.map fun name => (splitName name).1

end FilePath

end Phrasebook
