import Phrasebook.Message.Path
import Phrasebook.Template

/-! # Records of a document

A document is flattened into one record per value that is no object, in depth-first order. An array gives a
record of its own, for the whole list, followed by the records of its elements, which remember the nearest
array around them and their position in it.
-/

namespace Phrasebook.Message

/-- The element of an array, by the displayed path of the array. -/
structure ItemRef where
  arrayPath : String
  position : Nat
deriving Repr, DecidableEq

structure Record where
  path : Path
  value : Json
  /-- Names of the placeholders, each once, in order of first occurrence. -/
  params : List String
  isArrayRoot : Bool
  item : Option ItemRef
deriving Repr

namespace Record

/-- The displayed path, by which records are gathered. -/
def key (record : Record) : String := record.path.display

def paramsOf (value : Json) : List String :=
  match value with
  | .string text => Template.names text
  | _ => []

/-- The placeholders of the strings that stand directly in an array. -/
def paramsOfItems (items : List Json) : List String :=
  items.foldl (fun acc item => Template.addNames acc (paramsOf item)) []

mutual

def flatten (path : Path) (item : Option ItemRef) : Json → List Record
  | .object members => flattenMembers path item members
  | .array items =>
    { path, value := .array items, params := paramsOfItems items, isArrayRoot := true, item } ::
      flattenItems path 0 items
  | value => [{ path, value, params := paramsOf value, isArrayRoot := false, item }]

def flattenMembers (path : Path) (item : Option ItemRef) : List (String × Json) → List Record
  | [] => []
  | (name, value) :: rest => flatten (path.child name) item value ++ flattenMembers path item rest

/-- The records of the elements of an array, from a position on. -/
def flattenItems (path : Path) (position : Nat) : List Json → List Record
  | [] => []
  | value :: rest =>
    flatten (path.element position) (some ⟨path.display, position⟩) value ++
      flattenItems path (position + 1) rest

end

def ofDocument (document : Json) : List Record := flatten [] none document

end Record

/-- The first text that occurs a second time. -/
def firstRepeated? : List String → Option String
  | texts => go [] texts
where
  go (seen : List String) : List String → Option String
    | [] => none
    | text :: rest => if seen.contains text then some text else go (text :: seen) rest

/-- The displayed path that two records share, at its first repetition. Keys that hold points or brackets
can spell the path of a nested value. -/
def repeatedKey? (records : List Record) : Option String :=
  firstRepeated? (records.map Record.key)

end Phrasebook.Message
