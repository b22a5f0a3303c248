import Phrasebook.Json.Basic

/-! # Namespace trees

A namespace follows the nesting of the messages: branches have keys, arrays have positions, and a leaf names
the accessor of one message. Leaves and arrays carry the values that their documentation shows.
-/

namespace Phrasebook.Namespace

inductive Node where
  | leaf (identifier : String) (samples : Keyed Json)
  | branch (children : List (String × Node))
  | array (items : List Node) (samples : Keyed Json)
deriving Repr

namespace Node

def child? (node : Node) (name : String) : Option Node :=
  match node with
  | .branch children => Keyed.get? children name
  | _ => none

def item? (node : Node) (position : Nat) : Option Node :=
  match node with
  | .array items _ => items[position]?
  | _ => none

def isEmpty (node : Node) : Bool :=
  match node with
  | .branch [] => true
  | _ => false

/-- Puts a node below the children of a branch, at the end of a sequence of keys. Branches on the way are
made where they are missing; a place that is taken, or a way through anything but branches, is refused. -/
def place? (node : Node) : List String → List (String × Node) → Option (List (String × Node))
  | [], _ => none
  | [key], children => if Keyed.has children key then none else some (children ++ [(key, node)])
  | key :: keys, children =>
    match Keyed.get? children key with
    | none => (place? node keys []).map fun inner => children ++ [(key, .branch inner)]
    | some (.branch inner) =>
      (place? node keys inner).map fun inner => Keyed.put children key (.branch inner)
    | some _ => none

end Node

end Phrasebook.Namespace
