import Phrasebook.Identifier
import Phrasebook.Namespace.Basic
import Phrasebook.Script.Comment

/-! # Namespace objects

A namespace is written as one constant: nested object and list literals whose leaves refer to the
accessors. Leaves and lists are preceded by a comment with their values.
-/

namespace Phrasebook.Script

open Namespace

def NamespaceObject.comment (level : Nat) : Node → String
  | .leaf _ samples => Comment.render level none samples
  | .array _ samples => Comment.render level none samples
  | .branch _ => ""

mutual

/-- Text of a node whose first line stands at the given level. -/
def NamespaceObject.node (level : Nat) : Node → String
  | .leaf identifier _ => identifier
  | .branch [] => "\x7b\x7d"
  | .branch (child :: rest) =>
    "\x7b\n" ++ NamespaceObject.children (level + 1) (child :: rest) ++ Json.margin level ++ "\x7d"
  | .array [] _ => "[]"
  | .array (item :: rest) _ =>
    "[\n" ++ NamespaceObject.items (level + 1) (item :: rest) ++ Json.margin level ++ "]"

def NamespaceObject.children (level : Nat) : List (String × Node) → String
  | [] => ""
  | (key, child) :: rest =>
    NamespaceObject.comment level child ++ Json.margin level ++ propertyKey key ++ ": " ++
      NamespaceObject.node level child ++ ",\n" ++ NamespaceObject.children level rest

def NamespaceObject.items (level : Nat) : List Node → String
  | [] => ""
  | item :: rest =>
    NamespaceObject.comment level item ++ Json.margin level ++
      NamespaceObject.node level item ++ ",\n" ++ NamespaceObject.items level rest

end

def NamespaceObject.render (name : String) (root : Node) : String :=
  "export const " ++ name ++ " = " ++ NamespaceObject.node 0 root ++ " as const;\n"

end Phrasebook.Script
