import Phrasebook.Json.Basic

/-! # Types of message values

The type written for a message covers the values of all locales: the union of their types, each once. A list
has the union of its elements' types; lists inside lists are not looked into.
-/

namespace Phrasebook.Script

inductive ItemType where
  | null
  | boolean
  | number
  | string
  | record
  | list
deriving Repr, DecidableEq

inductive ValueType where
  | item (type : ItemType)
  | listOf (elements : List ItemType)
deriving Repr, DecidableEq

namespace ItemType

def ofJson : Json → ItemType
  | .null => .null
  | .bool _ => .boolean
  | .number _ => .number
  | .string _ => .string
  | .array _ => .list
  | .object _ => .record

def render : ItemType → String
  | .null => "null"
  | .boolean => "boolean"
  | .number => "number"
  | .string => "string"
  | .record => "Record<string, unknown>"
  | .list => "readonly unknown[]"

end ItemType

namespace ValueType

def ofJson : Json → ValueType
  | .array items => .listOf (items.map ItemType.ofJson).eraseDups
  | value => .item (.ofJson value)

def render : ValueType → String
  | .item type => type.render
  | .listOf [] => "readonly unknown[]"
  | .listOf [element] => "readonly " ++ element.render ++ "[]"
  | .listOf elements => "readonly (" ++ " | ".intercalate (elements.map ItemType.render) ++ ")[]"

/-- The types of several values, each once. -/
def ofValues (values : List Json) : List ValueType :=
  (values.map ofJson).eraseDups

/-- Text of the union of types; nothing is known of the union of none. -/
def renderUnion (types : List ValueType) : String :=
  if types.isEmpty then "unknown" else " | ".intercalate (types.map render)

end ValueType

end Phrasebook.Script
