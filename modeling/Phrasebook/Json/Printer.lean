import Phrasebook.Json.Basic
import Phrasebook.Text.Quoted
import Phrasebook.Decimal.Layout

/-! # Text of a document

Two texts of a value: the compact one, without blanks, and the indented one with two spaces per level, in
which empty containers stay on one line.
-/

namespace Phrasebook.Json

def Number.render : Number → String
  | .int value => toString value
  | .float value => Decimal.Layout.document.render value

def renderScalar : Json → String
  | .null => "null"
  | .bool true => "true"
  | .bool false => "false"
  | .number n => n.render
  | .string s => Text.quote s
  | .array _ => "[]"
  | .object _ => "\x7b\x7d"

mutual

def render : Json → String
  | .array items => "[" ++ ",".intercalate (renderItems items) ++ "]"
  | .object members => "\x7b" ++ ",".intercalate (renderMembers members) ++ "\x7d"
  | value => renderScalar value

def renderItems : List Json → List String
  | [] => []
  | item :: rest => render item :: renderItems rest

def renderMembers : List (String × Json) → List String
  | [] => []
  | (key, value) :: rest => (Text.quote key ++ ":" ++ render value) :: renderMembers rest

end

def margin (level : Nat) : String :=
  String.ofList (List.replicate (2 * level) ' ')

mutual

/-- The indented text of a value that starts on a line of the given level. -/
def renderIndented (level : Nat) : Json → String
  | .array (item :: rest) =>
    "[\n" ++ ",\n".intercalate (indentedItems (level + 1) (item :: rest)) ++ "\n" ++ margin level ++ "]"
  | .object (member :: rest) =>
    "\x7b\n" ++ ",\n".intercalate (indentedMembers (level + 1) (member :: rest)) ++ "\n" ++
      margin level ++ "\x7d"
  | value => renderScalar value

def indentedItems (level : Nat) : List Json → List String
  | [] => []
  | item :: rest => (margin level ++ renderIndented level item) :: indentedItems level rest

def indentedMembers (level : Nat) : List (String × Json) → List String
  | [] => []
  | (key, value) :: rest =>
    (margin level ++ Text.quote key ++ ": " ++ renderIndented level value) :: indentedMembers level rest

end

def pretty (value : Json) : String := renderIndented 0 value

end Phrasebook.Json
