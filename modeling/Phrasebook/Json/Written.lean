import Phrasebook.Json.Token

/-! # Documents as written

The syntax tree of a document: all members of an object in the order in which they stand, repeated keys
included, and strings and numbers that denote nothing. The value of a document keeps the first place and the
last value of a repeated key, and exists when every string and number has a value and containers are nested
at most 127 deep.
-/

namespace Phrasebook.Json

/-- A document as it is written. -/
inductive Written where
  | null
  | bool (value : Bool)
  | number (value : Option Number)
  | string (text : Option String)
  | array (items : List Written)
  | object (members : List (Option String × Written))

namespace Written

mutual

def take? : Nat → List Token → Option (Written × List Token)
  | 0, _ => none
  | _ + 1, .null :: rest => some (.null, rest)
  | _ + 1, .bool b :: rest => some (.bool b, rest)
  | _ + 1, .number n :: rest => some (.number n, rest)
  | _ + 1, .string s :: rest => some (.string s, rest)
  | _ + 1, .openBracket :: .closeBracket :: rest => some (.array [], rest)
  | fuel + 1, .openBracket :: rest => do
    let (items, rest) ← takeItems? fuel rest
    return (.array items, rest)
  | _ + 1, .openBrace :: .closeBrace :: rest => some (.object [], rest)
  | fuel + 1, .openBrace :: rest => do
    let (members, rest) ← takeMembers? fuel rest
    return (.object members, rest)
  | _ + 1, _ => none

/-- Reads the items of an array that is not empty, and its closing bracket. -/
def takeItems? : Nat → List Token → Option (List Written × List Token)
  | 0, _ => none
  | fuel + 1, tokens => do
    let (item, rest) ← take? fuel tokens
    match rest with
    | .closeBracket :: rest => return ([item], rest)
    | .comma :: rest =>
      let (items, rest) ← takeItems? fuel rest
      return (item :: items, rest)
    | _ => none

def takeMembers? : Nat → List Token → Option (List (Option String × Written) × List Token)
  | 0, _ => none
  | fuel + 1, .string key :: .colon :: tokens => do
    let (value, rest) ← take? fuel tokens
    match rest with
    | .closeBrace :: rest => return ([(key, value)], rest)
    | .comma :: rest =>
      let (members, rest) ← takeMembers? fuel rest
      return ((key, value) :: members, rest)
    | _ => none
  | _ + 1, _ => none

end

/-- Reads a text that holds one value and blanks. Each step either takes a token or opens a container that
has just taken one. -/
def read? (text : String) : Option Written := do
  let tokens ← Token.ofText? text.toList
  let (written, rest) ← take? (2 * tokens.length + 1) tokens
  if rest.isEmpty then some written else none

mutual

/-- The value of a document whose containers are nested at most `depth` deep. -/
def value? (depth : Nat) : Written → Option Json
  | .null => some .null
  | .bool b => some (.bool b)
  | .number n => n.map .number
  | .string s => s.map .string
  | .array items =>
    match depth with
    | 0 => none
    | depth + 1 => (values? depth items).map .array
  | .object members =>
    match depth with
    | 0 => none
    | depth + 1 => (memberValues? depth members).map fun pairs => .object (Keyed.ofPairs pairs)

def values? (depth : Nat) : List Written → Option (List Json)
  | [] => some []
  | item :: rest => do
    let value ← value? depth item
    let values ← values? depth rest
    return value :: values

def memberValues? (depth : Nat) : List (Option String × Written) → Option (List (String × Json))
  | [] => some []
  | (key, member) :: rest => do
    let key ← key
    let value ← value? depth member
    let values ← memberValues? depth rest
    return (key, value) :: values

end

end Written

def maximalDepth : Nat := 127

def parse? (text : String) : Option Json := do
  let written ← Written.read? text
  written.value? maximalDepth

end Phrasebook.Json
