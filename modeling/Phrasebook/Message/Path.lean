import Phrasebook.Json.Basic

/-! # Message paths

A path leads from the top of a document through object keys and array positions to a value. Its displayed
form joins keys by points and puts positions in brackets, as in `list[2].label`; messages are looked up by
that form.
-/

namespace Phrasebook.Message

inductive Segment where
  | key (name : String)
  | index (position : Nat)
deriving Repr, DecidableEq

abbrev Path := List Segment

namespace Segment

/-- The displayed form of a step that follows another one. -/
def display : Segment → String
  | .key name => "." ++ name
  | .index position => "[" ++ toString position ++ "]"

def step? (segment : Segment) (value : Json) : Option Json :=
  match segment, value with
  | .key name, .object members => Keyed.get? members name
  | .index position, .array items => items[position]?
  | _, _ => none

end Segment

namespace Path

/-- The displayed form of a path: no point stands before a key at the front. -/
def display (path : Path) : String :=
  match path with
  | .key name :: rest => name ++ String.join (rest.map Segment.display)
  | _ => String.join (path.map Segment.display)

def child (path : Path) (name : String) : Path := path ++ [.key name]

def element (path : Path) (position : Nat) : Path := path ++ [.index position]

def lookup? (path : Path) (document : Json) : Option Json :=
  path.foldlM (fun value segment => segment.step? value) document

def keys? (path : Path) : Option (List String) :=
  path.mapM fun
    | .key name => some name
    | .index _ => none

end Path

end Phrasebook.Message
