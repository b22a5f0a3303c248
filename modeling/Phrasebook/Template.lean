import Phrasebook.Keyed
import Phrasebook.Text.Cutting
import Phrasebook.Text.Word

/-! # Message templates

A template is a text with placeholders: a name of word characters in braces. Read from the left, a text is
a sequence of pieces, each a character or a placeholder; a brace that starts no placeholder is a character
like any other. Substitution replaces pieces and looks at no piece twice, so what it puts in is never
searched for placeholders.
-/

namespace Phrasebook

namespace Template

/-- A character of a template, or a placeholder with its name. -/
inductive Piece where
  | char (c : Char)
  | hole (name : String)
deriving Repr, DecidableEq

def Piece.source : Piece → List Char
  | .char c => [c]
  | .hole name => '\x7b' :: (name.toList ++ ['\x7d'])

def Piece.name? : Piece → Option String
  | .char _ => none
  | .hole name => some name

/-- The pieces of a template, for a given class of word characters. -/
def pieces (isWord : Char → Bool) : List Char → List Piece
  | [] => []
  | c :: cs =>
    match _h : if c = '\x7b' then Text.enclosed? isWord '\x7d' cs else none with
    | some (name, rest) => .hole (String.ofList name) :: pieces isWord rest
    | none => .char c :: pieces isWord cs
termination_by cs => cs.length
decreasing_by
  · split at _h
    · have := Text.enclosed?_length _h
      simp only [List.length_cons]
      omega
    · cases _h
  · simp

/-- Adds the names that are not there yet, in their order. -/
def addNames (names extra : List String) : List String :=
  extra.foldl (fun acc name => if acc.contains name then acc else acc ++ [name]) names

/-- The names of the placeholders of a text, each once, in order of first occurrence, for a given class of
word characters. -/
def namesIn (isWord : Char → Bool) (text : String) : List String :=
  addNames [] ((pieces isWord text.toList).filterMap Piece.name?)

def names (text : String) : List String := namesIn Text.isWord text

/-- Whether a text has a placeholder with one of the given names, for a given class of word characters. -/
def mentionsIn (isWord : Char → Bool) (text : String) (declared : List String) : Bool :=
  (pieces isWord text.toList).any fun piece =>
    match piece with
    | .char _ => false
    | .hole name => declared.contains name

def mentions (text : String) (declared : List String) : Bool := mentionsIn Text.isWord text declared

/-- What stands for a piece after substitution: the value of a placeholder whose name is declared and has
one, else the piece itself. -/
def fillPiece (declared : List String) (values : Keyed String) (piece : Piece) : List Char :=
  match piece with
  | .char c => [c]
  | .hole name =>
    match values.get? name with
    | some value => if declared.contains name then value.toList else piece.source
    | none => piece.source

/-- The text with its declared placeholders replaced by their values. -/
def fill (text : String) (declared : List String) (values : Keyed String) : String :=
  String.ofList ((pieces Text.isWord text.toList).flatMap (fillPiece declared values))

end Template

end Phrasebook
