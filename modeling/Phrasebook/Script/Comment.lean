import Phrasebook.Json.Printer

/-! # Documentation comments

The comment above a generated declaration lists the value of each locale. Text that goes into a comment has
its comment terminators broken up, so that only the last line closes the comment.
-/

namespace Phrasebook.Script

/-- Breaks up every comment terminator with a backslash. -/
def escapeTerminators : List Char → List Char
  | '*' :: '/' :: rest => '*' :: '\\' :: '/' :: escapeTerminators rest
  | c :: rest => c :: escapeTerminators rest
  | [] => []

def escapeComment (text : String) : String :=
  String.ofList (escapeTerminators text.toList)

def Comment.lines (title : Option String) (samples : Keyed Json) : List String :=
  let heading :=
    match title with
    | none => []
    | some title => (" * `" ++ escapeComment title ++ "`") :: if samples.isEmpty then [] else [" *"]
  let rows := samples.map fun (locale, value) =>
    " * @" ++ locale ++ " " ++ escapeComment value.render
  ["/**"] ++ heading ++ rows ++ [" */"]

/-- Every line after a margin and with its line end. -/
def layOut (margin : String) (lines : List String) : String :=
  String.join (lines.map fun line => margin ++ line ++ "\n")

/-- The comment that shows the values of all locales, at an indentation level. -/
def Comment.render (level : Nat) (title : Option String) (samples : Keyed Json) : String :=
  layOut (Json.margin level) (Comment.lines title samples)

end Phrasebook.Script
