/-! # Cutting texts

A text cut at every occurrence of a separator has one part more than it has separators; parts may be empty.
Joining the parts with the separator gives the text back.

Placeholders and indices have one form: after an opening mark, a run of characters of one class that is not
empty, and right after it the closing mark.
-/

namespace Phrasebook.Text

def parts (separator : Char) (text : String) : List String :=
  (text.toList.splitOn separator).map String.ofList

/-- The run of the class at the front, if it is not empty and the closing mark follows it, and what comes
after the mark. -/
def enclosed? (inside : Char → Bool) (close : Char) (cs : List Char) :
    Option (List Char × List Char) :=
  match cs.takeWhile inside, cs.dropWhile inside with
  | c :: run, mark :: rest => if mark = close then some (c :: run, rest) else none
  | _, _ => none

theorem enclosed?_length {inside : Char → Bool} {close : Char} {cs run rest : List Char}
    (h : enclosed? inside close cs = some (run, rest)) : rest.length < cs.length := by
  have parts := congrArg List.length (List.takeWhile_append_dropWhile (p := inside) (l := cs))
  simp only [List.length_append] at parts
  unfold enclosed? at h
  split at h
  · rename_i heq
    split at h
    · cases h
      simp only [heq, List.length_cons] at parts
      omega
    · cases h
  · cases h

end Phrasebook.Text
