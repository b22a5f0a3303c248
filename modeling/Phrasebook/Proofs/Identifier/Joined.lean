import Phrasebook.Proofs.Identifier
import Phrasebook.Proofs.Message.Display
import Phrasebook.Proofs.Template.Occurrence

/-! # Names spell the steps of a path

Folding works on the displayed path, where steps are no longer told apart from the text of keys. When the keys
are plain, both passes change only the marks between steps: each becomes one underscore, and what stands
between the marks stays. So the name of a message is its steps joined by underscores, after the group's stem.
-/

namespace Phrasebook

namespace Message

/-- A step without its marks: the key itself, or the position in decimal digits. -/
def Segment.word : Segment → String
  | .key name => name
  | .index position => toString position

def Path.joined (path : Path) : String := "_".intercalate (path.map Segment.word)

theorem Path.toList_joined_cons (segment : Segment) (rest : Path) :
    (joined (segment :: rest)).toList =
      segment.word.toList ++ rest.flatMap fun step => '_' :: step.word.toList := by
  induction rest generalizing segment with
  | nil => simp [joined]
  | cons next rest ih =>
    have hstep : joined (segment :: next :: rest) = segment.word ++ "_" ++ joined (next :: rest) :=
      String.intercalate_cons_cons
    rw [hstep, String.toList_append, String.toList_append, ih, List.flatMap_cons]
    simp

end Message

namespace Identifier

open Message

/-! ## The two passes -/

theorem foldIndices_cons_of_ne {c : Char} (h : c ≠ '[') (cs : List Char) :
    foldIndices (c :: cs) = c :: foldIndices cs := by
  rw [foldIndices]
  split
  · rename_i heq
    rw [if_neg h] at heq
    cases heq
  · rfl

theorem foldIndices_append {text : List Char} (h : '[' ∉ text) (rest : List Char) :
    foldIndices (text ++ rest) = text ++ foldIndices rest := by
  induction text with
  | nil => rfl
  | cons c text ih =>
    rw [List.mem_cons, not_or] at h
    rw [List.cons_append, foldIndices_cons_of_ne (Ne.symm h.1), ih h.2, List.cons_append]

/-- An index in brackets becomes an underscore and its digits, whatever follows it. -/
theorem foldIndices_bracketed {digits : List Char} (hne : digits ≠ [])
    (hdigits : ∀ c ∈ digits, Text.isDecimalDigit c = true) (rest : List Char) :
    foldIndices ('[' :: (digits ++ ']' :: rest)) = '_' :: (digits ++ foldIndices rest) := by
  have hfound : (if '[' = '[' then Text.enclosed? Text.isDecimalDigit ']' (digits ++ ']' :: rest) else none) =
      some (digits, rest) := by
    rw [if_pos rfl, Text.enclosed?_append Text.isDecimalDigit_closeBracket hne hdigits]
  rw [foldIndices]
  split
  · rename_i heq
    rw [hfound] at heq
    cases heq
    rfl
  · rename_i heq
    rw [hfound] at heq
    cases heq

theorem foldPoints_append (front back : List Char) :
    foldPoints (front ++ back) = foldPoints front ++ foldPoints back := List.map_append

theorem foldPoints_of_not_mem {text : List Char} (h : '.' ∉ text) : foldPoints text = text := by
  refine (List.map_congr_left fun c hc => if_neg ?_).trans (List.map_id _)
  rintro rfl
  exact h hc

/-! ## Displayed paths -/

def folded (text : List Char) : List Char := foldPoints (foldIndices text)

theorem folded_name_append {name : String} (h : PlainName name) (rest : List Char) :
    folded (name.toList ++ rest) = name.toList ++ folded rest := by
  have hbracket : '[' ∉ name.toList := fun hmem => absurd (h _ hmem) (by decide)
  have hpoint : '.' ∉ name.toList := fun hmem => absurd (h _ hmem) (by decide)
  rw [folded, foldIndices_append hbracket, foldPoints_append, foldPoints_of_not_mem hpoint, folded]

theorem folded_key_append {name : String} (h : PlainName name) (rest : List Char) :
    folded ((Segment.key name).display.toList ++ rest) = '_' :: (name.toList ++ folded rest) := by
  rw [Segment.display_key_toList, List.cons_append, folded, foldIndices_cons_of_ne (by decide)]
  change '_' :: folded (name.toList ++ rest) = _
  rw [folded_name_append h]

theorem folded_index_append (position : Nat) (rest : List Char) :
    folded ((Segment.index position).display.toList ++ rest) =
      '_' :: (Nat.toDigits 10 position ++ folded rest) := by
  have hdigits : ∀ c ∈ Nat.toDigits 10 position, c.isDigit = true := fun c hc =>
    Nat.isDigit_of_mem_toDigits (by decide) (by decide) hc
  have hpoint : '.' ∉ Nat.toDigits 10 position := fun hmem => absurd (hdigits _ hmem) (by decide)
  have hne : Nat.toDigits 10 position ≠ [] := List.length_pos_iff.mp Nat.length_toDigits_pos
  rw [Segment.display_index_toList, List.cons_append, List.append_assoc, List.singleton_append, folded,
    foldIndices_bracketed hne fun c hc => Text.isDecimalDigit_of_isDigit (hdigits c hc)]
  change '_' :: foldPoints (Nat.toDigits 10 position ++ foldIndices rest) = _
  rw [foldPoints_append, foldPoints_of_not_mem hpoint, folded]

/-- One step of a path in the folded text, whichever steps come after it. -/
theorem folded_display_append {segment : Segment} {rest : Path} (h : Path.Plain (segment :: rest)) (more : List Char) :
    folded (segment.display.toList ++ more) = '_' :: (segment.word.toList ++ folded more) := by
  cases segment with
  | key name => exact folded_key_append (h name List.mem_cons_self) more
  | index position =>
    have hword : (Segment.index position).word.toList = Nat.toDigits 10 position := by simp [Segment.word]
    rw [hword]
    exact folded_index_append position more

theorem folded_tailChars {path : Path} (h : path.Plain) :
    folded path.tailChars = path.flatMap fun step => '_' :: step.word.toList := by
  -- A step is folded alike whatever follows it, so the folded rest is that of the rest alone.
  induction path with
  | nil => simp [Path.tailChars, folded, foldIndices, foldPoints]
  | cons segment rest ih =>
    rw [Path.tailChars, List.flatMap_cons, ← Path.tailChars, folded_display_append h, ih h.tail, List.flatMap_cons,
      List.cons_append]

theorem folded_display {path : Path} (hkeyed : path.Keyed) (hplain : path.Plain) :
    folded path.display.toList = path.joined.toList := by
  obtain ⟨name, rest, rfl⟩ := hkeyed
  rw [Path.display_key_cons, folded_name_append (hplain name List.mem_cons_self), folded_tailChars hplain.tail,
    Path.toList_joined_cons]
  rfl

theorem ofPath_display {path : Path} (hkeyed : path.Keyed) (hplain : path.Plain) (group : String) :
    ofPath path.display group = qualify group path.joined := by
  rw [ofPath, ← folded, folded_display hkeyed hplain, String.ofList_toList]

/-- The name of a message is the group's stem and the steps of its path, joined by underscores, and paths share a
name exactly when their steps join to one text. -/
theorem ofPath_joins_steps {path : Path} (hkeyed : path.Keyed) (hplain : path.Plain) (group : String) :
    ofPath path.display group = (if stem group = "" then "" else stem group ++ "_") ++ path.joined ∧
      ∀ other : Path, other.Keyed → other.Plain →
        (ofPath path.display group = ofPath other.display group ↔ path.joined = other.joined) := by
  refine ⟨?_, fun other hkeyed' hplain' => ?_⟩
  · rw [ofPath_display hkeyed hplain, qualify]
    by_cases hstem : stem group = ""
    · simp [hstem]
    · simp [hstem]
  · rw [ofPath_display hkeyed hplain, ofPath_display hkeyed' hplain']
    exact ⟨qualify_injective, congrArg _⟩

theorem ofPath_joins_steps_brackets :
    let path : Path := [.key "a]1", .index 10, .index 0, .key "", .key "\x7bn\x7d"]
    let other : Path := [.key "a]1_10", .key "0", .key "", .key "\x7bn\x7d"]
    (path.Keyed ∧ path.Plain ∧ other.Keyed ∧ other.Plain) ∧
      ofPath path.display "admin/user-settings" = "admin_user_settings_a]1_10_0__\x7bn\x7d" ∧
        ofPath path.display "admin/user-settings" = ofPath other.display "admin/user-settings" := by
  intro path other
  have hkeyed : path.Keyed := ⟨_, _, rfl⟩
  have hkeyed' : other.Keyed := ⟨_, _, rfl⟩
  have hplain : path.Plain := by simp [path, Path.Plain, PlainName, startsStep]
  have hplain' : other.Plain := by simp [other, Path.Plain, PlainName, startsStep]
  obtain ⟨hname, hsame⟩ := ofPath_joins_steps hkeyed hplain "admin/user-settings"
  exact ⟨⟨hkeyed, hplain, hkeyed', hplain'⟩, hname.trans (by decide +kernel),
    (hsame other hkeyed' hplain').mpr (by decide +kernel)⟩

end Identifier

end Phrasebook
