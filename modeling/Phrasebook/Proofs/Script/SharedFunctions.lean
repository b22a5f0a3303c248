import Phrasebook.Proofs.Template.Occurrence

/-! # What the shared module's functions compute

Accessor bodies call two functions of the shared module. One replaces the matches of a pattern, an opening
brace, a greedy run of word characters and a closing brace, searched from left to right; the other looks for
a braced name as a substring. Both agree with the reading of templates piece by piece, the second one for
the names that a template can have.
-/

namespace Phrasebook.Script

def afterBrace? : List Char → Option (List Char)
  | [] => none
  | c :: cs => if c = '\x7d' then some cs else none

/-- A match of a greedy run of one or more characters and a closing brace: the longest run is tried first,
and characters are given back until the brace fits. -/
def matchRun? (inside : Char → Bool) : List Char → Option (List Char × List Char)
  | [] => none
  | c :: cs =>
    if inside c then
      match matchRun? inside cs with
      | some (run, rest) => some (c :: run, rest)
      | none => (afterBrace? cs).map fun rest => ([c], rest)
    else none

theorem afterBrace?_length {cs rest : List Char} (h : afterBrace? cs = some rest) :
    rest.length < cs.length := by
  cases cs with
  | nil => cases h
  | cons c cs =>
    rw [afterBrace?] at h
    split at h
    · cases h
      simp
    · cases h

theorem matchRun?_length {inside : Char → Bool} {cs run rest : List Char}
    (h : matchRun? inside cs = some (run, rest)) : rest.length < cs.length := by
  induction cs generalizing run with
  | nil => cases h
  | cons c cs ih =>
    rw [List.length_cons]
    rw [matchRun?] at h
    split at h
    · split at h
      · rename_i found tail heq
        cases h
        have := ih heq
        omega
      · obtain ⟨tail, htail, heq⟩ := Option.map_eq_some_iff.mp h
        cases heq
        have := afterBrace?_length htail
        omega
    · cases h

/-- The text with every match of the pattern replaced, as a function of the name in it. -/
def replaceMatches (inside : Char → Bool) (replacement : List Char → List Char) :
    List Char → List Char
  | [] => []
  | c :: cs =>
    match _h : if c = '\x7b' then matchRun? inside cs else none with
    | some (name, rest) => replacement name ++ replaceMatches inside replacement rest
    | none => c :: replaceMatches inside replacement cs
termination_by cs => cs.length
decreasing_by
  · split at _h
    · have := matchRun?_length _h
      simp only [List.length_cons]
      omega
    · cases _h
  · simp

def braced (name : List Char) : List Char := '\x7b' :: (name ++ ['\x7d'])

/-- What stands for a placeholder: the value of its name if the name is listed and has one. -/
def substitute (names : List String) (params : Keyed String) (name : List Char) : List Char :=
  if names.contains (String.ofList name) then
    match params.get? (String.ofList name) with
    | some value => value.toList
    | none => braced name
  else braced name

def interpolate (template : String) (names : List String) (params : Option (Keyed String)) : String :=
  match params with
  | none => template
  | some params =>
    String.ofList (replaceMatches Text.isWord (substitute names params) template.toList)

def hasPlaceholder (text : String) (names : List String) : Bool :=
  names.any fun name => decide (braced name.toList <:+: text.toList)

/-- For names of word characters, the function `hasPlaceholder` finds what reading finds. -/
theorem hasPlaceholder_eq_mentionsIn {isWord : Char → Bool} (hopen : isWord '\x7b' = false)
    (hclose : isWord '\x7d' = false) {names : List String}
    (hnames : ∀ name ∈ names, name.toList ≠ [] ∧ ∀ c ∈ name.toList, isWord c) (text : String) :
    hasPlaceholder text names = Template.mentionsIn isWord text names := by
  rw [Bool.eq_iff_iff, Template.mentionsIn_iff hopen hclose, hasPlaceholder, List.any_eq_true]
  constructor
  · rintro ⟨name, hname, hin⟩
    exact ⟨name, hname, (hnames name hname).1, (hnames name hname).2, of_decide_eq_true hin⟩
  · rintro ⟨name, hname, -, -, hin⟩
    exact ⟨name, hname, decide_eq_true hin⟩

end Phrasebook.Script
