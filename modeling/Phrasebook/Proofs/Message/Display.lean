import Phrasebook.Message.Path

/-! # Reading displayed paths back

A displayed path determines its path when it starts with a key and no key holds a point or an opening
bracket: a step ends where the next point or bracket stands.
-/

namespace Phrasebook.Message

/-- Whether a character starts a step other than the first. -/
def startsStep (c : Char) : Bool := c = '.' || c = '['

def PlainName (name : String) : Prop := ∀ c ∈ name.toList, startsStep c = false

def Path.Plain (path : Path) : Prop := ∀ name, Segment.key name ∈ path → PlainName name

def Path.Keyed (path : Path) : Prop := ∃ name rest, path = .key name :: rest

/-- The characters of the displayed steps after the first one. -/
def Path.tailChars (path : Path) : List Char := path.flatMap fun segment => segment.display.toList

theorem Path.Plain.tail {segment : Segment} {rest : Path} (h : Path.Plain (segment :: rest)) :
    Path.Plain rest := fun name hname => h name (List.mem_cons_of_mem _ hname)

theorem Path.Plain.of_append {path more : Path} (h : Path.Plain (path ++ more)) : path.Plain :=
  fun name hname => h name (List.mem_append_left _ hname)

/-- A list is not at the top, so the path to it starts with the key that the path to its elements starts with. -/
theorem Path.Keyed.of_element {front more : Path} {position : Nat} (h : Path.Keyed (front ++ .index position :: more)) :
    front.Keyed := by
  obtain ⟨name, rest, heq⟩ := h
  cases front with
  | nil => cases heq
  | cons segment front =>
    cases heq
    exact ⟨_, _, rfl⟩

/-- Two texts that agree beyond runs of the same characters agree in the runs as well. -/
theorem eq_of_append_eq (inside : Char → Bool) {first second firstRest secondRest : List Char}
    (hfirst : ∀ c ∈ first, inside c = true) (hsecond : ∀ c ∈ second, inside c = true)
    (hfirstRest : ∀ c ∈ firstRest.head?, inside c = false)
    (hsecondRest : ∀ c ∈ secondRest.head?, inside c = false)
    (h : first ++ firstRest = second ++ secondRest) : first = second ∧ firstRest = secondRest := by
  have htake (run rest : List Char) (hrun : ∀ c ∈ run, inside c = true)
      (hrest : ∀ c ∈ rest.head?, inside c = false) : (run ++ rest).takeWhile inside = run := by
    rw [List.takeWhile_append_of_pos hrun]
    cases rest with
    | nil => simp
    | cons c cs => simp [hrest c rfl]
  have heq : first = second := by
    rw [← htake first firstRest hfirst hfirstRest, h, htake second secondRest hsecond hsecondRest]
  subst heq
  exact ⟨rfl, List.append_cancel_left h⟩

theorem Segment.display_key_toList (name : String) :
    (Segment.key name).display.toList = '.' :: name.toList := by
  simp [display]

theorem Segment.display_index_toList (position : Nat) :
    (Segment.index position).display.toList = '[' :: (Nat.toDigits 10 position ++ [']']) := by
  simp [display]

theorem Path.tailChars_head (path : Path) : ∀ c ∈ path.tailChars.head?, startsStep c = true := by
  intro c hc
  cases path with
  | nil => cases hc
  | cons segment rest =>
    cases segment with
    | key name =>
      rw [tailChars, List.flatMap_cons, Segment.display_key_toList] at hc
      cases hc
      rfl
    | index position =>
      rw [tailChars, List.flatMap_cons, Segment.display_index_toList] at hc
      cases hc
      rfl

theorem toDigits_ne_closeBracket {position : Nat} {c : Char} (h : c ∈ Nat.toDigits 10 position) :
    decide (c ≠ ']') = true := by
  have := Nat.isDigit_of_mem_toDigits (by decide) (by decide) h
  rw [decide_eq_true_iff]
  rintro rfl
  exact absurd this (by decide)

theorem toDigits_injective {first second : Nat} (h : Nat.toDigits 10 first = Nat.toDigits 10 second) :
    first = second := by
  rw [← Nat.ofDigitChars_ten_toDigits (n := first), h, Nat.ofDigitChars_ten_toDigits]

theorem Path.name_tailChars_injective {firstName secondName : String} {first second : Path}
    (hfirst : PlainName firstName) (hsecond : PlainName secondName)
    (h : firstName.toList ++ first.tailChars = secondName.toList ++ second.tailChars) :
    firstName = secondName ∧ first.tailChars = second.tailChars := by
  obtain ⟨hname, hrest⟩ := eq_of_append_eq (fun c => !startsStep c)
    (fun c hc => by simp [hfirst c hc]) (fun c hc => by simp [hsecond c hc])
    (fun c hc => by simp [first.tailChars_head c hc]) (fun c hc => by simp [second.tailChars_head c hc]) h
  exact ⟨String.toList_inj.mp hname, hrest⟩

theorem Path.tailChars_injective {first second : Path} (hfirst : first.Plain) (hsecond : second.Plain)
    (h : first.tailChars = second.tailChars) : first = second := by
  induction first generalizing second with
  | nil =>
    cases second with
    | nil => rfl
    | cons segment rest =>
      cases segment with
      | key name => simp [tailChars, Segment.display_key_toList] at h
      | index position => simp [tailChars, Segment.display_index_toList] at h
  | cons segment rest ih =>
    cases second with
    | nil =>
      cases segment with
      | key name => simp [tailChars, Segment.display_key_toList] at h
      | index position => simp [tailChars, Segment.display_index_toList] at h
    | cons segment' rest' =>
      simp only [tailChars, List.flatMap_cons] at h
      cases segment with
      | key name =>
        cases segment' with
        | key name' =>
          rw [Segment.display_key_toList, Segment.display_key_toList, List.cons_append, List.cons_append,
            List.cons_inj_right] at h
          obtain ⟨rfl, hrest⟩ := name_tailChars_injective (hfirst name List.mem_cons_self)
            (hsecond name' List.mem_cons_self) h
          rw [ih hfirst.tail hsecond.tail hrest]
        | index position =>
          rw [Segment.display_key_toList, Segment.display_index_toList] at h
          cases h
      | index position =>
        cases segment' with
        | key name =>
          rw [Segment.display_key_toList, Segment.display_index_toList] at h
          cases h
        | index position' =>
          rw [Segment.display_index_toList, Segment.display_index_toList, List.cons_append,
            List.cons_append, List.cons_inj_right, List.append_assoc, List.append_assoc] at h
          obtain ⟨hdigits, hrest⟩ := eq_of_append_eq (fun c => decide (c ≠ ']'))
            (fun c hc => toDigits_ne_closeBracket hc) (fun c hc => toDigits_ne_closeBracket hc)
            (by simp) (by simp) h
          rw [toDigits_injective hdigits, ih hfirst.tail hsecond.tail (List.cons_inj_right _ |>.mp hrest)]

theorem Path.display_key_cons (name : String) (rest : Path) :
    (display (.key name :: rest)).toList = name.toList ++ Path.tailChars rest := by
  simp [display, tailChars, String.toList_join, List.flatMap_map]

theorem Path.display_injective {first second : Path} (hfirst : first.Plain) (hsecond : second.Plain)
    (hfirstKeyed : first.Keyed) (hsecondKeyed : second.Keyed) (h : first.display = second.display) :
    first = second := by
  obtain ⟨name, rest, rfl⟩ := hfirstKeyed
  obtain ⟨name', rest', rfl⟩ := hsecondKeyed
  have hchars := congrArg String.toList h
  rw [display_key_cons, display_key_cons] at hchars
  obtain ⟨rfl, hrest⟩ := name_tailChars_injective (hfirst name List.mem_cons_self)
    (hsecond name' List.mem_cons_self) hchars
  rw [tailChars_injective hfirst.tail hsecond.tail hrest]

theorem Path.display_append {path : Path} (h : path.Keyed) (more : Path) :
    (display (path ++ more)).toList = path.display.toList ++ Path.tailChars more := by
  obtain ⟨name, rest, rfl⟩ := h
  rw [List.cons_append, display_key_cons, display_key_cons, tailChars, List.flatMap_append,
    List.append_assoc]
  rfl

theorem Path.display_element {path : Path} (h : path.Keyed) (position : Nat) :
    display (path.element position) = path.display ++ "[" ++ toString position ++ "]" := by
  rw [← String.toList_inj, element, display_append h, tailChars, List.flatMap_singleton]
  simp [Segment.display]

theorem Path.display_append_index (path : Path) (position : Nat) (more : Path) :
    (display (path ++ .index position :: more)).toList =
      path.display.toList ++ Path.tailChars (.index position :: more) := by
  cases path with
  | nil => simp [display, tailChars, String.toList_join, List.flatMap_map]
  | cons segment rest =>
    cases segment with
    | key name => exact display_append ⟨name, rest, rfl⟩ _
    | index first => simp [display, tailChars, String.toList_join, List.flatMap_map]

/-- What lies beyond an element has a displayed path that is longer than the list's by two brackets and the digits
between them. -/
theorem Path.display_length_add_le (path : Path) (position : Nat) (more : Path) :
    path.display.length + 3 ≤ (display (path ++ .index position :: more)).length := by
  have hdigits : 0 < (Nat.toDigits 10 position).length := Nat.length_toDigits_pos
  rw [← String.length_toList, ← String.length_toList, display_append_index, tailChars, List.flatMap_cons,
    Segment.display_index_toList]
  simp only [List.length_append, List.length_cons, List.length_nil]
  omega

theorem Path.display_length_lt (path : Path) (position : Nat) (more : Path) :
    path.display.length < (display (path ++ .index position :: more)).length := by
  have := display_length_add_le path position more
  omega

end Phrasebook.Message
