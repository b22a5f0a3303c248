import Mathlib.Data.List.DropRight
import Phrasebook.FilePath
import Phrasebook.FileTree

/-! # Paths below a directory

A path below a directory is the directory's path and the names on the way. Its parent is the path with one
name less, and where no name is left, a path with nothing but parts that stand for nothing taken away.
-/

namespace Phrasebook.FilePath

/-- A part that names an entry of the directory before it. -/
def IsStep (name : String) : Prop := isBlank name = false ∧ name ≠ ".."

instance (name : String) : Decidable (IsStep name) := inferInstanceAs (Decidable (_ ∧ _))

/-- The parts of a directory's path before the names of what is in it. -/
def base (dir : FilePath) : List String :=
  if dir.parts.getLast? = some "" then dir.parts.dropLast else dir.parts

theorem IsStep.ne_empty {name : String} (h : IsStep name) : name ≠ "" := by
  rintro rfl
  exact absurd h.1 (by decide)

theorem IsStep.ne_point {name : String} (h : IsStep name) : name ≠ "." := by
  rintro rfl
  exact absurd h.1 (by decide)

theorem settle_eq_rdropWhile (parts : List String) : settle parts = parts.rdropWhile isBlank := rfl

theorem settle_append_step (parts : List String) {name : String} (h : IsStep name) :
    settle (parts ++ [name]) = parts ++ [name] := by
  rw [settle_eq_rdropWhile, List.rdropWhile_concat_neg _ _ _ (by simp [h.1])]

theorem settle_eq_nil_iff (parts : List String) : settle parts = [] ↔ ∀ part ∈ parts, isBlank part = true :=
  List.rdropWhile_eq_nil_iff

section Parent

variable {parts : List String}

theorem parent?_absolute (hparts : parts ≠ []) (hsettle : settle parts = parts) :
    parent? ⟨"" :: parts⟩ =
      some ⟨if settle parts.dropLast = [] then ["", ""] else "" :: settle parts.dropLast⟩ := by
  cases parts with
  | nil => exact absurd rfl hparts
  | cons first rest =>
    simp only [parent?, hsettle]
    split
    · rename_i hnil
      rw [hnil, if_pos rfl]
    · rename_i hne
      rw [if_neg hne]

theorem parent?_point (hparts : parts ≠ []) (hsettle : settle parts = parts) :
    parent? ⟨"." :: parts⟩ = some ⟨"." :: settle parts.dropLast⟩ := by
  simp only [parent?, hsettle]

theorem parent?_named {first : String} (hfirst : isBlank first = false)
    (hsettle : settle (first :: parts) = first :: parts) :
    parent? ⟨first :: parts⟩ =
      some ⟨if settle (first :: parts).dropLast = [] then [""] else settle (first :: parts).dropLast⟩ := by
  have hempty : first ≠ "" := by
    rintro rfl
    exact absurd hfirst (by decide)
  have hpoint : first ≠ "." := by
    rintro rfl
    exact absurd hfirst (by decide)
  unfold parent?
  split
  · rename_i heq
    cases heq
    exact absurd rfl hempty
  · rename_i heq
    cases heq
    exact absurd rfl hpoint
  · dsimp only
    rw [hsettle]
    dsimp only
    split
    · rename_i hnil
      rw [hnil, if_pos rfl]
    · rename_i hne
      rw [if_neg hne]

end Parent

/-- The parts of the path around a name that stands after the given parts. -/
def above : List String → List String
  | [] => [""]
  | first :: rest =>
    if first = "" then if settle rest = [] then ["", ""] else "" :: settle rest
    else if first = "." then "." :: settle rest
    else settle (first :: rest)

theorem parent?_append_step (parts : List String) {name : String} (h : IsStep name) :
    parent? ⟨parts ++ [name]⟩ = some ⟨above parts⟩ := by
  have hsettle (parts : List String) := settle_append_step parts h
  have hne (parts : List String) : parts ++ [name] ≠ [] := by simp
  cases parts with
  | nil =>
    rw [List.nil_append, parent?_named h.1 (hsettle [])]
    rfl
  | cons first rest =>
    rw [List.cons_append, above]
    by_cases hempty : first = ""
    · rw [if_pos hempty, hempty, parent?_absolute (hne rest) (hsettle rest), List.dropLast_concat]
    · rw [if_neg hempty]
      by_cases hpoint : first = "."
      · rw [if_pos hpoint, hpoint, parent?_point (hne rest) (hsettle rest), List.dropLast_concat]
      · have hfirst : isBlank first = false := by simp [isBlank, hempty, hpoint]
        have hsome : settle (first :: rest) ≠ [] := by
          rw [ne_eq, settle_eq_nil_iff, List.forall_mem_cons, hfirst]
          simp
        have hwhole : settle (first :: (rest ++ [name])) = first :: (rest ++ [name]) := hsettle (first :: rest)
        rw [if_neg hpoint, parent?_named hfirst hwhole, ← List.cons_append, List.dropLast_concat,
          if_neg hsome]

theorem above_append_step (parts : List String) {name : String} (h : IsStep name) :
    above (parts ++ [name]) = parts ++ [name] := by
  have hsettle (parts : List String) := settle_append_step parts h
  have hne (parts : List String) : parts ++ [name] ≠ [] := by simp
  cases parts with
  | nil =>
    rw [List.nil_append, above, if_neg h.ne_empty, if_neg h.ne_point]
    exact hsettle []
  | cons first rest =>
    rw [List.cons_append, above, hsettle rest, if_neg (hne rest)]
    split
    · rename_i hempty
      rw [hempty]
    · split
      · rename_i hpoint
        rw [hpoint]
      · exact hsettle (first :: rest)

/-- Only parts that stand for nothing are taken away. -/
theorem exists_settle_append (parts : List String) :
    ∃ blanks, parts = settle parts ++ blanks ∧ ∀ part ∈ blanks, isBlank part = true :=
  ⟨parts.rtakeWhile isBlank, List.rdropWhile_append_rtakeWhile.symm,
    fun _ hpart => List.mem_rtakeWhile_imp hpart⟩

theorem isAbsolute_above (parts : List String) {name : String} (h : IsStep name) :
    isAbsolute ⟨above parts⟩ = isAbsolute ⟨parts ++ [name]⟩ := by
  cases parts with
  | nil =>
    have := h.ne_empty
    simp [above, isAbsolute]
  | cons first rest =>
    rw [above]
    by_cases hempty : first = ""
    · subst hempty
      rw [if_pos rfl]
      have hlast : isAbsolute ⟨"" :: rest ++ [name]⟩ = true := by
        cases rest <;> rfl
      rw [hlast]
      split
      · rfl
      · rename_i hsome
        cases hsettle : settle rest with
        | nil => exact absurd hsettle hsome
        | cons second more => rfl
    · have hlast : isAbsolute ⟨first :: rest ++ [name]⟩ = false := by
        simp [isAbsolute, hempty]
      rw [if_neg hempty, hlast]
      split
      · simp [isAbsolute]
      · obtain ⟨blanks, hblanks, -⟩ := exists_settle_append (first :: rest)
        cases hsettle : settle (first :: rest) with
        | nil => rfl
        | cons second more =>
          rw [hsettle] at hblanks
          cases hblanks
          simp [isAbsolute, hempty]

theorem isAbsolute_append_step (parts : List String) {name : String} (h : IsStep name) (rest : List String) :
    isAbsolute ⟨parts ++ name :: rest⟩ = decide (parts.head? = some "") := by
  have hname := h.ne_empty
  cases parts with
  | nil => simp [isAbsolute, hname]
  | cons first more => cases more <;> by_cases hfirst : first = "" <;> simp [isAbsolute, hfirst]

theorem ancestors_append_step (parts : List String) {first second : String} (hfirst : IsStep first)
    (hsecond : IsStep second) :
    ancestors ⟨parts ++ [first] ++ [second]⟩ =
      ⟨parts ++ [first] ++ [second]⟩ :: ancestors ⟨parts ++ [first]⟩ := by
  have hlength : (parts ++ [first] ++ [second]).length = (parts ++ [first]).length + 1 := List.length_append
  rw [ancestors, ancestors, hlength, around, parent?_append_step _ hsecond, above_append_step _ hfirst]

theorem join_step (dir : FilePath) {name : String} (h : IsStep name) (rest : List String) :
    dir.join ⟨name :: rest⟩ = ⟨base dir ++ name :: rest⟩ := by
  have hrelative : isAbsolute ⟨name :: rest⟩ = false := by
    cases rest <;> simp [isAbsolute, h.ne_empty]
  rw [join, hrelative, if_neg Bool.false_ne_true, base]
  split <;> rfl

theorem name?_child (dir : FilePath) {name : String} (h : IsStep name) : (dir.child name).name? = some name := by
  rw [child, join_step _ h, name?, settle_append_step _ h, List.getLast?_concat]
  exact if_neg h.2

theorem stem?_child (dir : FilePath) {name : String} (h : IsStep name) :
    (dir.child name).stem? = some (splitName name).1 := by
  rw [stem?, name?_child dir h, Option.map_some]

end Phrasebook.FilePath
