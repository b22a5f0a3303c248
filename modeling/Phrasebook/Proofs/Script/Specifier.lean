import Phrasebook.FileTree
import Phrasebook.Proofs.FilePath
import Phrasebook.Proofs.Script.StringLiteral
import Phrasebook.Proofs.Template.Positions
import Phrasebook.Script.Index

/-! # Specifiers

The clause of an import or an export ends with a specifier, a string literal that leads from the directory of the
module to another module. Specifiers name compiled modules, whose sources have the same names but for the extension.
No way from a directory along a specifier is longer than the two together.
-/

namespace Phrasebook.Script

/-! ## Reading specifiers -/

/-- What the specifier denotes with which a clause ends at the front of a text, if one does. -/
def clause? : List Char → Option (Option String)
  | '\x7d' :: ' ' :: 'f' :: 'r' :: 'o' :: 'm' :: ' ' :: '"' :: rest => some (StringLiteral.text? rest)
  | _ => none

/-- What the specifiers of a script denote, from the top. -/
def specifiers (text : String) : List (Option String) := text.toList.tails.filterMap clause?

section Reading

variable {front spec rest : List Char}

theorem clause?_of_ne {c : Char} (h : c ≠ '\x7d') (cs : List Char) : clause? (c :: cs) = none := by
  rw [clause?]
  intro rest heq
  exact h (List.cons.inj heq).1

theorem filterMap_clause?_append (h : '\x7d' ∉ front) (rest : List Char) :
    (front ++ rest).tails.filterMap clause? = rest.tails.filterMap clause? :=
  Template.filterMap_tails_append (fun _ hc => clause?_of_ne (ne_of_mem_of_not_mem hc h)) rest

def clauseLine (spec : String) : String := "\x7d from \"" ++ spec ++ "\";"

/-- The specifier of a clause is read where the clause ends. -/
theorem filterMap_clause?_clause {spec : String} (h : '\x7d' ∉ spec.toList) (rest : List Char) :
    ((clauseLine spec).toList ++ '\n' :: rest).tails.filterMap clause? =
      StringLiteral.text? (spec.toList ++ '"' :: ';' :: '\n' :: rest) :: rest.tails.filterMap clause? := by
  have hline : (clauseLine spec).toList ++ '\n' :: rest =
      '\x7d' :: (" from \"".toList ++ (spec.toList ++ '"' :: ';' :: '\n' :: rest)) := by
    simp [clauseLine]
  have hrest : (" from \"".toList ++ (spec.toList ++ '"' :: ';' :: '\n' :: rest)).tails.filterMap clause? =
      rest.tails.filterMap clause? := by
    rw [filterMap_clause?_append (by decide), filterMap_clause?_append h,
      ← filterMap_clause?_append (show '\x7d' ∉ ['"', ';', '\n'] by decide) rest]
    rfl
  rw [hline, List.tails_cons, List.filterMap_cons, hrest]
  rfl

theorem toList_layOut (lines : List String) :
    (layOut "" lines).toList = lines.flatMap fun line => line.toList ++ ['\n'] := by
  induction lines with
  | nil => rfl
  | cons line lines ih =>
    rw [layOut] at ih
    rw [layOut, List.map_cons, String.join_cons, String.toList_append, ih, List.flatMap_cons, String.toList_append]
    simp

theorem specifiers_layOut_append {front : List String} (h : ∀ line ∈ front, '\x7d' ∉ line.toList)
    (lines : List String) : specifiers (layOut "" (front ++ lines)) = specifiers (layOut "" lines) := by
  rw [specifiers, specifiers, toList_layOut, toList_layOut, List.flatMap_append]
  refine filterMap_clause?_append ?_ _
  rw [List.mem_flatMap]
  rintro ⟨line, hline, hmem⟩
  exact h line hline ((List.mem_append.mp hmem).resolve_right (by decide))

theorem exists_specifiers_layOut_cons {spec : String} (h : '\x7d' ∉ spec.toList) (lines : List String) :
    ∃ rest, specifiers (layOut "" (clauseLine spec :: lines)) =
      StringLiteral.text? (spec.toList ++ '"' :: rest) :: specifiers (layOut "" lines) := by
  refine ⟨';' :: '\n' :: (layOut "" lines).toList, ?_⟩
  rw [specifiers, specifiers, ← filterMap_clause?_clause h, toList_layOut, List.flatMap_cons, List.append_assoc,
    List.singleton_append, toList_layOut]

end Reading

/-! ## Following specifiers -/

/-- Where one part of a specifier leads. -/
def enter (here : Location) (part : String) : Location :=
  if FilePath.isBlank part then here else if part = ".." then here.dropLast else here ++ [part]

/-- Where a specifier leads from the directory of a module. Only specifiers that start with one or two points lead
to a file. -/
def resolve? (here : Location) (specifier : String) : Option Location :=
  match Text.parts '/' specifier with
  | [] => none
  | first :: rest => if first = "." || first = ".." then some ((first :: rest).foldl enter here) else none

def sourceName? (name : String) : Option String :=
  match name.toList.reverse with
  | 's' :: 'j' :: '.' :: stem => some (String.ofList (stem.reverse ++ ['.', 't', 's']))
  | _ => none

/-- The source file of the module to which a specifier leads from a directory. -/
def sourceFile? (here : Location) (specifier : String) : Option Location := do
  let place ← resolve? here specifier
  let name ← place.getLast?
  let source ← sourceName? name
  return place.dropLast ++ [source]

section Following

variable {here place : Location} {specifier : String}

/-- The characters of names with one more for each name. -/
def span : List String → Nat
  | [] => 0
  | name :: rest => name.length + 1 + span rest

theorem span_cons (name : String) (rest : List String) : span (name :: rest) = name.length + 1 + span rest := rfl

theorem span_append (first second : List String) : span (first ++ second) = span first + span second := by
  induction first with
  | nil => exact (Nat.zero_add _).symm
  | cons name rest ih => rw [List.cons_append, span_cons, span_cons, ih, ← Nat.add_assoc]

theorem span_dropLast_le (names : List String) : span names.dropLast ≤ span names := by
  induction names using List.reverseRecOn with
  | nil => exact Nat.le_refl _
  | append_singleton front name =>
    rw [List.dropLast_concat, span_append]
    exact Nat.le_add_right _ _

theorem parts_slash (first second : String) :
    Text.parts '/' (first ++ "/" ++ second) = Text.parts '/' first ++ Text.parts '/' second := by
  have htext : (first ++ "/" ++ second).toList = first.toList ++ '/' :: second.toList := by simp
  rw [Text.parts, htext, List.splitOn_append_cons_self, List.map_append]
  rfl

theorem span_parts (separator : Char) (text : String) : span (Text.parts separator text) = text.length + 1 := by
  have hsplit (cs : List Char) : span ((cs.splitOn separator).map String.ofList) = cs.length + 1 := by
    induction cs with
    | nil => rfl
    | cons c cs ih =>
      rw [List.splitOn_cons_eq_if_modifyHead]
      split
      · rw [List.map_cons, span_cons, ih, String.ofList_nil, String.length_empty, List.length_cons]
        omega
      · obtain ⟨part, rest, hparts⟩ := List.exists_cons_of_ne_nil (List.splitOn_ne_nil separator cs)
        rw [hparts, List.map_cons, span_cons, String.length_ofList] at ih
        rw [hparts, List.modifyHead_cons, List.map_cons, span_cons, String.length_ofList, List.length_cons,
          List.length_cons]
        omega
  rw [Text.parts, hsplit, String.length_toList]

theorem span_enter_le (here : Location) (part : String) : span (enter here part) ≤ span here + (part.length + 1) := by
  rw [enter]
  split
  · exact Nat.le_add_right _ _
  · split
    · exact (span_dropLast_le here).trans (Nat.le_add_right _ _)
    · rw [span_append, span_cons]
      exact Nat.le_refl _

theorem span_foldl_enter_le (parts : List String) (here : Location) :
    span (parts.foldl enter here) ≤ span here + span parts := by
  induction parts generalizing here with
  | nil => exact Nat.le_refl _
  | cons part rest ih =>
    rw [List.foldl_cons, span_cons]
    have := ih (enter here part)
    have := span_enter_le here part
    omega

theorem span_resolve?_le (h : resolve? here specifier = some place) :
    span place + 1 ≤ span here + specifier.length := by
  have hparts := span_parts '/' specifier
  rw [resolve?] at h
  split at h
  · cases h
  · rename_i first rest heq
    rw [heq, span_cons] at hparts
    obtain ⟨hfirst, hplace⟩ := Option.ite_none_right_eq_some.mp h
    cases hplace
    rw [Bool.or_eq_true, decide_eq_true_eq, decide_eq_true_eq] at hfirst
    have hhere : span (enter here first) ≤ span here ∧ 1 ≤ first.length := by
      rcases hfirst with rfl | rfl
      · exact ⟨Nat.le_refl _, by decide⟩
      · exact ⟨span_dropLast_le here, by decide⟩
    have := span_foldl_enter_le rest (enter here first)
    rw [List.foldl_cons]
    omega

theorem length_sourceName? {name source : String} (h : sourceName? name = some source) :
    source.length = name.length := by
  rw [sourceName?] at h
  split at h
  · rename_i stem heq
    cases h
    have hlength := congrArg List.length heq
    simp only [List.length_reverse, List.length_cons, String.length_toList] at hlength
    rw [← String.length_toList, String.toList_ofList, List.length_append, List.length_reverse]
    simp only [List.length_cons, List.length_nil]
    omega
  · cases h

/-- The way to the source of a module is no longer than the directory and the specifier together. -/
theorem span_sourceFile?_le {file : Location} (h : sourceFile? here specifier = some file) :
    span file + 1 ≤ span here + specifier.length := by
  obtain ⟨place, hplace, h⟩ := Option.bind_eq_some_iff.mp h
  obtain ⟨name, hname, h⟩ := Option.bind_eq_some_iff.mp h
  obtain ⟨source, hsource, heq⟩ := Option.bind_eq_some_iff.mp h
  cases heq
  obtain ⟨front, rfl⟩ := List.getLast?_eq_some_iff.mp hname
  have hle := span_resolve?_le hplace
  rw [List.dropLast_concat, span_append, span_cons, length_sourceName? hsource]
  rw [span_append, span_cons] at hle
  exact hle

theorem foldl_enter_steps {parts : List String} (h : ∀ part ∈ parts, FilePath.IsStep part) (here : Location) :
    parts.foldl enter here = here ++ parts := by
  induction parts generalizing here with
  | nil => exact (List.append_nil here).symm
  | cons part rest ih =>
    rw [List.forall_mem_cons] at h
    have hpart : enter here part = here ++ [part] := by rw [enter, h.1.1, if_neg Bool.false_ne_true, if_neg h.1.2]
    rw [List.foldl_cons, hpart, ih h.2, List.append_assoc, List.singleton_append]

/-- As many steps up as there are names lead back. -/
theorem foldl_enter_up (here names : Location) :
    (List.replicate names.length "..").foldl enter (here ++ names) = here := by
  induction names using List.reverseRecOn with
  | nil => exact List.append_nil here
  | append_singleton names name ih =>
    have hup : enter (here ++ (names ++ [name])) ".." = here ++ names := by
      rw [← List.append_assoc]
      exact List.dropLast_concat
    rw [List.length_append, List.length_singleton, List.replicate_succ, List.foldl_cons, hup]
    exact ih

theorem sourceFile?_of_parts {first name source : String} {rest : List String} {place : Location}
    (hparts : Text.parts '/' specifier = first :: (rest ++ [name])) (hfirst : first = "." ∨ first = "..")
    (hplace : (first :: rest).foldl enter here = place) (hname : FilePath.IsStep name)
    (hsource : sourceName? name = some source) : sourceFile? here specifier = some (place ++ [source]) := by
  have hresolve : resolve? here specifier = some (place ++ [name]) := by
    rw [resolve?, hparts]
    dsimp only
    rw [if_pos (by simpa using hfirst), ← List.cons_append, List.foldl_append, hplace,
      foldl_enter_steps (List.forall_mem_singleton.mpr hname)]
  rw [sourceFile?, hresolve]
  simp [hsource]

end Following

end Phrasebook.Script
