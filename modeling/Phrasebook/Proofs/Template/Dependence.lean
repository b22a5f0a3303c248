import Mathlib.Algebra.Order.BigOperators.Group.List
import Mathlib.Algebra.Order.Group.Nat
import Phrasebook.Proofs.Accessor
import Phrasebook.Proofs.Template.Substitution

/-! # What a substitution depends on

A substitution reads the declared names and the values only at the names that occur in the text. Two lists of
names and two associations of values that supply the same of those names, with the same values, fill the text
with the same result. Each of those names counts: another value for one of them gives another result.
-/

namespace Phrasebook.Template

variable {text name : String} {declared declared' : List String} {values values' : Keyed String}

theorem fillPiece_congr (hsupplied : Supplied declared values name ↔ Supplied declared' values' name)
    (hvalue : Supplied declared values name → values.get? name = values'.get? name) :
    fillPiece declared values (.hole name) = fillPiece declared' values' (.hole name) := by
  by_cases h : Supplied declared values name
  · obtain ⟨hname, value, hget⟩ := h
    have hget' : values'.get? name = some value := by rw [← hvalue ⟨hname, value, hget⟩, hget]
    rw [fillPiece_of_get? hname hget, fillPiece_of_get? (hsupplied.mp ⟨hname, value, hget⟩).1 hget']
  · rw [fillPiece_of_not_supplied h, fillPiece_of_not_supplied (mt hsupplied.mpr h)]

theorem fill_eq_of_supplied (h : ∀ name ∈ names text,
    (Supplied declared values name ↔ Supplied declared' values' name) ∧
      (Supplied declared values name → values.get? name = values'.get? name)) :
    fill text declared values = fill text declared' values' :=
  congrArg String.ofList
    (flatMap_pieces_congr (fun _ => rfl) fun name hname => fillPiece_congr (h name hname).1 (h name hname).2)

theorem fill_eq_of_declared (h : ∀ name ∈ declared, values.get? name = values'.get? name) (text : String) :
    fill text declared values = fill text declared values' := by
  refine fill_eq_of_supplied fun name _ => ⟨?_, fun hsupplied => h name hsupplied.1⟩
  refine and_congr_right fun hdeclared => ?_
  rw [h name hdeclared]

/-! ## One value changed -/

/-- Texts put together from parts of the same lengths are put together from the same parts. -/
theorem eq_of_flatMap_eq {α : Type} {f g : α → List Char} {parts : List α}
    (hlength : ∀ part ∈ parts, (f part).length = (g part).length) (h : parts.flatMap f = parts.flatMap g) :
    ∀ part ∈ parts, f part = g part := by
  induction parts with
  | nil => exact fun part hpart => absurd hpart List.not_mem_nil
  | cons first rest ih =>
    rw [List.forall_mem_cons] at hlength ⊢
    obtain ⟨hfirst, hrest⟩ := List.append_inj h hlength.1
    exact ⟨hfirst, ih hlength.2 hrest⟩

theorem length_flatMap_lt {α : Type} {f g : α → List Char} {parts : List α}
    (hle : ∀ part ∈ parts, (f part).length ≤ (g part).length)
    (hlt : ∃ part ∈ parts, (f part).length < (g part).length) :
    (parts.flatMap f).length < (parts.flatMap g).length := by
  rw [List.length_flatMap, List.length_flatMap]
  exact List.sum_lt_sum _ _ hle hlt

variable {value value' : String}

theorem fillPiece_of_same (hother : ∀ other, other ≠ name → values.get? other = values'.get? other) {piece : Piece}
    (hpiece : piece ≠ .hole name) : fillPiece declared values piece = fillPiece declared values' piece := by
  cases piece with
  | char c => rfl
  | hole other =>
    have hne : other ≠ name := fun h => hpiece (congrArg Piece.hole h)
    rw [fillPiece, fillPiece, hother other hne]

section OneValue

variable (hname : name ∈ names text) (hdeclared : name ∈ declared)
variable (hother : ∀ other, other ≠ name → values.get? other = values'.get? other)
variable (hvalue : values.get? name = some value) (hvalue' : values'.get? name = some value')
include hname hdeclared hother hvalue hvalue'

/-- A shorter value for a name that occurs gives a shorter result. -/
theorem length_le_of_fill_eq (h : fill text declared values = fill text declared values') :
    value'.toList.length ≤ value.toList.length := by
  by_contra hlonger
  have hle : ∀ piece ∈ pieces Text.isWord text.toList,
      (fillPiece declared values piece).length ≤ (fillPiece declared values' piece).length := by
    intro piece _
    by_cases hpiece : piece = .hole name
    · rw [hpiece, fillPiece_of_get? hdeclared hvalue, fillPiece_of_get? hdeclared hvalue']
      omega
    · rw [fillPiece_of_same hother hpiece]
  have hlt : (fillPiece declared values (.hole name)).length < (fillPiece declared values' (.hole name)).length := by
    rw [fillPiece_of_get? hdeclared hvalue, fillPiece_of_get? hdeclared hvalue']
    omega
  have hshorter := length_flatMap_lt hle ⟨.hole name, (mem_names_iff_hole_mem name).mp hname, hlt⟩
  rw [String.ofList_injective h] at hshorter
  exact lt_irrefl _ hshorter

/-- A text filled the same with two values for a name that occurs in it was filled with one value. -/
theorem value_eq_of_fill_eq (h : fill text declared values = fill text declared values') : value = value' := by
  have hlength : ∀ piece ∈ pieces Text.isWord text.toList,
      (fillPiece declared values piece).length = (fillPiece declared values' piece).length := by
    intro piece _
    by_cases hpiece : piece = .hole name
    · rw [hpiece, fillPiece_of_get? hdeclared hvalue, fillPiece_of_get? hdeclared hvalue']
      have hother' : ∀ other, other ≠ name → values'.get? other = values.get? other :=
        fun other hne => (hother other hne).symm
      exact le_antisymm (length_le_of_fill_eq hname hdeclared hother' hvalue' hvalue h.symm)
        (length_le_of_fill_eq hname hdeclared hother hvalue hvalue' h)
    · rw [fillPiece_of_same hother hpiece]
  have hsame := eq_of_flatMap_eq hlength (String.ofList_injective h) _ ((mem_names_iff_hole_mem name).mp hname)
  rw [fillPiece_of_get? hdeclared hvalue, fillPiece_of_get? hdeclared hvalue'] at hsame
  exact String.toList_injective hsame

end OneValue

/-! ## All values -/

/-- A substitution reads, of the names and the values, what is supplied of the names that occur in the text:
where that is the same the results are the same, where it is nothing the text stays as it is, and where it
differs in one value the results differ. -/
theorem fill_reads_supplied (text : String) (declared declared' : List String) (values values' : Keyed String) :
    ((∀ name ∈ names text, (Supplied declared values name ↔ Supplied declared' values' name) ∧
        (Supplied declared values name → values.get? name = values'.get? name)) →
      fill text declared values = fill text declared' values') ∧
    ((∀ name ∈ names text, ¬Supplied declared values name) → fill text declared values = text) ∧
    (∀ name ∈ names text, Supplied declared values name → Supplied declared values' name →
      (∀ other, other ≠ name → values.get? other = values'.get? other) →
      (fill text declared values = fill text declared values' ↔ values.get? name = values'.get? name)) := by
  refine ⟨fill_eq_of_supplied, fill_eq_self, ?_⟩
  rintro name hname ⟨hdeclared, value, hvalue⟩ ⟨-, value', hvalue'⟩ hother
  constructor
  · intro h
    rw [hvalue, hvalue', value_eq_of_fill_eq hname hdeclared hother hvalue hvalue' h]
  · intro hsame
    refine fill_eq_of_declared (fun other _ => ?_) text
    by_cases hne : other = name
    · rw [hne, hsame]
    · exact hother other hne

/-- Placeholders next to each other, and braces that belong to none. -/
def adjacentText : String := "\x7ba\x7d\x7bb\x7d\x7b \x7bc\x7d\x7d"

/-- Two sides that supply one and the same of three names, the others being undeclared or without a value, and
a third side with another value. -/
theorem fill_reads_supplied_mixed :
    fill adjacentText ["a", "c", "unused"] [("b", "B"), ("a", "1"), ("unused", "U")] =
        fill adjacentText ["b", "a"] [("a", "1"), ("c", "C")] ∧
      fill adjacentText ["unused"] [("a", "1"), ("unused", "U")] = adjacentText ∧
      fill adjacentText ["b", "a"] [("a", "1"), ("c", "C")] ≠
        fill adjacentText ["b", "a"] [("a", "2"), ("c", "C")] := by
  have hnames : names adjacentText = ["a", "b", "c"] := by decide +kernel
  have hsame := fill_reads_supplied adjacentText ["a", "c", "unused"] ["b", "a"]
    [("b", "B"), ("a", "1"), ("unused", "U")] [("a", "1"), ("c", "C")]
  have hnothing := fill_reads_supplied adjacentText ["unused"] []
    [("a", "1"), ("unused", "U")] []
  have hchanged := fill_reads_supplied adjacentText ["b", "a"] []
    [("a", "1"), ("c", "C")] [("a", "2"), ("c", "C")]
  rw [hnames] at hsame hnothing hchanged
  refine ⟨hsame.1 (by simp [Supplied, Keyed.get?]), hnothing.2.1 (by simp [Supplied]), fun h => ?_⟩
  have hvalue := (hchanged.2.2 "a" (by decide) (by simp [Supplied, Keyed.get?]) (by simp [Supplied, Keyed.get?])
    (by simp +contextual [Keyed.get?, eq_comm])).mp h
  exact absurd hvalue (by decide)

end Phrasebook.Template

namespace Phrasebook.Accessor

variable {accessor : Accessor} {params params' : Keyed String}

theorem filled_congr {entry : Message.Entry} (h : ∀ name ∈ entry.params, params.get? name = params'.get? name)
    (value : Json) : filled entry (some params) value = filled entry (some params') value := by
  have hstring : fillString entry.params params = fillString entry.params params' := by
    funext value
    cases value with
    | string text => rw [fillString, fillString, Template.fill_eq_of_declared h]
    | _ => rfl
  have hvalue : fillValue entry params value = fillValue entry params' value := by
    cases value with
    | string text => rw [fillValue, fillValue, Template.fill_eq_of_declared h]
    | array items => rw [fillValue, fillValue, hstring]
    | _ => rfl
  rw [filled, filled, hvalue]

theorem call_eq_of_declared (h : ∀ name ∈ accessor.entry.params, params.get? name = params'.get? name)
    (lang ambient : Option String) :
    accessor.call lang (some params) ambient = accessor.call lang (some params') ambient := by
  rw [call_eq_map, call_eq_map, funext (filled_congr h)]

end Phrasebook.Accessor
