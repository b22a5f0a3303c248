import Phrasebook.Proofs.Template.Occurrence

/-! # Substitution without a list of names

Declared names only matter as far as they occur in the text. Where all names of a text are declared, every
placeholder that has a value is replaced; where the text mentions no declared name, it stays as it is.
-/

namespace Phrasebook.Template

variable {isWord : Char → Bool} {text : String} {declared : List String} {values : Keyed String}

/-- What stands for a piece when every placeholder with a value is replaced. -/
def Piece.replaced (values : Keyed String) : Piece → List Char
  | .char c => [c]
  | .hole name => ((values.get? name).map String.toList).getD (Piece.hole name).source

/-- The text with every placeholder that has a value replaced by it. -/
def substitute (text : String) (values : Keyed String) : String :=
  String.ofList ((pieces Text.isWord text.toList).flatMap (Piece.replaced values))

def substituteGiven (params : Option (Keyed String)) (text : String) : String :=
  match params with
  | none => text
  | some values => substitute text values

def Supplied (declared : List String) (values : Keyed String) (name : String) : Prop :=
  name ∈ declared ∧ ∃ value, values.get? name = some value

theorem fillPiece_of_get? {name value : String} (hname : name ∈ declared) (hvalue : values.get? name = some value) :
    fillPiece declared values (.hole name) = value.toList := by
  simp [fillPiece, hname, hvalue]

theorem fillPiece_of_not_supplied {name : String} (h : ¬Supplied declared values name) :
    fillPiece declared values (.hole name) = (Piece.hole name).source := by
  cases hvalue : values.get? name with
  | none => simp [fillPiece, hvalue]
  | some value =>
    have hname : name ∉ declared := fun hmem => h ⟨hmem, value, hvalue⟩
    simp [fillPiece, hvalue, hname]

theorem flatMap_source_pieces (cs : List Char) : (pieces isWord cs).flatMap Piece.source = cs := by
  fun_induction pieces isWord cs with
  | case1 => rfl
  | case2 c cs run rest h ih =>
    split at h
    · rename_i hbrace
      obtain ⟨rfl, -, -⟩ := Text.enclosed?_eq_some h
      simp [hbrace, Piece.source, ih]
    · cases h
  | case3 c cs h ih => simp [Piece.source, ih]

theorem mem_names_iff_hole_mem (name : String) :
    name ∈ names text ↔ Piece.hole name ∈ pieces Text.isWord text.toList := by
  rw [mem_names_iff, hole_mem_pieces_text_iff]

theorem mentions_eq_false_iff : mentions text declared = false ↔ ∀ name ∈ names text, name ∉ declared := by
  rw [← Bool.not_eq_true, mentions_iff]
  simp only [mem_names_iff, not_exists, not_and]
  exact ⟨fun h name hname hdeclared => h name hdeclared hname.1 hname.2,
    fun h name hdeclared hplaceholder hoccurs => h name ⟨hplaceholder, hoccurs⟩ hdeclared⟩

theorem flatMap_pieces_congr {f g : Piece → List Char} (hchar : ∀ c, f (.char c) = g (.char c))
    (hhole : ∀ name ∈ names text, f (.hole name) = g (.hole name)) :
    (pieces Text.isWord text.toList).flatMap f = (pieces Text.isWord text.toList).flatMap g := by
  refine List.flatMap_congr fun piece hpiece => ?_
  cases piece with
  | char c => exact hchar c
  | hole name => exact hhole name ((mem_names_iff_hole_mem name).mpr hpiece)

/-- Where all names of a text are declared, every placeholder with a value is replaced. -/
theorem fill_eq_substitute (h : ∀ name ∈ names text, name ∈ declared) :
    fill text declared values = substitute text values := by
  refine congrArg String.ofList (flatMap_pieces_congr (fun c => rfl) fun name hname => ?_)
  cases hvalue : values.get? name <;> simp [fillPiece, Piece.replaced, hvalue, h name hname]

/-- A text stays as it is where no placeholder of it is replaced. -/
theorem fill_eq_self (h : ∀ name ∈ names text, ¬Supplied declared values name) :
    fill text declared values = text := by
  have hpieces : (pieces Text.isWord text.toList).flatMap (fillPiece declared values) =
      (pieces Text.isWord text.toList).flatMap Piece.source :=
    flatMap_pieces_congr (fun c => rfl) fun name hname => fillPiece_of_not_supplied (h name hname)
  rw [fill, hpieces, flatMap_source_pieces, String.ofList_toList]

end Phrasebook.Template
