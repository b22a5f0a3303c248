import Mathlib.Algebra.Order.BigOperators.Group.List
import Mathlib.Algebra.Order.Group.Nat
import Phrasebook.Proofs.Keyed
import Phrasebook.Proofs.Template.Substitution

/-! # Substituting again

Substitution looks at no piece twice, so the text that it makes can have placeholders of its own. Values without
braces bring none along, but where a placeholder stands between braces of the text, its value can become the name
of a new one. A second substitution changes nothing exactly where no name that is supplied is spelled so.
-/

namespace Phrasebook.Template

variable {text : String} {declared : List String} {values : Keyed String}

def BraceFree (values : Keyed String) : Prop :=
  ∀ name value, values.get? name = some value → '\x7b' ∉ value.toList ∧ '\x7d' ∉ value.toList

/-- Substitution spells a name between two braces of the text that belong to no placeholder. -/
def Splices (declared : List String) (values : Keyed String) (text name : String) : Prop :=
  ∃ before inner after,
    pieces Text.isWord text.toList = before ++ .char '\x7b' :: (inner ++ .char '\x7d' :: after) ∧
      inner.flatMap (fillPiece declared values) = name.toList

theorem exists_of_flatMap_eq {α β : Type} {f : α → List β} {xs : List α} {front back : List β} {y : β}
    (h : xs.flatMap f = front ++ y :: back) :
    ∃ before x after inFront inBack, xs = before ++ x :: after ∧ f x = inFront ++ y :: inBack ∧
      front = before.flatMap f ++ inFront ∧ back = inBack ++ after.flatMap f := by
  induction xs generalizing front with
  | nil => simp at h
  | cons x xs ih =>
    rw [List.flatMap_cons, List.append_eq_append_iff] at h
    rcases h with ⟨rest, rfl, h⟩ | ⟨rest, hx, h⟩
    · obtain ⟨before, x', after, inFront, inBack, rfl, hx', rfl, rfl⟩ := ih h
      exact ⟨x :: before, x', after, inFront, inBack, rfl, hx', by simp, rfl⟩
    · cases rest with
      | nil =>
        obtain ⟨before, x', after, inFront, inBack, rfl, hx', hfront, rfl⟩ :=
          ih (show xs.flatMap f = [] ++ y :: back from h.symm)
        refine ⟨x :: before, x', after, inFront, inBack, rfl, hx', ?_, rfl⟩
        rw [List.flatMap_cons, List.append_assoc, ← hfront, hx]
        simp
      | cons z rest =>
        obtain ⟨rfl, rfl⟩ := List.cons_eq_cons.mp h
        exact ⟨[], x, xs, front, rest, rfl, hx, by simp, rfl⟩

/-! ## Texts that stay as they are -/

theorem count_fillPiece_le (hvalues : BraceFree values) (piece : Piece) :
    (fillPiece declared values piece).count '\x7b' ≤ piece.source.count '\x7b' := by
  cases piece with
  | char c => rfl
  | hole name =>
    by_cases hname : Supplied declared values name
    · obtain ⟨hdeclared, value, hvalue⟩ := hname
      rw [fillPiece_of_get? hdeclared hvalue, List.count_eq_zero.mpr (hvalues name value hvalue).1]
      exact Nat.zero_le _
    · rw [fillPiece_of_not_supplied hname]

/-- With values without braces, each placeholder that is replaced takes a brace out of the text. -/
theorem count_fillPiece_lt (hvalues : BraceFree values) {name : String} (hname : Supplied declared values name) :
    (fillPiece declared values (.hole name)).count '\x7b' < (Piece.hole name).source.count '\x7b' := by
  obtain ⟨hdeclared, value, hvalue⟩ := hname
  rw [fillPiece_of_get? hdeclared hvalue, List.count_eq_zero.mpr (hvalues name value hvalue).1, Piece.source,
    List.count_cons_self]
  omega

theorem fill_eq_self_iff (hvalues : BraceFree values) :
    fill text declared values = text ↔ ∀ name ∈ names text, ¬Supplied declared values name := by
  refine ⟨fun heq name hname hsupplied => ?_, fill_eq_self⟩
  have hlt : ((pieces Text.isWord text.toList).flatMap (fillPiece declared values)).count '\x7b' <
      ((pieces Text.isWord text.toList).flatMap Piece.source).count '\x7b' := by
    rw [List.count_flatMap, List.count_flatMap]
    exact List.sum_lt_sum _ _ (fun piece _ => count_fillPiece_le hvalues piece)
      ⟨.hole name, (mem_names_iff_hole_mem name).mp hname, count_fillPiece_lt hvalues hsupplied⟩
  have hfilled := congrArg String.toList heq
  rw [fill, String.toList_ofList] at hfilled
  rw [hfilled, flatMap_source_pieces] at hlt
  exact absurd hlt (lt_irrefl _)

/-! ## Names that substitution spells -/

/-- A character that comes once in a text divides it at one place. -/
theorem eq_of_cons_eq_append {c : Char} {cs front back : List Char} (hc : c ∉ cs) (h : c :: cs = front ++ c :: back) :
    front = [] ∧ back = cs := by
  obtain ⟨rfl, -, rfl⟩ := (List.append_cons_inj_of_notMem List.not_mem_nil hc).mp
    (show [] ++ c :: cs = front ++ c :: back from h)
  exact ⟨rfl, rfl⟩

theorem openBrace_not_mem {cs : List Char} (h : ∀ c ∈ cs, Text.isWord c) : '\x7b' ∉ cs :=
  fun hmem => by simpa [Text.isWord_openBrace] using h _ hmem

/-- A brace in the place of a piece is one of the text, or belongs to a placeholder that stays. -/
theorem char_or_hole_of_brace_mem (hvalues : BraceFree values) {piece : Piece} {brace : Char}
    (hbrace : brace = '\x7b' ∨ brace = '\x7d') (h : brace ∈ fillPiece declared values piece) :
    piece = .char brace ∨ ∃ name, piece = .hole name ∧ ¬Supplied declared values name := by
  cases piece with
  | char c =>
    rw [fillPiece, List.mem_singleton] at h
    exact .inl (by rw [h])
  | hole name =>
    refine .inr ⟨name, rfl, ?_⟩
    rintro ⟨hname, value, hvalue⟩
    rw [fillPiece_of_get? hname hvalue] at h
    rcases hbrace with rfl | rfl
    · exact (hvalues name value hvalue).1 h
    · exact (hvalues name value hvalue).2 h

/-- The opening brace before a supplied name is one of the text: a placeholder that stays has another name. -/
theorem exists_openBrace (hvalues : BraceFree values) {name : String} (hname : IsPlaceholderName name)
    (hsupplied : Supplied declared values name) {front back : List Char}
    (h : (pieces Text.isWord text.toList).flatMap (fillPiece declared values) =
      front ++ '\x7b' :: (name.toList ++ '\x7d' :: back)) :
    ∃ before rest, pieces Text.isWord text.toList = before ++ .char '\x7b' :: rest ∧
      rest.flatMap (fillPiece declared values) = name.toList ++ '\x7d' :: back := by
  obtain ⟨before, opening, rest, inFront, inBack, hpieces, hopening, -, hrest⟩ := exists_of_flatMap_eq h
  rcases char_or_hole_of_brace_mem hvalues (.inl rfl) (by rw [hopening]; simp) with rfl | ⟨other, rfl, hother⟩
  · obtain ⟨-, rfl⟩ := eq_of_cons_eq_append List.not_mem_nil hopening
    exact ⟨before, rest, hpieces, hrest.symm⟩
  · obtain ⟨⟨hne, hword⟩, -⟩ := (hole_mem_pieces_text_iff other text).mp (by rw [hpieces]; simp)
    rw [fillPiece_of_not_supplied hother, Piece.source] at hopening
    obtain ⟨-, rfl⟩ := eq_of_cons_eq_append (by simp [openBrace_not_mem hword]) hopening
    rw [List.append_assoc, List.singleton_append] at hrest
    have hsame := Text.enclosed?_append Text.isWord_closeBrace hname.1 hname.2 back
    rw [hrest, Text.enclosed?_append Text.isWord_closeBrace hne hword] at hsame
    have heq : other = name := String.toList_inj.mp (congrArg Prod.fst (Option.some.inj hsame))
    exact absurd hsupplied (heq ▸ hother)

/-- The closing brace after a name is one of the text: that of a placeholder comes after an opening one. -/
theorem exists_closeBrace (hvalues : BraceFree values) {rest : List Piece} {name back : List Char}
    (hname : ∀ c ∈ name, Text.isWord c)
    (h : rest.flatMap (fillPiece declared values) = name ++ '\x7d' :: back) :
    ∃ inner after, rest = inner ++ .char '\x7d' :: after ∧ inner.flatMap (fillPiece declared values) = name := by
  obtain ⟨inner, closing, after, inFront, inBack, rfl, hclosing, rfl, -⟩ := exists_of_flatMap_eq h
  rcases char_or_hole_of_brace_mem hvalues (.inr rfl) (by rw [hclosing]; simp) with rfl | ⟨other, rfl, hother⟩
  · obtain ⟨rfl, -⟩ := eq_of_cons_eq_append List.not_mem_nil hclosing
    exact ⟨inner, after, rfl, (List.append_nil _).symm⟩
  · rw [fillPiece_of_not_supplied hother, Piece.source] at hclosing
    cases inFront with
    | nil => simp at hclosing
    | cons c inFront =>
      obtain ⟨rfl, -⟩ := List.cons_eq_cons.mp hclosing
      exact absurd (by simp) (openBrace_not_mem hname)

/-- A supplied name that occurs in braces after substitution is spelled by it. -/
theorem splices_of_occurs (hvalues : BraceFree values) {name : String} (hname : IsPlaceholderName name)
    (hsupplied : Supplied declared values name)
    (h : (Piece.hole name).source <:+: (fill text declared values).toList) : Splices declared values text name := by
  obtain ⟨front, back, h⟩ := h
  have hfilled : (pieces Text.isWord text.toList).flatMap (fillPiece declared values) =
      front ++ '\x7b' :: (name.toList ++ '\x7d' :: back) := by
    rw [fill, String.toList_ofList] at h
    rw [← h]
    simp [Piece.source]
  obtain ⟨before, rest, hpieces, hrest⟩ := exists_openBrace hvalues hname hsupplied hfilled
  obtain ⟨inner, after, rfl, hinner⟩ := exists_closeBrace hvalues hname.2 hrest
  exact ⟨before, inner, after, hpieces, hinner⟩

theorem occurs_of_splices {name : String} (h : Splices declared values text name) :
    (Piece.hole name).source <:+: (fill text declared values).toList := by
  obtain ⟨before, inner, after, hpieces, hname⟩ := h
  refine ⟨before.flatMap (fillPiece declared values), after.flatMap (fillPiece declared values), ?_⟩
  simp [fill, hpieces, Piece.source, ← hname, fillPiece]

/-- A second substitution changes nothing exactly where the first one spells no supplied name. -/
theorem fill_fill_eq_iff (text : String) (declared : List String) (hvalues : BraceFree values) :
    fill (fill text declared values) declared values = fill text declared values ↔
      ∀ name, IsPlaceholderName name → Supplied declared values name → ¬Splices declared values text name := by
  rw [fill_eq_self_iff hvalues]
  simp only [mem_names_iff]
  constructor
  · intro h name hname hsupplied hsplices
    exact h name ⟨hname, occurs_of_splices hsplices⟩ hsupplied
  · rintro h name ⟨hname, hoccurs⟩ hsupplied
    exact h name hname hsupplied (splices_of_occurs hvalues hname hsupplied hoccurs)

/-- A placeholder, and one in braces of its own. -/
def countedText : String := "\x7bname\x7d has \x7b\x7bcount\x7d\x7d"

def countedValues : Keyed String := [("name", "Ada"), ("count", "2")]

theorem fill_fill_eq_braced :
    BraceFree countedValues ∧ fill countedText ["name", "count"] countedValues = "Ada has \x7b2\x7d" ∧
      fill "Ada has \x7b2\x7d" ["name", "count"] countedValues = "Ada has \x7b2\x7d" ∧
      ∀ name, IsPlaceholderName name → Supplied ["name", "count"] countedValues name →
        ¬Splices ["name", "count"] countedValues countedText name := by
  have hvalues : BraceFree countedValues := by
    intro name value hvalue
    rcases List.mem_cons.mp (Keyed.mem_of_get? hvalue) with h | h
    · cases h
      decide
    · cases List.mem_singleton.mp h
      decide
  have hfilled : fill countedText ["name", "count"] countedValues = "Ada has \x7b2\x7d" := by decide +kernel
  have hagain : fill "Ada has \x7b2\x7d" ["name", "count"] countedValues = "Ada has \x7b2\x7d" := by
    decide +kernel
  exact ⟨hvalues, hfilled, hagain, (fill_fill_eq_iff _ _ hvalues).mp (by rw [hfilled, hagain])⟩

/-- A placeholder in braces whose value is its own name. -/
theorem fill_fill_ne_braced :
    BraceFree [("a", "a")] ∧ fill "\x7b\x7ba\x7d\x7d" ["a"] [("a", "a")] = "\x7ba\x7d" ∧
      fill (fill "\x7b\x7ba\x7d\x7d" ["a"] [("a", "a")]) ["a"] [("a", "a")] = "a" := by
  have hfilled : fill "\x7b\x7ba\x7d\x7d" ["a"] [("a", "a")] = "\x7ba\x7d" := by decide +kernel
  refine ⟨?_, hfilled, ?_⟩
  · intro name value hvalue
    cases List.mem_singleton.mp (Keyed.mem_of_get? hvalue)
    decide
  · rw [hfilled]
    decide +kernel

end Phrasebook.Template
