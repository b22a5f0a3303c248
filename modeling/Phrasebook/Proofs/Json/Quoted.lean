import Phrasebook.Json.Token
import Phrasebook.Text.Quoted

/-! # Quoted strings read back

Every character is written inside quotes as one item, and that item denotes it. So the quoted form of a text is
read up to its own closing quote, whatever follows, and denotes the text.
-/

namespace Phrasebook.Json.Token

/-- One item more in front of those that are read. -/
def cons? (item : Item) (cs : List Char) : Option (List Item × List Char) := do
  let (items, rest) ← quotedItems? cs
  return (item :: items, rest)

theorem cons?_of_quotedItems? {cs rest : List Char} {items : List Item} (h : quotedItems? cs = some (items, rest))
    (item : Item) : cons? item cs = some (item :: items, rest) := by
  rw [cons?, h]
  rfl

theorem cons?_length {item : Item} {cs rest : List Char} {items : List Item}
    (hcs : ∀ {more}, quotedItems? cs = some (more, rest) → rest.length < cs.length)
    (h : cons? item cs = some (items, rest)) : rest.length < cs.length := by
  obtain ⟨⟨more, rest'⟩, hmore, heq⟩ := Option.bind_eq_some_iff.mp h
  cases heq
  exact hcs hmore

theorem quotedItems?_length {cs rest : List Char} {items : List Item} (h : quotedItems? cs = some (items, rest)) :
    rest.length < cs.length := by
  fun_induction quotedItems? cs generalizing items with
  | case1 => cases h
  | case2 =>
    cases h
    simp
  | case3 a b c d inner ih =>
    obtain ⟨n, -, h⟩ := Option.bind_eq_some_iff.mp h
    have := cons?_length ih h
    simp only [List.length_cons]
    omega
  | case4 letter inner _ ih =>
    obtain ⟨c, -, h⟩ := Option.bind_eq_some_iff.mp h
    have := cons?_length ih h
    simp only [List.length_cons]
    omega
  | case5 => cases h
  | case6 c inner _ _ _ _ ih =>
    have := cons?_length ih h
    simp only [List.length_cons]
    omega

/-! ## Items of characters -/

theorem hexCode?_hexDigit {n : Nat} (h : n < 32) :
    hexCode? '0' '0' (Text.hexDigit (n / 16)) (Text.hexDigit (n % 16)) = some n := by
  revert n
  decide

theorem quotedItems?_code {a b c d : Char} {n : Nat} (h : hexCode? a b c d = some n) (cs : List Char) :
    quotedItems? ('\\' :: 'u' :: a :: b :: c :: d :: cs) = cons? (.code n) cs := by
  rw [quotedItems?, h]
  rfl

theorem quotedItems?_letter {letter c : Char} (h : escaped? letter = some c) (cs : List Char) :
    quotedItems? ('\\' :: letter :: cs) = cons? (.char c) cs := by
  rw [quotedItems?, h]
  · rfl
  · rintro _ _ _ _ _ rfl
    cases h

theorem quotedItems?_char {c : Char} (hquote : c ≠ '"') (hbackslash : c ≠ '\\') (hcontrol : ¬ c.toNat < 32)
    (cs : List Char) : quotedItems? (c :: cs) = cons? (.char c) cs := by
  rw [quotedItems?, if_neg hcontrol]
  · rfl
  · exact hquote
  · rintro _ _ _ _ _ rfl
    exact (hbackslash rfl).elim
  · rintro _ _ rfl
    exact (hbackslash rfl).elim

theorem characters?_code {n : Nat} (h : n < 0xD800) (items : List Item) :
    characters? (.code n :: items) = (characters? items).map (Char.ofNat n :: ·) := by
  have hhigh : isHighSurrogate n = false := by simp [isHighSurrogate]; omega
  have hlow : isLowSurrogate n = false := by simp [isLowSurrogate]; omega
  cases items with
  | nil => simp [characters?, hhigh, hlow]
  | cons item items => cases item <;> simp [characters?, hhigh, hlow]

theorem exists_quotedItems?_escapeChar (c : Char) (cs : List Char) :
    ∃ item, quotedItems? (Text.escapeChar c ++ cs) = cons? item cs ∧
      ∀ items, characters? (item :: items) = (characters? items).map (c :: ·) := by
  fun_cases Text.escapeChar c with
  | case8 c hcontrol =>
    rw [if_pos hcontrol]
    refine ⟨.code c.toNat, quotedItems?_code (hexCode?_hexDigit hcontrol) cs, fun items => ?_⟩
    rw [characters?_code (by omega), Char.ofNat_toNat]
  | case9 c hcontrol hquote hbackslash =>
    rw [if_neg hcontrol]
    exact ⟨.char c, quotedItems?_char hquote hbackslash hcontrol cs, fun items => rfl⟩
  | _ => exact ⟨.char _, quotedItems?_letter rfl cs, fun items => rfl⟩

/-- The quoted form of a text is read up to its closing quote and denotes the text. -/
theorem exists_quotedItems?_quoted (text rest : List Char) :
    ∃ items, quotedItems? (text.flatMap Text.escapeChar ++ '"' :: rest) = some (items, rest) ∧
      characters? items = some text := by
  induction text with
  | nil => exact ⟨[], by simp [quotedItems?], rfl⟩
  | cons c text ih =>
    obtain ⟨items, hitems, htext⟩ := ih
    obtain ⟨item, hitem, hdenotes⟩ :=
      exists_quotedItems?_escapeChar c (text.flatMap Text.escapeChar ++ '"' :: rest)
    refine ⟨item :: items, ?_, ?_⟩
    · rw [List.flatMap_cons, List.append_assoc, hitem, cons?_of_quotedItems? hitems]
    · rw [hdenotes, htext]
      rfl

end Phrasebook.Json.Token
