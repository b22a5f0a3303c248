import Phrasebook.Script.ValueType

/-! # The grammar of types

A type is a union of names and lists. A list is written with brackets after the type of its elements, which is a
name or a union in parentheses, and the modifier `readonly` stands before a list only. A text is read as at most one
type.
-/

namespace Phrasebook.Script

inductive TypeName where
  | null
  | boolean
  | number
  | string
  | unknown
  | record
deriving Repr, DecidableEq

mutual

/-- A member of a union: a name, or a list that cannot be changed. -/
inductive TypeMember where
  | name (name : TypeName)
  | list (elements : ElementType)

/-- The type of a list's elements: a name, or a union in parentheses. -/
inductive ElementType where
  | name (name : TypeName)
  | group (union : TypeUnion)

inductive TypeUnion where
  | single (member : TypeMember)
  | or (first : TypeMember) (rest : TypeUnion)

end

def TypeName.text : TypeName → String
  | .null => "null"
  | .boolean => "boolean"
  | .number => "number"
  | .string => "string"
  | .unknown => "unknown"
  | .record => "Record<string, unknown>"

mutual

def TypeMember.text : TypeMember → String
  | .name name => name.text
  | .list elements => "readonly " ++ elements.text ++ "[]"

def ElementType.text : ElementType → String
  | .name name => name.text
  | .group union => "(" ++ union.text ++ ")"

def TypeUnion.text : TypeUnion → String
  | .single member => member.text
  | .or first rest => first.text ++ " | " ++ rest.text

end

def TypeName.admits : TypeName → Json → Bool
  | .null, .null => true
  | .boolean, .bool _ => true
  | .number, .number _ => true
  | .string, .string _ => true
  | .unknown, _ => true
  | .record, .object _ => true
  | _, _ => false

mutual

/-- Whether a member of a union has a value: a list, if its elements are of their type. -/
def TypeMember.admits : TypeMember → Json → Bool
  | .name name, value => name.admits value
  | .list elements, .array items => items.all elements.admits
  | .list _, _ => false

def ElementType.admits : ElementType → Json → Bool
  | .name name, value => name.admits value
  | .group union, value => union.admits value

def TypeUnion.admits : TypeUnion → Json → Bool
  | .single member, value => member.admits value
  | .or first rest, value => first.admits value || rest.admits value

end

/-! ## Reading a text -/

/-- No name is the beginning of another one. -/
theorem TypeName.eq_of_text_append {first second : TypeName} {rest rest' : List Char}
    (h : first.text.toList ++ rest = second.text.toList ++ rest') : first = second ∧ rest = rest' := by
  cases first <;> cases second <;> simp_all [text]

theorem TypeName.text_append_ne (name : TypeName) (rest rest' : List Char) {c : Char} (hc : c = 'r' ∨ c = '(') :
    name.text.toList ++ rest ≠ c :: rest' := by
  rcases hc with rfl | rfl <;> cases name <;> simp [text]

theorem TypeMember.text_list_append (elements : ElementType) (rest : List Char) :
    (TypeMember.list elements).text.toList ++ rest =
      'r' :: ("eadonly ".toList ++ (elements.text.toList ++ ("[]".toList ++ rest))) := by
  simp [text]

theorem ElementType.text_group_append (union : TypeUnion) (rest : List Char) :
    (ElementType.group union).text.toList ++ rest = '(' :: (union.text.toList ++ (')' :: rest)) := by
  simp [text]

theorem TypeUnion.text_or_append (first : TypeMember) (union : TypeUnion) (rest : List Char) :
    (TypeUnion.or first union).text.toList ++ rest =
      first.text.toList ++ (' ' :: ("| ".toList ++ (union.text.toList ++ rest))) := by
  simp [text]

mutual

theorem TypeMember.eq_of_text_append {first second : TypeMember} {rest rest' : List Char}
    (h : first.text.toList ++ rest = second.text.toList ++ rest') : first = second ∧ rest = rest' := by
  cases first with
  | name first =>
    cases second with
    | name second =>
      obtain ⟨rfl, hrest⟩ := TypeName.eq_of_text_append h
      exact ⟨rfl, hrest⟩
    | list second =>
      rw [TypeMember.text_list_append] at h
      exact absurd h (first.text_append_ne rest _ (.inl rfl))
  | list first =>
    rw [TypeMember.text_list_append] at h
    cases second with
    | name second => exact absurd h.symm (second.text_append_ne rest' _ (.inl rfl))
    | list second =>
      rw [TypeMember.text_list_append, List.cons_inj_right, List.append_cancel_left_eq] at h
      obtain ⟨rfl, hrest⟩ := ElementType.eq_of_text_append h
      exact ⟨rfl, List.append_cancel_left hrest⟩

theorem ElementType.eq_of_text_append {first second : ElementType} {rest rest' : List Char}
    (h : first.text.toList ++ rest = second.text.toList ++ rest') : first = second ∧ rest = rest' := by
  cases first with
  | name first =>
    cases second with
    | name second =>
      obtain ⟨rfl, hrest⟩ := TypeName.eq_of_text_append h
      exact ⟨rfl, hrest⟩
    | group second =>
      rw [ElementType.text_group_append] at h
      exact absurd h (first.text_append_ne rest _ (.inr rfl))
  | group first =>
    rw [ElementType.text_group_append] at h
    cases second with
    | name second => exact absurd h.symm (second.text_append_ne rest' _ (.inr rfl))
    | group second =>
      rw [ElementType.text_group_append, List.cons_inj_right] at h
      obtain ⟨rfl, hrest⟩ := TypeUnion.eq_of_text_append (by simp) (by simp) h
      exact ⟨rfl, (List.cons_inj_right ')').mp hrest⟩

/-- A union ends where no further member follows. -/
theorem TypeUnion.eq_of_text_append {first second : TypeUnion} {rest rest' : List Char}
    (hrest : rest.head? ≠ some ' ') (hrest' : rest'.head? ≠ some ' ')
    (h : first.text.toList ++ rest = second.text.toList ++ rest') : first = second ∧ rest = rest' := by
  cases first with
  | single first =>
    cases second with
    | single second =>
      obtain ⟨rfl, hsame⟩ := TypeMember.eq_of_text_append h
      exact ⟨rfl, hsame⟩
    | or second more =>
      rw [TypeUnion.text_or_append] at h
      obtain ⟨-, rfl⟩ := TypeMember.eq_of_text_append h
      exact absurd rfl hrest
  | or first more =>
    rw [TypeUnion.text_or_append] at h
    cases second with
    | single second =>
      obtain ⟨-, rfl⟩ := TypeMember.eq_of_text_append h
      exact absurd rfl hrest'
    | or second more' =>
      rw [TypeUnion.text_or_append] at h
      obtain ⟨rfl, hmore⟩ := TypeMember.eq_of_text_append h
      rw [List.cons_inj_right, List.append_cancel_left_eq] at hmore
      obtain ⟨rfl, hsame⟩ := TypeUnion.eq_of_text_append hrest hrest' hmore
      exact ⟨rfl, hsame⟩

end

/-- A text is read as at most one type. -/
theorem TypeUnion.text_injective {first second : TypeUnion} (h : first.text = second.text) : first = second :=
  (TypeUnion.eq_of_text_append (by simp) (by simp)
    (show first.text.toList ++ [] = second.text.toList ++ [] by rw [h])).1

end Phrasebook.Script
