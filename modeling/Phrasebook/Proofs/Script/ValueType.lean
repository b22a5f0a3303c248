import Phrasebook.Proofs.Script.TypeGrammar

/-! # Types of values as texts of the grammar

The type that is written for values is a type of the grammar, and has all of them, unless one of the values is a
list that holds lists only. The modifier of the inner lists then stands behind that of the outer one, where no list
type follows it.
-/

namespace Phrasebook.Script

def TypeUnion.ofList (first : TypeMember) : List TypeMember → TypeUnion
  | [] => .single first
  | second :: rest => .or first (ofList second rest)

theorem TypeUnion.text_ofList (first : TypeMember) (rest : List TypeMember) :
    (ofList first rest).text = " | ".intercalate ((first :: rest).map TypeMember.text) := by
  induction rest generalizing first with
  | nil => simp [ofList, text]
  | cons second rest ih => simp [ofList, text, ih, String.intercalate_cons_cons, String.append_assoc]

theorem TypeUnion.admits_ofList (first : TypeMember) (rest : List TypeMember) (value : Json) :
    (ofList first rest).admits value = (first :: rest).any fun member => member.admits value := by
  induction rest generalizing first with
  | nil => simp [ofList, admits]
  | cons second rest ih => simp [ofList, admits, ih]

namespace ItemType

/-- The name that is written for an element of a list. Lists have none. -/
def name? : ItemType → Option TypeName
  | .null => some .null
  | .boolean => some .boolean
  | .number => some .number
  | .string => some .string
  | .record => some .record
  | .list => none

def member (type : ItemType) : TypeMember :=
  match type.name? with
  | some name => .name name
  | none => .list (.name .unknown)

theorem text_member (type : ItemType) : type.member.text = type.render := by
  cases type <;> rfl

theorem admits_member (value : Json) : (ItemType.ofJson value).member.admits value = true := by
  cases value <;> simp [ofJson, member, name?, TypeMember.admits, ElementType.admits, TypeName.admits]

theorem member_of_name? {type : ItemType} {name : TypeName} (h : type.name? = some name) :
    type.member = .name name := by
  rw [member, h]

theorem name?_eq_none_iff {type : ItemType} : type.name? = none ↔ type = .list := by
  cases type <;> simp [name?]

end ItemType

namespace ValueType

/-- The type of the grammar that is written for a value. Lists of lists only have none. -/
def member? : ValueType → Option TypeMember
  | .item type => some type.member
  | .listOf [] => some (.list (.name .unknown))
  | .listOf [element] => element.name?.map fun name => .list (.name name)
  | .listOf (first :: second :: rest) =>
    some (.list (.group (.ofList first.member ((second :: rest).map ItemType.member))))

theorem member?_eq_none_iff {type : ValueType} : type.member? = none ↔ type = .listOf [.list] := by
  match type with
  | .item type => simp [member?]
  | .listOf [] => simp [member?]
  | .listOf [element] => simp [member?, ItemType.name?_eq_none_iff]
  | .listOf (first :: second :: rest) => simp [member?]

theorem exists_member?_of_ne {type : ValueType} (h : type ≠ .listOf [.list]) :
    ∃ member, type.member? = some member :=
  Option.ne_none_iff_exists'.mp (mt member?_eq_none_iff.mp h)

theorem text_of_member? {type : ValueType} {member : TypeMember} (h : type.member? = some member) :
    member.text = type.render := by
  match type with
  | .item type =>
    cases h
    exact type.text_member
  | .listOf [] =>
    cases h
    rfl
  | .listOf [element] =>
    obtain ⟨name, hname, rfl⟩ := Option.map_eq_some_iff.mp h
    rw [render, ← element.text_member, ItemType.member_of_name? hname]
    rfl
  | .listOf (first :: second :: rest) =>
    cases h
    have hrender : render (.listOf (first :: second :: rest)) =
        "readonly (" ++ " | ".intercalate ((first :: second :: rest).map ItemType.render) ++ ")[]" := rfl
    have hmembers : (first.member :: (second :: rest).map ItemType.member).map TypeMember.text =
        (first :: second :: rest).map ItemType.render := by
      rw [← List.map_cons, List.map_map]
      exact List.map_congr_left fun type _ => type.text_member
    rw [TypeMember.text, ElementType.text, TypeUnion.text_ofList, hmembers, hrender, ← String.toList_inj]
    simp

/-- A list has the type that is written for any types among which those of its elements are. -/
theorem admits_of_member?_listOf {items : List Json} {types : List ItemType} {member : TypeMember}
    (hitems : ∀ item ∈ items, ItemType.ofJson item ∈ types) (h : (listOf types).member? = some member) :
    member.admits (.array items) = true := by
  match types with
  | [] =>
    cases h
    exact List.all_eq_true.mpr fun item _ => rfl
  | [element] =>
    obtain ⟨name, hname, rfl⟩ := Option.map_eq_some_iff.mp h
    refine List.all_eq_true.mpr fun item hitem => ?_
    have hadmits := ItemType.admits_member item
    rw [List.mem_singleton.mp (hitems item hitem), ItemType.member_of_name? hname] at hadmits
    exact hadmits
  | first :: second :: rest =>
    cases h
    refine List.all_eq_true.mpr fun item hitem => ?_
    rw [ElementType.admits, TypeUnion.admits_ofList, List.any_eq_true]
    exact ⟨_, List.mem_map_of_mem (f := ItemType.member) (hitems item hitem), ItemType.admits_member item⟩

/-- The type that is written for a value has it. -/
theorem admits_of_member? {value : Json} {member : TypeMember} (h : (ofJson value).member? = some member) :
    member.admits value = true := by
  cases value with
  | array items =>
    exact admits_of_member?_listOf (fun item hitem => List.mem_eraseDups.mpr (List.mem_map_of_mem hitem)) h
  | _ =>
    cases h
    exact ItemType.admits_member _

/-- No member of a union begins like a list of lists: an inner modifier is no type of elements. -/
theorem text_append_ne_lists (member : TypeMember) (rest rest' : List Char) :
    member.text.toList ++ rest ≠ (render (.listOf [.list])).toList ++ rest' := by
  have hlists : (render (.listOf [.list])).toList ++ rest' =
      'r' :: ("eadonly ".toList ++ 'r' :: ("eadonly unknown[][]".toList ++ rest')) := by
    simp [render, ItemType.render]
  rw [hlists]
  intro h
  -- Past the modifier of the outer list, that of the inner one stands where elements begin.
  cases member with
  | name name => exact name.text_append_ne rest _ (.inl rfl) h
  | list elements =>
    rw [TypeMember.text_list_append, List.cons_inj_right, List.append_cancel_left_eq] at h
    cases elements with
    | name name => exact name.text_append_ne _ _ (.inl rfl) h
    | group union =>
      rw [ElementType.text_group_append] at h
      cases h

theorem text_ne_lists_append (union : TypeUnion) (rest : List Char) :
    union.text.toList ≠ (render (.listOf [.list])).toList ++ rest := by
  cases union with
  | single first =>
    rw [TypeUnion.text, ← List.append_nil first.text.toList]
    exact text_append_ne_lists first [] rest
  | or first more =>
    rw [← List.append_nil (TypeUnion.text _).toList, TypeUnion.text_or_append]
    exact text_append_ne_lists first _ rest

theorem exists_or_of_text_eq {union : TypeUnion} {member : TypeMember} {more : String}
    (h : union.text = member.text ++ " | " ++ more) : ∃ rest : TypeUnion, rest.text = more := by
  cases union with
  | single first =>
    have hchars : first.text.toList ++ [] = member.text.toList ++ (" | ".toList ++ more.toList) := by
      simpa [TypeUnion.text] using congrArg String.toList h
    cases (TypeMember.eq_of_text_append hchars).2
  | or first rest =>
    have hchars : first.text.toList ++ (" | ".toList ++ rest.text.toList) =
        member.text.toList ++ (" | ".toList ++ more.toList) := by
      simpa [TypeUnion.text] using congrArg String.toList h
    exact ⟨rest, String.toList_inj.mp (List.append_cancel_left (TypeMember.eq_of_text_append hchars).2)⟩

/-- A text that is put together from types is not read where one of them is a list of lists only. -/
theorem text_ne_intercalate {types : List ValueType} (h : .listOf [.list] ∈ types) (union : TypeUnion) :
    union.text ≠ " | ".intercalate (types.map render) := by
  intro heq
  -- Types before the list of lists are members of the union: each step takes one off both.
  induction types generalizing union with
  | nil => cases h
  | cons type rest ih =>
    by_cases hlists : type = .listOf [.list]
    · subst hlists
      cases rest with
      | nil => exact text_ne_lists_append union [] (by simp [heq])
      | cons second rest =>
        refine text_ne_lists_append union (" | ".toList ++ (" | ".intercalate ((second :: rest).map render)).toList) ?_
        simp [heq, String.intercalate_cons_cons]
    · obtain ⟨member, hmember⟩ := exists_member?_of_ne hlists
      have hrest : .listOf [.list] ∈ rest := (List.mem_cons.mp h).resolve_left (Ne.symm hlists)
      have hmap : rest.map render ≠ [] := by simpa using List.ne_nil_of_mem hrest
      rw [List.map_cons, String.intercalate_cons_of_ne_nil hmap, ← text_of_member? hmember] at heq
      obtain ⟨more, hmore⟩ := exists_or_of_text_eq heq
      exact ih hrest more hmore

/-- Types none of which is a list of lists only are written as a union that has all their values. -/
theorem exists_text_eq_intercalate (type : ValueType) {rest : List ValueType}
    (h : .listOf [.list] ∉ type :: rest) :
    ∃ union : TypeUnion, union.text = " | ".intercalate ((type :: rest).map render) ∧
      ∀ value, ofJson value ∈ type :: rest → union.admits value = true := by
  induction rest generalizing type with
  | nil =>
    rw [List.mem_singleton] at h
    obtain ⟨member, hmember⟩ := exists_member?_of_ne (Ne.symm h)
    refine ⟨.single member, by simp [TypeUnion.text, text_of_member? hmember], fun value hvalue => ?_⟩
    rw [List.mem_singleton] at hvalue
    exact admits_of_member? (hvalue ▸ hmember)
  | cons second rest ih =>
    rw [List.mem_cons, not_or] at h
    obtain ⟨member, hmember⟩ := exists_member?_of_ne (Ne.symm h.1)
    obtain ⟨union, htext, hadmits⟩ := ih second h.2
    refine ⟨.or member union, ?_, fun value hvalue => ?_⟩
    · simp [TypeUnion.text, htext, text_of_member? hmember, String.intercalate_cons_cons]
    · rw [TypeUnion.admits, Bool.or_eq_true]
      rcases List.mem_cons.mp hvalue with hvalue | hvalue
      · exact .inl (admits_of_member? (hvalue ▸ hmember))
      · exact .inr (hadmits value hvalue)

/-- The values have a type of the grammar when none is a list of lists only, and this type has all of them. -/
theorem exists_text_eq_renderUnion {values : List Json} (h : .listOf [.list] ∉ ofValues values) :
    ∃ union : TypeUnion, union.text = renderUnion (ofValues values) ∧
      ∀ value ∈ values, union.admits value = true := by
  have hvalues : ∀ value ∈ values, ofJson value ∈ ofValues values := fun value hvalue =>
    List.mem_eraseDups.mpr (List.mem_map_of_mem hvalue)
  cases htypes : ofValues values with
  | nil =>
    refine ⟨.single (.name .unknown), rfl, fun value hvalue => rfl⟩
  | cons type rest =>
    obtain ⟨union, htext, hadmits⟩ := exists_text_eq_intercalate type (htypes ▸ h)
    exact ⟨union, htext, fun value hvalue => hadmits value (htypes ▸ hvalues value hvalue)⟩

theorem text_ne_renderUnion {values : List Json} (h : .listOf [.list] ∈ ofValues values) (union : TypeUnion) :
    union.text ≠ renderUnion (ofValues values) := by
  have hsome : (ofValues values).isEmpty = false := List.isEmpty_eq_false_iff.mpr (List.ne_nil_of_mem h)
  rw [renderUnion, hsome, if_neg Bool.false_ne_true]
  exact text_ne_intercalate h union

theorem eraseDups_eq_singleton_iff {α : Type} [DecidableEq α] {xs : List α} {a : α} :
    xs.eraseDups = [a] ↔ xs ≠ [] ∧ ∀ x ∈ xs, x = a := by
  constructor
  · intro h
    refine ⟨?_, fun x hx => ?_⟩
    · rintro rfl
      cases h
    · rwa [← List.mem_eraseDups, h, List.mem_singleton] at hx
  · rintro ⟨hsome, hsame⟩
    obtain ⟨x, rest, rfl⟩ := List.exists_cons_of_ne_nil hsome
    obtain ⟨rfl, hrest⟩ := List.forall_mem_cons.mp hsame
    have hnone : (rest.filter fun y => !y == x) = [] :=
      List.filter_eq_nil_iff.mpr fun y hy => by simp [hrest y hy]
    rw [List.eraseDups_cons, hnone, List.eraseDups_nil]

theorem ofJson_eq_lists_iff (value : Json) :
    ofJson value = .listOf [.list] ↔
      ∃ items, value = .array items ∧ items ≠ [] ∧ ∀ item ∈ items, item.isArray = true := by
  have hitem (item : Json) : ItemType.ofJson item = .list ↔ item.isArray = true := by
    cases item <;> simp [ItemType.ofJson, Json.isArray]
  cases value with
  | array items => simp [ofJson, eraseDups_eq_singleton_iff, hitem]
  | _ => simp [ofJson]

theorem lists_not_mem_ofValues_iff {values : List Json} :
    .listOf [.list] ∉ ofValues values ↔
      ∀ items, .array items ∈ values → items ≠ [] → ∃ item ∈ items, item.isArray = false := by
  simp only [ofValues, List.mem_eraseDups, List.mem_map, ofJson_eq_lists_iff]
  constructor
  · intro h items hitems hsome
    refine Classical.byContradiction fun hnone => h ⟨.array items, hitems, items, rfl, hsome, ?_⟩
    simpa only [not_exists, not_and, Bool.not_eq_false] using hnone
  · rintro h ⟨_, hvalue, items, rfl, hsome, hlists⟩
    obtain ⟨item, hitem, hother⟩ := h items hvalue hsome
    rw [hlists item hitem] at hother
    cases hother

/-- The text that is written for values is read as a type exactly when no value is a list of lists only. It is then
read in one way, as a type that has all the values. -/
theorem renderUnion_ofValues_read (values : List Json) :
    ((∃ union : TypeUnion, union.text = renderUnion (ofValues values)) ↔
        ∀ items, .array items ∈ values → items ≠ [] → ∃ item ∈ items, item.isArray = false) ∧
      ∀ union : TypeUnion, union.text = renderUnion (ofValues values) →
        (∀ other : TypeUnion, other.text = renderUnion (ofValues values) → other = union) ∧
          ∀ value ∈ values, union.admits value = true := by
  have hlists (union : TypeUnion) (htext : union.text = renderUnion (ofValues values)) :
      .listOf [.list] ∉ ofValues values := fun hmem => text_ne_renderUnion hmem union htext
  refine ⟨?_, fun union htext => ⟨fun other hother => ?_, ?_⟩⟩
  · rw [← lists_not_mem_ofValues_iff]
    constructor
    · rintro ⟨union, htext⟩
      exact hlists union htext
    · intro hnone
      obtain ⟨union, htext, -⟩ := exists_text_eq_renderUnion hnone
      exact ⟨union, htext⟩
  · exact TypeUnion.text_injective (hother.trans htext.symm)
  · obtain ⟨covering, hcovering, hadmits⟩ := exists_text_eq_renderUnion (hlists union htext)
    rwa [TypeUnion.text_injective (htext.trans hcovering.symm)]

/-- A list of lists and strings beside an empty list and a null. -/
def mixedValues : List Json := [.array [.array [.array []], .string "x"], .array [], .null]

def mixedType : String := "readonly (readonly unknown[] | string)[] | readonly unknown[] | null"

theorem renderUnion_ofValues_read_mixed :
    renderUnion (ofValues mixedValues) = mixedType ∧
      ∃ union : TypeUnion, union.text = mixedType ∧ ∀ value ∈ mixedValues, union.admits value = true := by
  have hrender : renderUnion (ofValues mixedValues) = mixedType := by decide +kernel
  obtain ⟨hread, hadmits⟩ := renderUnion_ofValues_read mixedValues
  obtain ⟨union, htext⟩ := hread.mpr (by simp [mixedValues, Json.isArray])
  exact ⟨hrender, union, htext.trans hrender, (hadmits union htext).2⟩

/-- A list whose one element is an empty list. -/
theorem renderUnion_ofValues_unread :
    renderUnion (ofValues [.array [.array []]]) = "readonly readonly unknown[][]" ∧
      ¬∃ union : TypeUnion, union.text = "readonly readonly unknown[][]" := by
  have hrender : renderUnion (ofValues [.array [.array []]]) = "readonly readonly unknown[][]" := by
    decide +kernel
  have hlists : .listOf [.list] ∈ ofValues [.array [.array []]] := by decide +kernel
  refine ⟨hrender, ?_⟩
  rintro ⟨union, htext⟩
  exact text_ne_renderUnion hlists union (htext.trans hrender.symm)

end ValueType

end Phrasebook.Script
