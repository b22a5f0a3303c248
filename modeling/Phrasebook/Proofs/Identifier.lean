import Phrasebook.Identifier

/-! # How generated names differ

A name within a group determines the name that was qualified. The name of a parameters' interface is longer
than the accessor's and ends otherwise than that of a namespace.
-/

namespace Phrasebook.Identifier

theorem qualify_injective {group first second : String} (h : qualify group first = qualify group second) :
    first = second := by
  rw [qualify, qualify] at h
  split at h
  · exact h
  · exact (String.append_right_inj _).mp h

theorem exists_qualify_eq (group name : String) :
    ∃ front : List Char, (qualify group name).toList = front ++ name.toList := by
  rw [qualify]
  split
  · exact ⟨[], rfl⟩
  · exact ⟨(stem group ++ "_").toList, String.toList_append⟩

theorem exists_paramsType_eq (identifier : String) :
    ∃ front : List Char,
      (paramsType identifier).toList = front ++ (identifier.toList.tail ++ "Params".toList) := by
  rw [paramsType]
  cases identifier.toList with
  | nil => exact ⟨[], rfl⟩
  | cons c cs =>
    refine ⟨Text.upperCase c, ?_⟩
    rw [String.toList_append, String.toList_ofList, List.append_assoc, List.tail_cons]

theorem paramsType_ne_self (identifier : String) : paramsType identifier ≠ identifier := by
  intro h
  obtain ⟨front, hfront⟩ := exists_paramsType_eq identifier
  have hlength := congrArg List.length hfront
  rw [h, List.length_append, List.length_append, List.length_tail] at hlength
  simp only [String.length_toList] at hlength
  have : "Params".length = 6 := rfl
  omega

theorem paramsType_ne_namespaceConst (identifier group : String) :
    paramsType identifier ≠ namespaceConst group := by
  intro h
  obtain ⟨front, hfront⟩ := exists_paramsType_eq identifier
  obtain ⟨front', hfront'⟩ := exists_qualify_eq group "messages"
  rw [h, namespaceConst, hfront', ← List.append_assoc] at hfront
  have hsplit : "messages".toList = "me".toList ++ "ssages".toList := rfl
  rw [hsplit, ← List.append_assoc] at hfront
  exact absurd (List.append_inj_right' hfront rfl) (by decide)

theorem ofPath_namespace_ne_namespaceConst (group : String) :
    ofPath "namespace" group ≠ namespaceConst group := by
  intro h
  have hname : String.ofList (foldPoints (foldIndices "namespace".toList)) = "namespace" := by decide +kernel
  rw [ofPath, namespaceConst, hname] at h
  exact absurd (qualify_injective h) (by decide)

/-- The names of a message with the path of the shared module's file have an underscore. -/
theorem underscore_mem_of_runtimeFile (group : String) :
    '_' ∈ (ofPath "_runtime.ts" group).toList ∧ '_' ∈ (paramsType (ofPath "_runtime.ts" group)).toList := by
  have hname : String.ofList (foldPoints (foldIndices "_runtime.ts".toList)) = "_runtime_ts" := by decide +kernel
  obtain ⟨front, hfront⟩ := exists_qualify_eq group "_runtime_ts"
  obtain ⟨before, hbefore⟩ := exists_paramsType_eq (ofPath "_runtime.ts" group)
  have htail : '_' ∈ (ofPath "_runtime.ts" group).toList.tail := by
    rw [ofPath, hname, hfront]
    cases front with
    | nil => decide
    | cons c cs => exact List.mem_append_right _ (by decide)
  refine ⟨List.mem_of_mem_tail htail, ?_⟩
  rw [hbefore]
  exact List.mem_append_right _ (List.mem_append_left _ htail)

theorem isValid_eq_false_of_head {name : String} {c : Char} {cs : List Char} (h : name.toList = c :: cs)
    (hc : isStart c = false) : isValid name = false := by
  rw [isValid, isName, h]
  simp [hc]

theorem toList_qualify_root (name : String) :
    (qualify "(root)" name).toList = '(' :: ("root)_".toList ++ name.toList) := by
  have hstem : stem "(root)" = "(root)" := by decide
  rw [qualify, hstem, if_neg (by decide), String.toList_append, String.toList_append, List.append_assoc]
  rfl

/-- No name in a group that is called like the group without a path is usable. -/
theorem isValid_qualify_root (name : String) : isValid (qualify "(root)" name) = false :=
  isValid_eq_false_of_head (toList_qualify_root name) (by decide)

theorem isValid_paramsType_root (name : String) : isValid (paramsType (qualify "(root)" name)) = false := by
  have hupper : Text.upperCase '(' = ['('] := by decide
  have hname : (paramsType (qualify "(root)" name)).toList =
      '(' :: ("root)_".toList ++ name.toList ++ "Params".toList) := by
    rw [paramsType, toList_qualify_root]
    simp [hupper]
  exact isValid_eq_false_of_head hname (by decide)

end Phrasebook.Identifier
