import Phrasebook.Message.Path
import Phrasebook.Json.Written
import Phrasebook.Proofs.Keyed

/-! # Values inside a document

A path reaches a value of a document by choosing a member of an object or an element of an array at each
step. Where all objects have distinct names, as in every document that was read, a path reaches at most one
value, and it is the one that looking up the path finds.
-/

namespace Phrasebook.Json

open Message

def isObject : Json → Bool
  | .object _ => true
  | _ => false

theorem items?_eq_some_iff {value : Json} {items : List Json} : value.items? = some items ↔ value = .array items := by
  cases value <;> simp [items?]

theorem items?_eq_none_iff {value : Json} : value.items? = none ↔ value.isArray = false := by
  cases value <;> simp [items?, isArray]

@[elab_as_elim]
theorem nestedInduction {motive : Json → Prop}
    (scalar : ∀ value, value.isArray = false → value.isObject = false → motive value)
    (array : ∀ items, (∀ value ∈ items, motive value) → motive (.array items))
    (object : ∀ members, (∀ pair ∈ members, motive pair.2) → motive (.object members))
    (value : Json) : motive value :=
  match value with
  | .null => scalar _ rfl rfl
  | .bool _ => scalar _ rfl rfl
  | .number _ => scalar _ rfl rfl
  | .string _ => scalar _ rfl rfl
  | .array items => array items fun value _ => nestedInduction scalar array object value
  | .object members => object members fun pair _ => nestedInduction scalar array object pair.2
termination_by sizeOf value
decreasing_by
  · rename_i h
    have := List.sizeOf_lt_of_mem h
    simp only [Json.array.sizeOf_spec]
    omega
  · rename_i h
    have hmem := List.sizeOf_lt_of_mem h
    obtain ⟨name, inner⟩ := pair
    simp only [Prod.mk.sizeOf_spec] at hmem
    simp only [Json.object.sizeOf_spec]
    omega

/-- A path from a value to a value inside it. -/
inductive Reaches : Json → Path → Json → Prop where
  | here (value : Json) : Reaches value [] value
  | member {members : List (String × Json)} {name : String} {value inner : Json} {path : Path}
      (mem : (name, value) ∈ members) (rest : Reaches value path inner) :
      Reaches (.object members) (.key name :: path) inner
  | element {items : List Json} {position : Nat} {value inner : Json} {path : Path}
      (get : items[position]? = some value) (rest : Reaches value path inner) :
      Reaches (.array items) (.index position :: path) inner

/-- A condition on the members of every object in a value. -/
def Throughout (condition : List (String × Json) → Prop) (value : Json) : Prop :=
  ∀ path members, Reaches value path (.object members) → condition members

/-- All objects have distinct names. -/
def Tidy : Json → Prop := Throughout fun members => (Keyed.keys members).Nodup

section Throughout

variable {condition : List (String × Json) → Prop}

theorem throughout_scalar {value : Json} (harray : value.isArray = false)
    (hobject : value.isObject = false) : Throughout condition value := by
  intro path members h
  cases h with
  | here => cases hobject
  | member => cases hobject
  | element => cases harray

theorem throughout_string (text : String) : Throughout condition (.string text) := throughout_scalar rfl rfl

theorem throughout_array_iff (items : List Json) :
    Throughout condition (.array items) ↔ ∀ value ∈ items, Throughout condition value := by
  constructor
  · intro h value hvalue path members hreach
    obtain ⟨position, hget⟩ := List.mem_iff_getElem?.mp hvalue
    exact h _ _ (.element hget hreach)
  · intro h path members hreach
    cases hreach with
    | element hget rest => exact h _ (List.mem_of_getElem? hget) _ _ rest

theorem throughout_object_iff (members : List (String × Json)) :
    Throughout condition (.object members) ↔
      condition members ∧ ∀ pair ∈ members, Throughout condition pair.2 := by
  constructor
  · intro h
    exact ⟨h [] members (.here _), fun pair hpair path inner hreach => h _ _ (.member hpair hreach)⟩
  · rintro ⟨hhere, hinner⟩ path inner hreach
    cases hreach with
    | here => exact hhere
    | member hmem rest => exact hinner _ hmem _ _ rest

theorem Throughout.reached {value inner : Json} {path : Path} (h : Throughout condition value)
    (hreach : Reaches value path inner) : Throughout condition inner := by
  induction hreach with
  | here => exact h
  | member hmem _ ih => exact ih (((throughout_object_iff _).mp h).2 _ hmem)
  | element hget _ ih => exact ih ((throughout_array_iff _).mp h _ (List.mem_of_getElem? hget))

end Throughout

theorem Reaches.append {value middle inner : Json} {path more : Path} (h : Reaches value path middle)
    (hmore : Reaches middle more inner) : Reaches value (path ++ more) inner := by
  induction h with
  | here => exact hmore
  | member hmem _ ih => exact .member hmem (ih hmore)
  | element hget _ ih => exact .element hget (ih hmore)

theorem Reaches.split {value inner : Json} {path more : Path} (h : Reaches value (path ++ more) inner) :
    ∃ middle, Reaches value path middle ∧ Reaches middle more inner := by
  induction path generalizing value with
  | nil => exact ⟨value, .here _, h⟩
  | cons segment path ih =>
    cases h with
    | member hmem rest =>
      obtain ⟨middle, hfirst, hlast⟩ := ih rest
      exact ⟨middle, .member hmem hfirst, hlast⟩
    | element hget rest =>
      obtain ⟨middle, hfirst, hlast⟩ := ih rest
      exact ⟨middle, .element hget hfirst, hlast⟩

theorem Tidy.unique {value first second : Json} {path : Path} (h : Tidy value)
    (hfirst : Reaches value path first) (hsecond : Reaches value path second) : first = second := by
  induction hfirst with
  | here =>
    cases hsecond
    rfl
  | member hmem _ ih =>
    obtain ⟨hnames, hinner⟩ := (throughout_object_iff _).mp h
    cases hsecond with
    | member hmem' rest' =>
      cases Keyed.eq_of_mem hnames hmem hmem'
      exact ih (hinner _ hmem) rest'
  | element hget _ ih =>
    cases hsecond with
    | element hget' rest' =>
      rw [hget] at hget'
      cases hget'
      exact ih ((throughout_array_iff _).mp h _ (List.mem_of_getElem? hget)) rest'

/-- Only objects have values below them through keys alone. -/
theorem Tidy.keys_eq_of_front {document first second : Json} {path : Path} {keys keys' : List String}
    (h : Tidy document) (hfirst : Reaches document (path ++ keys.map Segment.key) first)
    (hobject : first.isObject = false) (hsecond : Reaches document (path ++ keys'.map Segment.key) second)
    (hfront : keys.map Segment.key <+: keys'.map Segment.key) :
    keys.map Segment.key = keys'.map Segment.key := by
  obtain ⟨more, hmore⟩ := hfront
  rw [← hmore, ← List.append_assoc] at hsecond
  obtain ⟨middle, hmiddle, hrest⟩ := hsecond.split
  have hsame := h.unique hfirst hmiddle
  subst hsame
  cases more with
  | nil => rw [← hmore, List.append_nil]
  | cons segment rest =>
    cases hrest with
    | member => cases hobject
    | element =>
      have hindex : Segment.index _ ∈ keys'.map Segment.key :=
        hmore ▸ List.mem_append_right _ List.mem_cons_self
      obtain ⟨_, -, heq⟩ := List.mem_map.mp hindex
      cases heq

theorem Tidy.reaches_iff_lookup? {value : Json} (h : Tidy value) (path : Path) (inner : Json) :
    Reaches value path inner ↔ path.lookup? value = some inner := by
  induction path generalizing value with
  | nil =>
    constructor
    · intro hreach
      cases hreach
      rfl
    · intro heq
      cases heq
      exact .here _
  | cons segment path ih =>
    rw [Path.lookup?, List.foldlM_cons, Option.bind_eq_bind, Option.bind_eq_some_iff]
    constructor
    · intro hreach
      cases hreach with
      | member hmem rest =>
        obtain ⟨hnames, hinner⟩ := (throughout_object_iff _).mp h
        exact ⟨_, (Keyed.get?_eq_some_iff hnames _ _).mpr hmem, (ih (hinner _ hmem)).mp rest⟩
      | element hget rest =>
        exact ⟨_, hget, (ih ((throughout_array_iff _).mp h _ (List.mem_of_getElem? hget))).mp rest⟩
    · rintro ⟨middle, hstep, hrest⟩
      cases segment with
      | key name =>
        cases value with
        | object members =>
          have hmem := Keyed.mem_of_get? hstep
          exact .member hmem ((ih (((throughout_object_iff _).mp h).2 _ hmem)).mpr hrest)
        | _ => cases hstep
      | index position =>
        cases value with
        | array items =>
          have hmem := (throughout_array_iff _).mp h _ (List.mem_of_getElem? hstep)
          exact .element hstep ((ih hmem).mpr hrest)
        | _ => cases hstep

end Phrasebook.Json
