import Phrasebook.Message.Record
import Phrasebook.Proofs.Json.Inside
import Phrasebook.Proofs.Message.Display
import Phrasebook.Proofs.Template.Occurrence

/-! # The records of a document

Flattening gives one record for every value inside a document that is no object. The record is determined by
the path that reaches the value: it is marked as an array by the value, and remembers the last array position
on the path.
-/

namespace Phrasebook.Message

open Json (Reaches)

namespace Path

/-- The nearest array element around the end of the second path, where the first path leads to its start and
the given element is the nearest around that. -/
def nearest (path : Path) (item : Option ItemRef) : Path → Option ItemRef
  | [] => item
  | .key name :: rest => nearest (path.child name) item rest
  | .index position :: rest => nearest (path.element position) (some ⟨path.display, position⟩) rest

def item? (path : Path) : Option ItemRef := nearest [] none path

theorem nearest_append (path : Path) (item : Option ItemRef) (first second : Path) :
    nearest path item (first ++ second) = nearest (path ++ first) (nearest path item first) second := by
  induction first generalizing path item with
  | nil => simp [nearest]
  | cons segment rest ih => cases segment <;> simp [nearest, ih, child, element]

theorem nearest_keys (path : Path) (item : Option ItemRef) (keys : List String) :
    nearest path item (keys.map Segment.key) = item := by
  induction keys generalizing path with
  | nil => rfl
  | cons key keys ih => exact ih _

theorem item?_keys (keys : List String) : item? (keys.map Segment.key) = none := nearest_keys [] none keys

theorem item?_index (path : Path) (position : Nat) (keys : List String) :
    item? (path ++ .index position :: keys.map Segment.key) = some ⟨path.display, position⟩ := by
  rw [item?, nearest_append, List.nil_append, nearest, nearest_keys]

/-- A path has keys only, or keys only after its last position. -/
theorem keys_or_index (path : Path) :
    (∃ keys : List String, path = keys.map Segment.key) ∨
      ∃ (front : Path) (position : Nat) (keys : List String),
        path = front ++ .index position :: keys.map Segment.key := by
  induction path with
  | nil => exact .inl ⟨[], rfl⟩
  | cons segment rest ih =>
    rcases ih with ⟨keys, rfl⟩ | ⟨front, position, keys, rfl⟩
    · cases segment with
      | key name => exact .inl ⟨name :: keys, rfl⟩
      | index position => exact .inr ⟨[], position, keys, rfl⟩
    · exact .inr ⟨segment :: front, position, keys, rfl⟩

theorem item?_eq_none_iff (path : Path) :
    path.item? = none ↔ ∃ keys : List String, path = keys.map Segment.key := by
  constructor
  · intro h
    refine path.keys_or_index.resolve_right ?_
    rintro ⟨front, position, keys, rfl⟩
    rw [item?_index] at h
    cases h
  · rintro ⟨keys, rfl⟩
    exact item?_keys keys

theorem item?_eq_some_iff (path : Path) (ref : ItemRef) :
    path.item? = some ref ↔ ∃ (front : Path) (keys : List String),
      path = front ++ .index ref.position :: keys.map Segment.key ∧ ref.arrayPath = front.display := by
  constructor
  · intro h
    rcases path.keys_or_index with ⟨keys, rfl⟩ | ⟨front, position, keys, rfl⟩
    · rw [item?_keys] at h
      cases h
    · rw [item?_index] at h
      cases h
      exact ⟨front, keys, rfl, rfl⟩
  · rintro ⟨front, keys, rfl, hdisplay⟩
    rw [item?_index, ← hdisplay]

theorem keys_then_index (path : Path) : ∃ (keys : List String) (rest : Path),
    path = keys.map Segment.key ++ rest ∧ (rest = [] ∨ ∃ position more, rest = .index position :: more) := by
  induction path with
  | nil => exact ⟨[], [], rfl, .inl rfl⟩
  | cons segment rest ih =>
    cases segment with
    | key name =>
      obtain ⟨keys, rest', rfl, hrest⟩ := ih
      exact ⟨name :: keys, rest', rfl, hrest⟩
    | index position => exact ⟨[], _, rfl, .inr ⟨position, rest, rfl⟩⟩

theorem keys?_eq_some_iff (path : Path) (keys : List String) :
    path.keys? = some keys ↔ path = keys.map Segment.key := by
  induction path generalizing keys with
  | nil => cases keys <;> simp [keys?]
  | cons segment rest ih =>
    rw [keys?, List.mapM_cons]
    cases segment with
    | index position => cases keys <;> simp
    | key name =>
      simp only [Option.pure_def, Option.bind_eq_bind, Option.bind_some, Option.bind_eq_some_iff,
        Option.some.injEq]
      constructor
      · rintro ⟨names, hnames, rfl⟩
        rw [(ih names).mp hnames, List.map_cons]
      · intro h
        cases keys with
        | nil => cases h
        | cons first names =>
          rw [List.map_cons, List.cons.injEq, Segment.key.injEq] at h
          exact ⟨names, (ih names).mpr h.2, by rw [h.1]⟩

end Path

namespace Record

def placeholders : Json → List String
  | .array items => paramsOfItems items
  | value => paramsOf value

def ofValue (path : Path) (item : Option ItemRef) (value : Json) : Record :=
  { path, value, params := placeholders value, isArrayRoot := value.isArray, item }

theorem flattenMembers_eq_flatMap (path : Path) (item : Option ItemRef)
    (members : List (String × Json)) :
    flattenMembers path item members =
      members.flatMap fun pair => flatten (path.child pair.1) item pair.2 := by
  induction members with
  | nil => rfl
  | cons pair rest ih =>
    rw [flattenMembers, ih]
    rfl

theorem mem_flattenItems_iff (path : Path) (start : Nat) (items : List Json) (record : Record) :
    record ∈ flattenItems path start items ↔
      ∃ position value, items[position]? = some value ∧
        record ∈ flatten (path.element (start + position))
          (some ⟨path.display, start + position⟩) value := by
  induction items generalizing start with
  | nil => simp [flattenItems]
  | cons value rest ih =>
    rw [flattenItems, List.mem_append, ih]
    constructor
    · rintro (h | ⟨position, inner, hget, h⟩)
      · exact ⟨0, value, rfl, h⟩
      · exact ⟨position + 1, inner, hget, by rwa [← Nat.add_assoc, Nat.add_right_comm]⟩
    · rintro ⟨position, inner, hget, h⟩
      cases position with
      | zero =>
        cases hget
        exact .inl h
      | succ position =>
        exact .inr ⟨position, inner, hget, by rwa [Nat.add_right_comm, Nat.add_assoc]⟩

/-- There is one record for each value inside that is no object, and no other record. -/
theorem mem_flatten_iff (path : Path) (item : Option ItemRef) (value : Json) (record : Record) :
    record ∈ flatten path item value ↔
      ∃ inner found, Reaches value inner found ∧ found.isObject = false ∧
        record = ofValue (path ++ inner) (Path.nearest path item inner) found := by
  induction value using Json.nestedInduction generalizing path item with
  | scalar value harray hobject =>
    have hflat : flatten path item value = [ofValue path item value] := by
      cases value with
      | array items => cases harray
      | object members => cases hobject
      | _ => rfl
    rw [hflat, List.mem_singleton]
    constructor
    · rintro rfl
      exact ⟨[], value, .here _, hobject, by simp [Path.nearest]⟩
    · rintro ⟨inner, found, hreach, -, rfl⟩
      cases hreach with
      | here => simp [Path.nearest]
      | member => cases hobject
      | element => cases harray
  | array items ih =>
    rw [flatten, List.mem_cons, mem_flattenItems_iff]
    constructor
    · rintro (rfl | ⟨position, value, hget, h⟩)
      · exact ⟨[], .array items, .here _, rfl, by simp [Path.nearest, ofValue, placeholders, Json.isArray]⟩
      · obtain ⟨inner, found, hreach, hfound, rfl⟩ := (ih value (List.mem_of_getElem? hget) _ _).mp h
        exact ⟨.index position :: inner, found, .element hget hreach, hfound,
          by simp [Path.nearest, Path.element]⟩
    · rintro ⟨inner, found, hreach, hfound, rfl⟩
      cases hreach with
      | here => exact .inl (by simp [Path.nearest, ofValue, placeholders, Json.isArray])
      | @element _ position value _ rest hget hreach =>
        refine .inr ⟨position, value, hget, (ih value (List.mem_of_getElem? hget) _ _).mpr ?_⟩
        exact ⟨rest, found, hreach, hfound, by simp [Path.nearest, Path.element]⟩
  | object members ih =>
    rw [flatten, flattenMembers_eq_flatMap, List.mem_flatMap]
    constructor
    · rintro ⟨⟨name, value⟩, hmem, h⟩
      obtain ⟨inner, found, hreach, hfound, rfl⟩ := (ih _ hmem _ _).mp h
      exact ⟨.key name :: inner, found, .member hmem hreach, hfound,
        by simp [Path.nearest, Path.child]⟩
    · rintro ⟨inner, found, hreach, hfound, rfl⟩
      cases hreach with
      | here => cases hfound
      | @member _ name value _ rest hmem hreach =>
        refine ⟨(name, value), hmem, (ih _ hmem _ _).mpr ?_⟩
        exact ⟨rest, found, hreach, hfound, by simp [Path.nearest, Path.child]⟩

theorem mem_ofDocument_iff (document : Json) (record : Record) :
    record ∈ ofDocument document ↔
      ∃ path value, Reaches document path value ∧ value.isObject = false ∧
        record = ofValue path path.item? value := by
  rw [ofDocument, mem_flatten_iff]
  simp [Path.item?]

end Record

theorem firstRepeated?_eq_none_iff (texts : List String) : firstRepeated? texts = none ↔ texts.Nodup := by
  have hgo (seen : List String) : firstRepeated?.go seen texts = none ↔
      texts.Nodup ∧ ∀ text ∈ texts, text ∉ seen := by
    induction texts generalizing seen with
    | nil => simp [firstRepeated?.go]
    | cons text rest ih =>
      rw [firstRepeated?.go, List.nodup_cons, List.forall_mem_cons]
      split
      · rename_i hseen
        simp [List.contains_iff_mem.mp hseen]
      · rename_i hseen
        rw [List.contains_iff_mem] at hseen
        rw [ih]
        constructor
        · rintro ⟨hnodup, hrest⟩
          refine ⟨⟨fun hmem => hrest text hmem List.mem_cons_self, hnodup⟩, hseen, fun other hother => ?_⟩
          exact fun hin => hrest other hother (List.mem_cons_of_mem _ hin)
        · rintro ⟨⟨hnot, hnodup⟩, -, hrest⟩
          refine ⟨hnodup, fun other hother hin => ?_⟩
          rcases List.mem_cons.mp hin with rfl | hin
          · exact hnot hother
          · exact hrest other hother hin
  rw [firstRepeated?, hgo]
  simp

/-- The first text that occurs a second time ends the longest front in which each text occurs once. -/
theorem firstRepeated?_eq_some_iff (texts : List String) (text : String) :
    firstRepeated? texts = some text ↔ ∃ front back, texts = front ++ text :: back ∧ front.Nodup ∧ text ∈ front := by
  have hgo (seen : List String) : firstRepeated?.go seen texts = some text ↔
      ∃ front back, texts = front ++ text :: back ∧ front.Nodup ∧ (∀ other ∈ front, other ∉ seen) ∧
        (text ∈ front ∨ text ∈ seen) := by
    induction texts generalizing seen with
    | nil => simp [firstRepeated?.go]
    | cons first rest ih =>
      rw [firstRepeated?.go]
      split
      · rename_i hseen
        rw [List.contains_iff_mem] at hseen
        constructor
        · rintro h
          cases h
          exact ⟨[], rest, rfl, List.nodup_nil, fun other hother => absurd hother List.not_mem_nil, .inr hseen⟩
        · rintro ⟨front, back, htexts, -, hfresh, -⟩
          cases front with
          | nil =>
            cases htexts
            rfl
          | cons other front =>
            cases htexts
            exact absurd hseen (hfresh first List.mem_cons_self)
      · rename_i hseen
        rw [List.contains_iff_mem] at hseen
        rw [ih]
        constructor
        · rintro ⟨front, back, rfl, hnodup, hfresh, hmem⟩
          have hfirst : first ∉ front := fun h => hfresh first h List.mem_cons_self
          refine ⟨first :: front, back, rfl, List.nodup_cons.mpr ⟨hfirst, hnodup⟩, ?_, ?_⟩
          · refine List.forall_mem_cons.mpr ⟨hseen, fun other hother hin => ?_⟩
            exact hfresh other hother (List.mem_cons_of_mem _ hin)
          · simp only [List.mem_cons] at hmem ⊢
            tauto
        · rintro ⟨front, back, htexts, hnodup, hfresh, hmem⟩
          cases front with
          | nil =>
            cases htexts
            exact absurd (hmem.resolve_left List.not_mem_nil) hseen
          | cons other front =>
            cases htexts
            rw [List.nodup_cons] at hnodup
            refine ⟨front, back, rfl, hnodup.2, fun other hother hin => ?_, ?_⟩
            · rcases List.mem_cons.mp hin with rfl | hin
              · exact hnodup.1 hother
              · exact hfresh other (List.mem_cons_of_mem _ hother) hin
            · simp only [List.mem_cons] at hmem ⊢
              tauto
  rw [firstRepeated?, hgo]
  simp

theorem repeatedKey?_eq_none_iff (records : List Record) :
    repeatedKey? records = none ↔ (records.map Record.key).Nodup :=
  firstRepeated?_eq_none_iff _

/-- No name of an object holds a point or an opening bracket. -/
def PlainNames : Json → Prop := Json.Throughout fun members => ∀ name ∈ Keyed.keys members, PlainName name

theorem PlainNames.plain {document value : Json} {path : Path} (h : PlainNames document)
    (hreach : Reaches document path value) : path.Plain := by
  induction hreach with
  | here => exact fun name hname => absurd hname List.not_mem_nil
  | member hmem _ ih =>
    obtain ⟨hnames, hinner⟩ := (Json.throughout_object_iff _).mp h
    intro name hname
    rcases List.mem_cons.mp hname with heq | hrest
    · cases heq
      exact hnames _ (List.mem_map_of_mem (f := (·.1)) hmem)
    · exact ih (hinner _ hmem) name hrest
  | element hget _ ih =>
    intro name hname
    rcases List.mem_cons.mp hname with heq | hrest
    · cases heq
    · exact ih ((Json.throughout_array_iff _).mp h _ (List.mem_of_getElem? hget)) name hrest

theorem keyed_of_reaches {document value : Json} {path : Path} (hdocument : document.isObject = true)
    (hreach : Reaches document path value) (hvalue : value.isObject = false) : path.Keyed := by
  cases hreach with
  | here =>
    rw [hdocument] at hvalue
    cases hvalue
  | member => exact ⟨_, _, rfl⟩
  | element => cases hdocument

end Phrasebook.Message
