import Phrasebook.Proofs.Message.Flatten
import Phrasebook.Proofs.Template.Positions

/-! # Records in source order

In the order of its source a container comes before what it holds, members come in the order of their names,
and elements in that of their positions. The records of a document follow this order, so no two stand at one
path; each tells what the document holds at its path.
-/

namespace Phrasebook

open Message

/-- The first path comes before the second one in the source of a value. -/
inductive Json.Precedes : Json → Path → Path → Prop where
  | inside (value : Json) (segment : Segment) (path : Path) : Precedes value [] (segment :: path)
  | member {members : List (String × Json)} {name other : String}
      (order : [name, other].Sublist (Keyed.keys members)) (path path' : Path) :
      Precedes (.object members) (.key name :: path) (.key other :: path')
  | element {position other : Nat} (order : position < other) (items : List Json) (path path' : Path) :
      Precedes (.array items) (.index position :: path) (.index other :: path')
  | deeper {value inner : Json} {segment : Segment} {path path' : Path}
      (step : segment.step? value = some inner) (rest : Precedes inner path path') :
      Precedes value (segment :: path) (segment :: path')

def Json.texts : Json → List String
  | .string text => [text]
  | .array items => items.filterMap Json.text?
  | _ => []

namespace Json

theorem Tidy.step? {value inner : Json} {segment : Segment} (h : value.Tidy)
    (hstep : segment.step? value = some inner) : inner.Tidy := by
  have hreach : Reaches value [segment] inner := by
    rw [h.reaches_iff_lookup?, Path.lookup?, List.foldlM_cons, hstep]
    rfl
  exact Throughout.reached h hreach

theorem Tidy.precedes_ne {value : Json} {path path' : Path} (h : value.Tidy)
    (hprecedes : Precedes value path path') : path ≠ path' := by
  induction hprecedes with
  | inside => exact (List.cons_ne_nil _ _).symm
  | member order =>
    rintro heq
    cases heq
    have hnames := ((throughout_object_iff _).mp h).1
    exact absurd (order.nodup hnames) (by simp)
  | element order =>
    rintro heq
    cases heq
    exact absurd order (Nat.lt_irrefl _)
  | deeper step _ ih => exact fun heq => ih (h.step? step) (List.cons.inj heq).2

end Json

namespace Message.Record

open Json (Reaches Precedes)

/-- The record comes before the other one, as seen from the value at a path. -/
def Earlier (path : Path) (value : Json) (record other : Record) : Prop :=
  ∃ inner inner', record.path = path ++ inner ∧ other.path = path ++ inner' ∧ Precedes value inner inner'

theorem flattenItems_eq_flatMap (path : Path) (start : Nat) (items : List Json) :
    flattenItems path start items = (items.zipIdx start).flatMap fun pair =>
      flatten (path.element pair.2) (some ⟨path.display, pair.2⟩) pair.1 := by
  induction items generalizing start with
  | nil => rfl
  | cons value rest ih =>
    rw [flattenItems, ih]
    rfl

theorem exists_path_of_mem_flatten {path : Path} {item : Option ItemRef} {value : Json} {record : Record}
    (h : record ∈ flatten path item value) : ∃ inner, record.path = path ++ inner := by
  obtain ⟨inner, found, -, -, rfl⟩ := (mem_flatten_iff path item value record).mp h
  exact ⟨inner, rfl⟩

theorem Earlier.below {path : Path} {value inner : Json} {segment : Segment} {record other : Record}
    (hstep : segment.step? value = some inner) (h : Earlier (path ++ [segment]) inner record other) :
    Earlier path value record other := by
  obtain ⟨first, second, hfirst, hsecond, hprecedes⟩ := h
  exact ⟨segment :: first, segment :: second, by rw [hfirst, ← List.append_cons], by rw [hsecond, ← List.append_cons],
    .deeper hstep hprecedes⟩

theorem pairwise_flattenMembers {path : Path} {item : Option ItemRef} {members : List (String × Json)}
    (hnames : (Keyed.keys members).Nodup)
    (hinner : ∀ pair ∈ members,
      (flatten (path.child pair.1) item pair.2).Pairwise (Earlier (path.child pair.1) pair.2)) :
    (flattenMembers path item members).Pairwise (Earlier path (.object members)) := by
  rw [flattenMembers_eq_flatMap, List.pairwise_flatMap]
  constructor
  · intro pair hpair
    have hstep : (Segment.key pair.1).step? (.object members) = some pair.2 :=
      (Keyed.get?_eq_some_iff hnames _ _).mpr hpair
    exact (hinner pair hpair).imp fun hearlier => hearlier.below hstep
  · rw [List.pairwise_iff_forall_sublist]
    intro pair other hpairs record hrecord record' hrecord'
    obtain ⟨inner, hinner⟩ := exists_path_of_mem_flatten hrecord
    obtain ⟨inner', hinner'⟩ := exists_path_of_mem_flatten hrecord'
    refine ⟨.key pair.1 :: inner, .key other.1 :: inner', ?_, ?_, .member (hpairs.map _) _ _⟩
    · rw [hinner, Path.child, ← List.append_cons]
    · rw [hinner', Path.child, ← List.append_cons]

theorem pairwise_flattenItems {path : Path} {items : List Json}
    (hinner : ∀ value ∈ items, ∀ position,
      (flatten (path.element position) (some ⟨path.display, position⟩) value).Pairwise
        (Earlier (path.element position) value)) :
    (flattenItems path 0 items).Pairwise (Earlier path (.array items)) := by
  rw [flattenItems_eq_flatMap, List.pairwise_flatMap]
  constructor
  · rintro ⟨value, position⟩ hpair
    have hget : items[position]? = some value := List.mk_mem_zipIdx_iff_getElem?.mp hpair
    have hstep : (Segment.index position).step? (.array items) = some value := hget
    exact (hinner value (List.mem_of_getElem? hget) position).imp fun hearlier => hearlier.below hstep
  · have horder : (items.zipIdx 0).Pairwise fun pair other => pair.2 < other.2 := by
      rw [← List.pairwise_map (f := Prod.snd), List.zipIdx_map_snd]
      exact List.pairwise_lt_range' 1
    refine horder.imp fun hlt record hrecord record' hrecord' => ?_
    obtain ⟨inner, hinner⟩ := exists_path_of_mem_flatten hrecord
    obtain ⟨inner', hinner'⟩ := exists_path_of_mem_flatten hrecord'
    refine ⟨_, _, ?_, ?_, .element hlt items inner inner'⟩
    · rw [hinner, Path.element, ← List.append_cons]
    · rw [hinner', Path.element, ← List.append_cons]

/-- The records of a value come in its source order. -/
theorem pairwise_flatten {value : Json} (h : value.Tidy) (path : Path) (item : Option ItemRef) :
    (flatten path item value).Pairwise (Earlier path value) := by
  induction value using Json.nestedInduction generalizing path item with
  | scalar value harray hobject =>
    cases value with
    | array items => cases harray
    | object members => cases hobject
    | _ => exact List.pairwise_singleton _ _
  | array items ih =>
    have hitems := (Json.throughout_array_iff items).mp h
    rw [flatten, List.pairwise_cons]
    refine ⟨fun record hrecord => ?_, ?_⟩
    · -- the list itself comes before its elements
      obtain ⟨position, value, -, hrecord⟩ := (mem_flattenItems_iff path 0 items record).mp hrecord
      obtain ⟨inner, hinner⟩ := exists_path_of_mem_flatten hrecord
      refine ⟨[], .index (0 + position) :: inner, (List.append_nil path).symm, ?_, .inside _ _ _⟩
      rw [hinner, Path.element, ← List.append_cons]
    · exact pairwise_flattenItems fun value hvalue position => ih value hvalue (hitems value hvalue) _ _
  | object members ih =>
    obtain ⟨hnames, hmembers⟩ := (Json.throughout_object_iff members).mp h
    rw [flatten]
    exact pairwise_flattenMembers hnames fun pair hpair => ih pair hpair (hmembers pair hpair) _ _

theorem pairwise_ofDocument {document : Json} (h : document.Tidy) :
    ((ofDocument document).map Record.path).Pairwise (Precedes document) := by
  rw [List.pairwise_map]
  refine (pairwise_flatten h [] none).imp ?_
  rintro record other ⟨inner, inner', hinner, hinner', hprecedes⟩
  rw [hinner, hinner']
  exact hprecedes

theorem nodup_paths_ofDocument {document : Json} (h : document.Tidy) :
    ((ofDocument document).map Record.path).Nodup :=
  (pairwise_ofDocument h).imp fun hprecedes => h.precedes_ne hprecedes

/-- A document whose displayed paths can be read back repeats none. -/
theorem repeatedKey?_ofDocument_eq_none {document : Json} (hobject : document.isObject = true)
    (htidy : document.Tidy) (hplain : PlainNames document) : repeatedKey? (ofDocument document) = none := by
  have hpath {path : Path} (hmem : path ∈ (ofDocument document).map Record.path) : path.Plain ∧ path.Keyed := by
    obtain ⟨record, hrecord, rfl⟩ := List.mem_map.mp hmem
    obtain ⟨path, value, hreach, hvalue, rfl⟩ := (mem_ofDocument_iff document record).mp hrecord
    exact ⟨hplain.plain hreach, keyed_of_reaches hobject hreach hvalue⟩
  have hkeys : (ofDocument document).map Record.key = ((ofDocument document).map Record.path).map Path.display := by
    rw [List.map_map]
    rfl
  rw [repeatedKey?_eq_none_iff, hkeys]
  refine (nodup_paths_ofDocument htidy).map_on fun path hmem path' hmem' heq => ?_
  exact Path.display_injective (hpath hmem).1 (hpath hmem').1 (hpath hmem).2 (hpath hmem').2 heq

theorem paramsOfItems_eq (items : List Json) :
    paramsOfItems items = (items.filterMap Json.text?).foldl
      (fun found text => Template.addNames found (Template.names text)) [] := by
  rw [List.foldl_filterMap, paramsOfItems]
  congr 1
  funext found item
  cases item <;> rfl

/-- The placeholders of a value are those of its texts, each where it is found first. -/
theorem placeholders_eq (value : Json) :
    placeholders value = (value.texts.flatMap Template.occurrences).eraseDups := by
  cases value with
  | string text => exact (Template.names_eq_eraseDups text).trans (by rw [Json.texts, List.flatMap_singleton])
  | array items => exact (paramsOfItems_eq items).trans (Template.foldl_addNames_names _)
  | _ => rfl

theorem keys_iff_forall_index_not_mem (path : Path) :
    (∃ keys : List String, path = keys.map Segment.key) ↔ ∀ position, Segment.index position ∉ path := by
  constructor
  · rintro ⟨keys, rfl⟩ position hmem
    obtain ⟨_, -, heq⟩ := List.mem_map.mp hmem
    cases heq
  · intro h
    refine path.keys_or_index.resolve_right ?_
    rintro ⟨front, position, keys, rfl⟩
    exact h position (by simp)

/-- What a record tells about the value at its path in a document. -/
structure Describes (document : Json) (record : Record) : Prop where
  value : record.path.lookup? document = some record.value
  message : record.value.isObject = false
  isArrayRoot : record.isArrayRoot = true ↔ record.value.isArray = true
  outside : record.item = none ↔ ∀ position, Segment.index position ∉ record.path
  /-- The element is that of the last position on the path. -/
  inside : ∀ ref, record.item = some ref ↔ ∃ (front : Path) (keys : List String),
    record.path = front ++ .index ref.position :: keys.map Segment.key ∧ ref.arrayPath = front.display
  params : record.params = (record.value.texts.flatMap Template.occurrences).eraseDups

theorem describes_of_mem {document : Json} (h : document.Tidy) {record : Record}
    (hrecord : record ∈ ofDocument document) : Describes document record := by
  obtain ⟨path, value, hreach, hmessage, rfl⟩ := (mem_ofDocument_iff document record).mp hrecord
  refine ⟨(h.reaches_iff_lookup? path value).mp hreach, hmessage, Iff.rfl, ?_, path.item?_eq_some_iff,
    placeholders_eq value⟩
  exact path.item?_eq_none_iff.trans (keys_iff_forall_index_not_mem path)

/-- The records of a document are those of its values that are no objects, each once, in source order. -/
theorem ofDocument_lists_messages {document : Json} (h : document.Tidy) :
    ((ofDocument document).map Record.path).Pairwise (Precedes document) ∧
      ((ofDocument document).map Record.path).Nodup ∧
      (∀ path value, path.lookup? document = some value → value.isObject = false →
        ∃ record ∈ ofDocument document, record.path = path ∧ record.value = value) ∧
      ∀ record ∈ ofDocument document, Describes document record := by
  refine ⟨pairwise_ofDocument h, nodup_paths_ofDocument h, fun path value hlookup hmessage => ?_,
    fun record => describes_of_mem h⟩
  have hreach := (h.reaches_iff_lookup? path value).mpr hlookup
  exact ⟨ofValue path path.item? value,
    (mem_ofDocument_iff document _).mpr ⟨path, value, hreach, hmessage, rfl⟩, rfl, rfl⟩

def nestedDocument : Json :=
  .object
    [ ("a", .array [.string "\x7bx\x7d \x7by\x7d \x7bx\x7d", .object [("b", .array [.string "", .string "z"])]]),
      ("c", .object [("", .string "w")]) ]

theorem ofDocument_lists_messages_nested :
    nestedDocument.Tidy ∧
      (ofDocument nestedDocument).map Record.path =
        [ [.key "a"], [.key "a", .index 0], [.key "a", .index 1, .key "b"],
          [.key "a", .index 1, .key "b", .index 0], [.key "a", .index 1, .key "b", .index 1],
          [.key "c", .key ""] ] ∧
      ((ofDocument nestedDocument).map Record.path).Pairwise (Precedes nestedDocument) ∧
      ((ofDocument nestedDocument).map Record.path).Nodup ∧
      (∀ path value, path.lookup? nestedDocument = some value → value.isObject = false →
        ∃ record ∈ ofDocument nestedDocument, record.path = path ∧ record.value = value) ∧
      ∀ record ∈ ofDocument nestedDocument, Describes nestedDocument record := by
  have htidy : nestedDocument.Tidy := by
    simp [nestedDocument, Json.Tidy, Json.throughout_object_iff, Json.throughout_array_iff, Keyed.keys,
      Json.throughout_string]
  exact ⟨htidy, by decide, ofDocument_lists_messages htidy⟩

end Message.Record

end Phrasebook
