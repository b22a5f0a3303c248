import Phrasebook.Accessor

/-! # What a call depends on

A call depends on the values of an entry by their locales, on whether the entry is an array root, and on which
names it declares. The order of the values and of the names does not matter.
-/

namespace Phrasebook

open Message

namespace Template

variable {declared other : List String}

theorem contains_eq_of_mem_iff (h : ∀ name, name ∈ declared ↔ name ∈ other) (name : String) :
    declared.contains name = other.contains name := by
  rw [Bool.eq_iff_iff, List.contains_iff_mem, List.contains_iff_mem, h]

theorem fill_congr (h : ∀ name, name ∈ declared ↔ name ∈ other) (text : String) (values : Keyed String) :
    fill text declared values = fill text other values := by
  have hpiece : fillPiece declared values = fillPiece other values := by
    funext piece
    cases piece with
    | char c => rfl
    | hole name => simp only [fillPiece, contains_eq_of_mem_iff h name]
  rw [fill, fill, hpiece]

theorem mentions_congr (h : ∀ name, name ∈ declared ↔ name ∈ other) (text : String) :
    mentions text declared = mentions text other := by
  simp only [mentions, mentionsIn, contains_eq_of_mem_iff h]

end Template

/-- Entries that say the same at the same place. -/
structure Message.Entry.Agrees (first second : Entry) : Prop where
  path : first.path = second.path
  isArrayRoot : first.isArrayRoot = second.isArrayRoot
  item : first.item = second.item
  value : ∀ locale, first.value? locale = second.value? locale
  params : ∀ name, name ∈ first.params ↔ name ∈ second.params

namespace Accessor

/-- A value comes from the active locale, or from the default locale where the active one has none. -/
theorem resolve_eq_some_iff {accessor : Accessor} {lang ambient : Option String} {value : Json} :
    accessor.resolve lang ambient = some value ↔
      accessor.entry.value? (accessor.activeLocale lang ambient) = some value ∨
        accessor.entry.value? (accessor.activeLocale lang ambient) = none ∧
          accessor.entry.value? accessor.defaultLocale = some value := by
  rw [resolve]
  cases accessor.entry.value? (accessor.activeLocale lang ambient) <;> simp

/-- What a call makes of the value it resolved to. -/
def filled (entry : Entry) (params : Option (Keyed String)) (value : Json) : Json :=
  match params with
  | none => value
  | some values => if entry.params.isEmpty then value else fillValue entry values value

theorem call_eq_map (accessor : Accessor) (lang : Option String) (params : Option (Keyed String))
    (ambient : Option String) :
    accessor.call lang params ambient =
      (accessor.resolve lang ambient).map (filled accessor.entry params) := by
  rw [call, Option.map_eq_bind]
  congr 1
  funext value
  cases params with
  | none => rfl
  | some values =>
    by_cases hempty : accessor.entry.params.isEmpty = true
    · simp [filled, hempty]
    · simp [filled, hempty]

variable {first second : Entry}

theorem fillString_congr {declared other : List String} (h : ∀ name, name ∈ declared ↔ name ∈ other)
    (params : Keyed String) : fillString declared params = fillString other params := by
  funext value
  cases value with
  | string text => rw [fillString, fillString, Template.fill_congr h]
  | _ => rfl

theorem needsFilling_congr {declared other : List String} (h : ∀ name, name ∈ declared ↔ name ∈ other) :
    needsFilling declared = needsFilling other := by
  funext value
  cases value with
  | string text => rw [needsFilling, needsFilling, Template.mentions_congr h]
  | _ => rfl

theorem fillValue_congr (h : first.Agrees second) (params : Keyed String) (value : Json) :
    fillValue first params value = fillValue second params value := by
  cases value with
  | string text => rw [fillValue, fillValue, Template.fill_congr h.params]
  | array items =>
    rw [fillValue, fillValue, h.isArrayRoot, needsFilling_congr h.params, fillString_congr h.params]
  | _ => rfl

theorem resolve_congr (h : first.Agrees second) (defaultLocale : String) (lang ambient : Option String) :
    resolve ⟨first, defaultLocale⟩ lang ambient = resolve ⟨second, defaultLocale⟩ lang ambient := by
  rw [resolve, resolve, activeLocale, activeLocale, h.value, h.value]

theorem isEmpty_congr (h : first.Agrees second) : first.params.isEmpty = second.params.isEmpty := by
  rw [Bool.eq_iff_iff, List.isEmpty_iff, List.isEmpty_iff, List.eq_nil_iff_forall_not_mem,
    List.eq_nil_iff_forall_not_mem]
  exact forall_congr' fun name => not_congr (h.params name)

/-- Entries that say the same are called with the same result. -/
theorem call_congr (h : first.Agrees second) (defaultLocale : String) (lang : Option String)
    (params : Option (Keyed String)) (ambient : Option String) :
    call ⟨first, defaultLocale⟩ lang params ambient = call ⟨second, defaultLocale⟩ lang params ambient := by
  rw [call, call, resolve_congr h, isEmpty_congr h]
  simp only [fillValue_congr h]

end Accessor

end Phrasebook
