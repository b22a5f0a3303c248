import Phrasebook.Proofs.Namespace.Mirror

/-! # Leaves of a namespace

The messages below the children of a branch are those that its entries add, each at the keys of its entry. So every
leaf of a built namespace is called as a message of the catalog. For the elements of a list this needs that the
catalog holds them: their displayed paths are computed from that of the list, and the list may be any locale's.
-/

namespace Phrasebook.Namespace

open Message

namespace Source

/-! ## Messages of one scope -/

/-- A message that an entry adds to the children of a branch. -/
def Adds (source : Source) (build : String → Entry → Except Failure Node) (depth : Nat) (pair : String × Entry)
    (message : Path × Node) : Prop :=
  ∃ node keys below, keys ≠ [] ∧ pair.2.path.drop depth = keys.map Segment.key ∧
    (if pair.2.isArrayRoot then build pair.1 pair.2 else .ok (source.leaf pair.1 pair.2.values)) = .ok node ∧
    (below, message.2) ∈ node.messages ∧ message.1 = keys.map Segment.key ++ below

variable {source : Source} {build : String → Entry → Except Failure Node} {depth : Nat}

/-- An added message has no further keys and leaves the children as they are, or finds its place among them. -/
theorem addEntry_cases {children next : List (String × Node)} {key : String} {entry : Entry}
    (h : source.addEntry build depth children key entry = .ok next) :
    ((∀ keys : List String, keys ≠ [] → entry.path.drop depth ≠ keys.map Segment.key) ∧ next = children) ∨
      ∃ node keys, keys ≠ [] ∧ entry.path.drop depth = keys.map Segment.key ∧
        (if entry.isArrayRoot then build key entry else .ok (source.leaf key entry.values)) = .ok node ∧
        node.place? keys children = some next := by
  rw [addEntry] at h
  split at h
  · rename_i hnone
    refine .inl ⟨fun keys _ hkeys => ?_, (Except.ok.inj h).symm⟩
    rw [(Path.keys?_eq_some_iff _ keys).mpr hkeys] at hnone
    cases hnone
  · rename_i hnil
    refine .inl ⟨fun keys hne hkeys => ?_, (Except.ok.inj h).symm⟩
    rw [(Path.keys?_eq_some_iff _ keys).mpr hkeys] at hnil
    exact hne (Option.some.inj hnil)
  · rename_i keys hne hkeys
    rw [Path.keys?_eq_some_iff] at hkeys
    cases hroot : entry.isArrayRoot
    all_goals
      rw [hroot] at h
      obtain ⟨node, hnode, h⟩ := Outcome.bind_eq_ok_iff.mp h
      dsimp only at h
      split at h
      · rename_i placed hplaced
        cases h
        exact .inr ⟨node, keys, hne, hkeys, hnode, hplaced⟩
      · cases h

theorem mem_messages_addEntry {children next : List (String × Node)} {key : String} {entry : Entry}
    (h : source.addEntry build depth children key entry = .ok next) (message : Path × Node) :
    message ∈ Node.messagesOfChildren next ↔
      message ∈ Node.messagesOfChildren children ∨ source.Adds build depth (key, entry) message := by
  rcases addEntry_cases h with ⟨hkeys, rfl⟩ | ⟨node, keys, hne, hkeys, hnode, hplaced⟩
  · refine ⟨.inl, ?_⟩
    rintro (hmem | ⟨_, keys, _, hne, hpath, -⟩)
    · exact hmem
    · exact absurd hpath (hkeys keys hne)
  · rw [Node.mem_messages_place? hplaced]
    refine or_congr_right ⟨?_, ?_⟩
    · rintro ⟨below, hmem, hpath⟩
      exact ⟨node, keys, below, hne, hkeys, hnode, hmem, hpath⟩
    · rintro ⟨node', keys', below, -, hkeys', hnode', hmem, hpath⟩
      rw [hkeys] at hkeys'
      rw [hnode] at hnode'
      cases hnode'
      exact ⟨below, hmem, hkeys' ▸ hpath⟩

theorem mem_messages_foldlM {entries : Keyed Entry} {start children : List (String × Node)}
    (h : entries.foldlM (fun children pair => source.addEntry build depth children pair.1 pair.2) start =
      .ok children) (message : Path × Node) :
    message ∈ Node.messagesOfChildren children ↔
      message ∈ Node.messagesOfChildren start ∨ ∃ pair ∈ entries, source.Adds build depth pair message := by
  induction entries generalizing start with
  | nil =>
    cases h
    simp
  | cons pair rest ih =>
    rw [List.foldlM_cons, Outcome.bind_eq_ok_iff] at h
    obtain ⟨next, hnext, h⟩ := h
    rw [ih h, mem_messages_addEntry hnext, List.exists_mem_cons_iff, or_assoc]

theorem mem_messages_scope_iff {entries : Keyed Entry} {children : List (String × Node)}
    (h : source.scope build depth entries = .ok children) (message : Path × Node) :
    message ∈ Node.messagesOfChildren children ↔ ∃ pair ∈ entries, source.Adds build depth pair message := by
  rw [mem_messages_foldlM h]
  simp [Node.messagesOfChildren]

/-! ## Names of leaves -/

/-- A catalog with an entry for each element of each of its lists that is no object. -/
structure ListsElements (source : Source) : Prop where
  nodup : (Keyed.keys source.catalog.entries).Nodup
  element : ∀ {key entry locale items position value}, (key, entry) ∈ source.catalog.entries →
    (locale, .array items) ∈ entry.values → items[position]? = some value → value.isObject = false →
    ∃ entry', (elementPath key position, entry') ∈ source.catalog.entries ∧
      (value.isArray = true → entry'.isArrayRoot = true)

/-- The list that gives an array its shape: that of the default locale; where it has none, the first list of any
locale; and without any list no elements. -/
inductive Refers (source : Source) (entry : Entry) : List Json → Prop where
  | own {items : List Json} (value : entry.value? source.defaultLocale = some (.array items)) :
      Refers source entry items
  | first {items : List Json} {locale : String} {before after : Keyed Json}
      (other : ∀ items, entry.value? source.defaultLocale ≠ some (.array items))
      (values : entry.values = before ++ (locale, .array items) :: after)
      (earlier : ∀ pair ∈ before, pair.2.isArray = false) : Refers source entry items
  | none (other : ∀ items, entry.value? source.defaultLocale ≠ some (.array items))
      (values : ∀ pair ∈ entry.values, pair.2.isArray = false) : Refers source entry []

theorem refers_reference (source : Source) (entry : Entry) : source.Refers entry (source.reference entry) := by
  rw [reference]
  split
  · rename_i items heq
    obtain ⟨value, hvalue, hitems⟩ := Option.bind_eq_some_iff.mp heq
    rw [Json.items?_eq_some_iff.mp hitems] at hvalue
    exact .own hvalue
  · rename_i hnone
    have hother : ∀ items, entry.value? source.defaultLocale ≠ some (.array items) := by
      intro items hvalue
      rw [hvalue] at hnone
      cases hnone
    rw [Option.getD.eq_def]
    split
    · rename_i items hfind
      obtain ⟨before, ⟨locale, value⟩, after, hvalues, hitems, hearlier⟩ := List.findSome?_eq_some_iff.mp hfind
      rw [Json.items?_eq_some_iff.mp hitems] at hvalues
      exact .first hother hvalues fun pair hpair => Json.items?_eq_none_iff.mp (hearlier pair hpair)
    · rename_i hfind
      rw [List.findSome?_eq_none_iff] at hfind
      exact .none hother fun pair hpair => Json.items?_eq_none_iff.mp (hfind pair hpair)

theorem exists_value_of_reference {entry : Entry} {position : Nat} {value : Json}
    (h : (source.reference entry)[position]? = some value) :
    ∃ locale items, (locale, .array items) ∈ entry.values ∧ items[position]? = some value := by
  have hrefers := source.refers_reference entry
  generalize source.reference entry = list at h hrefers
  cases hrefers with
  | own hvalue => exact ⟨_, _, Keyed.mem_of_get? hvalue, h⟩
  | first _ hvalues _ => exact ⟨_, _, hvalues ▸ List.mem_append_right _ List.mem_cons_self, h⟩
  | none => cases h

namespace ListsElements

variable (h : source.ListsElements)
include h

/-- A list inside another one is built as an array, never as a leaf. -/
theorem element_array (build : String → Entry → Except Failure Node) {key : String} {entry : Entry}
    (hentry : (key, entry) ∈ source.catalog.entries) {items : List Json} {position : Nat}
    (hitem : (source.reference entry)[position]? = some (.array items)) :
    ∃ nested, (elementPath key position, nested) ∈ source.catalog.entries ∧ nested.isArrayRoot = true ∧
      source.element build key entry (.array items) position = build (elementPath key position) nested := by
  obtain ⟨locale, list, hvalue, hget⟩ := exists_value_of_reference hitem
  obtain ⟨nested, hnested, hroot⟩ := h.element hentry hvalue hget rfl
  have hfound : source.catalog.get? (elementPath key position) = some nested :=
    (Keyed.get?_eq_some_iff h.nodup _ _).mpr hnested
  refine ⟨nested, hnested, hroot rfl, ?_⟩
  rw [Source.element, hfound]
  exact if_pos (hroot rfl)

end ListsElements

end Source

end Phrasebook.Namespace
