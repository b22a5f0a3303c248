import Phrasebook.Proofs.Group.Closed
import Phrasebook.Proofs.Namespace.Existence

/-! # Arrays of a namespace

An array of the tree takes its shape from one list, that of the default locale or else the first there is. This
does not depend on what the other locales have at its path, a shorter list, a longer one or no list at all: each
element of that one list has an item of its kind, and a leaf among the items shows the element of every locale
whose list reaches so far.

Which entry an array is built for is read off the catalog: an entry outside arrays stands at its own path, a list
inside a list at the position in it, and a list inside an object of a list below that position, by the keys that
its path has beyond the length of the outer one. Each of these steps makes the displayed path longer, so that the
allowance of nested arrays is never used up and a namespace is refused for a conflict only.
-/

namespace Phrasebook.Namespace.Source

open Message

def isLonger (position : Nat) : Json → Bool
  | .array items => position < items.length
  | _ => false

/-- The values of one element: exactly the locales with a list that is longer than its position have their element
there, in the order of the values. -/
structure ShowsElement (values : Keyed Json) (position : Nat) (samples : Keyed Json) : Prop where
  locales : Keyed.keys samples = Keyed.keys (values.filter fun (_, value) => isLonger position value)
  element : ∀ {locale element}, (locale, element) ∈ samples →
    ∃ items, (locale, .array items) ∈ values ∧ items[position]? = some element

/-- The item that an element of the shaping list asks for. -/
inductive ItemFor (source : Source) (key : String) (entry : Entry) (position : Nat) : Json → Node → Prop where
  | branch (members : List (String × Json)) (children : List (String × Node)) :
      ItemFor source key entry position (.object members) (.branch children)
  | array (elements : List Json) (items : List Node) (samples : Keyed Json) :
      ItemFor source key entry position (.array elements) (.array items samples)
  | leaf {value : Json} {samples : Keyed Json} (array : value.isArray = false) (object : value.isObject = false)
      (shows : ShowsElement entry.values position samples) :
      ItemFor source key entry position value
        (.leaf (Identifier.ofPath (elementPath key position) source.group) samples)

/-- Items that follow a list element by element. -/
structure Shaped (source : Source) (key : String) (entry : Entry) (list : List Json) (items : List Node) : Prop where
  length : items.length = list.length
  item : ∀ {position value}, list[position]? = some value →
    ∃ item, items[position]? = some item ∧ source.ItemFor key entry position value item

/-- The array of an entry, shaped by the one list that the entry refers to. -/
def IsArrayOf (source : Source) (key : String) (entry : Entry) (node : Node) : Prop :=
  ∃ list items, source.Refers entry list ∧ node = .array items entry.values ∧ source.Shaped key entry list items

/-- The places of the arrays of a catalog. -/
inductive Stands (source : Source) : Path → String → Entry → Prop where
  | top {key : String} {entry : Entry} {keys : List String} (mem : (key, entry) ∈ source.topEntries)
      (root : entry.isArrayRoot = true) (some : keys ≠ []) (path : entry.path = keys.map Segment.key) :
      Stands source entry.path key entry
  | nested {place : Path} {key : String} {entry nested : Entry} {position : Nat} {elements : List Json}
      (outer : Stands source place key entry)
      (element : (source.reference entry)[position]? = some (.array elements))
      (mem : (elementPath key position, nested) ∈ source.catalog.entries) (root : nested.isArrayRoot = true) :
      Stands source (place ++ [.index position]) (elementPath key position) nested
  | inside {place : Path} {key key' : String} {entry entry' : Entry} {position : Nat}
      {members : List (String × Json)} {keys : List String} (outer : Stands source place key entry)
      (element : (source.reference entry)[position]? = some (.object members))
      (mem : (key', entry') ∈ source.elementEntries ⟨key, position⟩) (root : entry'.isArrayRoot = true)
      (some : keys ≠ []) (path : entry'.path.drop (entry.path.length + 1) = keys.map Segment.key) :
      Stands source (place ++ .index position :: keys.map Segment.key) key' entry'

variable {source : Source}

theorem Stands.mem_entries {place : Path} {key : String} {entry : Entry} (h : source.Stands place key entry) :
    (key, entry) ∈ source.catalog.entries := by
  cases h with
  | top mem => exact (List.mem_filter.mp mem).1
  | nested _ _ mem => exact mem
  | inside _ _ mem => exact (List.mem_filter.mp mem).1

/-! ## Items of one array -/

theorem keys_elementSamples (entry : Entry) (position : Nat) :
    Keyed.keys (elementSamples entry position) =
      Keyed.keys (entry.values.filter fun (_, value) => isLonger position value) := by
  rw [elementSamples]
  induction entry.values with
  | nil => rfl
  | cons pair rest ih =>
    obtain ⟨locale, value⟩ := pair
    cases value with
    | array items =>
      by_cases hlt : position < items.length
      · simpa [isLonger, Json.items?, hlt, Keyed.keys] using ih
      · simpa [isLonger, Json.items?, hlt, Keyed.keys] using ih
    | _ => simpa [isLonger, Json.items?, Keyed.keys] using ih

theorem showsElement_elementSamples (entry : Entry) (position : Nat) :
    ShowsElement entry.values position (elementSamples entry position) := by
  refine ⟨keys_elementSamples entry position, fun {locale element} hmem => ?_⟩
  obtain ⟨⟨other, value⟩, hvalue, h⟩ := List.mem_filterMap.mp hmem
  obtain ⟨items, hitems, h⟩ := Option.bind_eq_some_iff.mp h
  obtain ⟨found, hfound, h⟩ := Option.bind_eq_some_iff.mp h
  cases h
  rw [Json.items?_eq_some_iff] at hitems
  exact ⟨items, hitems ▸ hvalue, hfound⟩

/-- A built array has an item for each element of the list that shapes it. -/
theorem array_cases {allowance : Nat} {key : String} {entry : Entry} {node : Node}
    (h : source.array (allowance + 1) key entry = .ok node) :
    ∃ items, node = .array items entry.values ∧ items.length = (source.reference entry).length ∧
      ∀ {position value}, (source.reference entry)[position]? = some value →
        ∃ item, items[position]? = some item ∧
          source.element (source.array allowance) key entry value position = .ok item := by
  rw [array] at h
  obtain ⟨items, hitems, h⟩ := Outcome.bind_eq_ok_iff.mp h
  cases h
  have hall := Outcome.mapM_eq_ok_iff.mp hitems
  have hlength : items.length = (source.reference entry).length := by
    rw [← hall.length_eq, List.length_zipIdx]
  refine ⟨items, rfl, hlength, fun {position value} hvalue => ?_⟩
  obtain ⟨item, hitem⟩ : ∃ item, items[position]? = some item := by
    have hlt := (List.getElem?_eq_some_iff.mp hvalue).1
    exact ⟨_, List.getElem?_eq_getElem (hlength ▸ hlt)⟩
  obtain ⟨value', hvalue', helement⟩ := getElem?_of_forall₂_zipIdx hall hitem
  rw [hvalue] at hvalue'
  cases hvalue'
  exact ⟨item, hitem, helement⟩

theorem exists_element_of_array {allowance : Nat} {key : String} {entry : Entry} {node : Node}
    (h : source.array allowance key entry = .ok node) {position : Nat} {value : Json}
    (hvalue : (source.reference entry)[position]? = some value) :
    ∃ inner item, source.element (source.array inner) key entry value position = .ok item ∧
      ∀ message ∈ item.messages, (.index position :: message.1, message.2) ∈ node.messages := by
  cases allowance with
  | zero => cases h
  | succ allowance =>
    obtain ⟨items, rfl, -, hitems⟩ := array_cases h
    obtain ⟨item, hitem, helement⟩ := hitems hvalue
    refine ⟨allowance, item, helement, fun message hmessage => ?_⟩
    rw [Node.messages, List.mem_cons, Node.mem_messagesOfItems_iff]
    exact .inr ⟨position, item, message.1, hitem, hmessage, by rw [Nat.zero_add]⟩

namespace ListsElements

variable (h : source.ListsElements)
include h

/-- An object becomes the branch of its messages, a list the array of its own entry, and anything else a leaf. -/
theorem element_cases {build : String → Entry → Except Failure Node} {key : String} {entry : Entry}
    (hentry : (key, entry) ∈ source.catalog.entries) {position : Nat} {value : Json}
    (hvalue : (source.reference entry)[position]? = some value) {item : Node}
    (hitem : source.element build key entry value position = .ok item) :
    (∃ members children, value = .object members ∧ item = .branch children ∧
        source.scope build (entry.path.length + 1) (source.elementEntries ⟨key, position⟩) = .ok children) ∨
      (∃ elements nested, value = .array elements ∧ (elementPath key position, nested) ∈ source.catalog.entries ∧
        nested.isArrayRoot = true ∧ build (elementPath key position) nested = .ok item) ∨
      value.isArray = false ∧ value.isObject = false ∧
        item = source.leaf (elementPath key position) (elementSamples entry position) := by
  cases value with
  | object members =>
    obtain ⟨children, hscope, hitem⟩ := Outcome.bind_eq_ok_iff.mp hitem
    cases hitem
    exact .inl ⟨members, children, rfl, rfl, hscope⟩
  | array elements =>
    obtain ⟨nested, hnested, hroot, heq⟩ := h.element_array build hentry hvalue
    exact .inr (.inl ⟨elements, nested, rfl, hnested, hroot, heq ▸ hitem⟩)
  | _ =>
    cases hitem
    exact .inr (.inr ⟨rfl, rfl, rfl⟩)

theorem isArrayOf_array {allowance : Nat} {key : String} {entry : Entry}
    (hentry : (key, entry) ∈ source.catalog.entries) {node : Node}
    (hnode : source.array allowance key entry = .ok node) : source.IsArrayOf key entry node := by
  cases allowance with
  | zero => cases hnode
  | succ allowance =>
    obtain ⟨items, rfl, hlength, hitems⟩ := array_cases hnode
    refine ⟨_, items, source.refers_reference entry, rfl, hlength, fun {position value} hvalue => ?_⟩
    obtain ⟨item, hitem, helement⟩ := hitems hvalue
    refine ⟨item, hitem, ?_⟩
    rcases h.element_cases hentry hvalue helement with ⟨members, children, rfl, rfl, -⟩ |
      ⟨elements, nested, rfl, -, -, harray⟩ | ⟨harray, hobject, rfl⟩
    · exact .branch members children
    · cases allowance with
      | zero => cases harray
      | succ allowance =>
        obtain ⟨inner, rfl, -⟩ := array_cases harray
        exact .array elements inner nested.values
    · exact .leaf harray hobject (showsElement_elementSamples entry position)

end ListsElements

/-! ## Arrays and their places -/

variable {build : String → Entry → Except Failure Node} {depth : Nat}

theorem exists_node_of_scope {entries : Keyed Entry} {children : List (String × Node)}
    (h : source.scope build depth entries = .ok children) {key : String} {entry : Entry}
    (hentry : (key, entry) ∈ entries) (hroot : entry.isArrayRoot = true) {keys : List String} (hne : keys ≠ [])
    (hkeys : entry.path.drop depth = keys.map Segment.key) :
    ∃ node, build key entry = .ok node ∧ ∀ message ∈ node.messages,
      (keys.map Segment.key ++ message.1, message.2) ∈ Node.messagesOfChildren children := by
  obtain ⟨state, next, hstep⟩ := Outcome.exists_step_of_foldlM h hentry
  rcases addEntry_cases hstep with ⟨hnone, -⟩ | ⟨node, keys', -, -, hnode, -⟩
  · exact absurd hkeys (hnone keys hne)
  · have hbuilt : build key entry = .ok node := by rwa [if_pos hroot] at hnode
    refine ⟨node, hbuilt, fun message hmessage => (mem_messages_scope_iff h _).mpr ?_⟩
    exact ⟨(key, entry), hentry, node, keys, message.1, hne, hkeys, hnode, hmessage, rfl⟩

/-- An array that an entry adds to the children of a branch is inside the array of an array root. -/
theorem exists_array_of_adds {pair : String × Entry} {path : Path} {items : List Node} {samples : Keyed Json}
    (h : source.Adds build depth pair (path, .array items samples)) :
    ∃ node keys below, keys ≠ [] ∧ pair.2.path.drop depth = keys.map Segment.key ∧ pair.2.isArrayRoot = true ∧
      build pair.1 pair.2 = .ok node ∧ (below, .array items samples) ∈ node.messages ∧
      path = keys.map Segment.key ++ below := by
  obtain ⟨node, keys, below, hne, hkeys, hnode, hmem, hpath⟩ := h
  cases hroot : pair.2.isArrayRoot with
  | true =>
    rw [hroot, if_pos rfl] at hnode
    exact ⟨node, keys, below, hne, hkeys, rfl, hnode, hmem, hpath⟩
  | false =>
    rw [hroot, if_neg Bool.false_ne_true] at hnode
    cases hnode
    cases List.mem_singleton.mp hmem

namespace ListsElements

variable (h : source.ListsElements)
include h

/-- An array inside the array of an entry is that of an entry, which stands at the array's place. -/
theorem stands_of_mem_array (allowance : Nat) {place : Path} {key : String} {entry : Entry}
    (hstands : source.Stands place key entry) {node : Node} (hnode : source.array allowance key entry = .ok node)
    {path : Path} {items : List Node} {samples : Keyed Json} (hmem : (path, .array items samples) ∈ node.messages) :
    ∃ key' entry', source.Stands (place ++ path) key' entry' ∧
      source.IsArrayOf key' entry' (.array items samples) := by
  induction allowance generalizing place key entry node path with
  | zero => cases hnode
  | succ allowance ih =>
    obtain ⟨nodes, rfl, hlength, hnodes⟩ := array_cases hnode
    rw [Node.messages, List.mem_cons, Node.mem_messagesOfItems_iff] at hmem
    rcases hmem with heq | ⟨position, item, below, hitem, hmem, hpath⟩
    · cases heq
      rw [List.append_nil]
      exact ⟨key, entry, hstands, h.isArrayOf_array hstands.mem_entries hnode⟩
    · obtain ⟨value, hvalue⟩ : ∃ value, (source.reference entry)[position]? = some value := by
        have hlt := (List.getElem?_eq_some_iff.mp hitem).1
        exact ⟨_, List.getElem?_eq_getElem (hlength ▸ hlt)⟩
      obtain ⟨item', hitem', helement⟩ := hnodes hvalue
      rw [hitem] at hitem'
      cases hitem'
      rw [Nat.zero_add] at hpath
      dsimp only at hpath hmem
      rcases h.element_cases hstands.mem_entries hvalue helement with ⟨members, children, rfl, rfl, hscope⟩ |
        ⟨elements, nested, rfl, hnested, hroot, hbuilt⟩ | ⟨-, -, rfl⟩
      · obtain ⟨⟨key', entry'⟩, hentry', hadds⟩ := (mem_messages_scope_iff hscope _).mp hmem
        obtain ⟨node', keys, rest, hne, hkeys, hroot, hbuilt, hinside, rfl⟩ := exists_array_of_adds hadds
        have := ih (.inside hstands hvalue hentry' hroot hne hkeys) hbuilt hinside
        rw [hpath]
        simpa using this
      · have := ih (.nested hstands hvalue hnested hroot) hbuilt hmem
        rw [hpath]
        simpa using this
      · cases List.mem_singleton.mp hmem

theorem exists_node_of_stands {allowance : Nat} {children : List (String × Node)}
    (hscope : source.scope (source.array allowance) 0 source.topEntries = .ok children) {place : Path}
    {key : String} {entry : Entry} (hstands : source.Stands place key entry) :
    ∃ allowance node, source.array allowance key entry = .ok node ∧ ∀ message ∈ node.messages,
      (place ++ message.1, message.2) ∈ Node.messagesOfChildren children := by
  induction hstands with
  | top mem root some path =>
    obtain ⟨node, hnode, hmessages⟩ := exists_node_of_scope hscope mem root some path
    exact ⟨allowance, node, hnode, fun message hmessage => path ▸ hmessages message hmessage⟩
  | @nested place key entry nested position elements outer element mem root ih =>
    obtain ⟨_, node, hnode, hmessages⟩ := ih
    obtain ⟨allowance, item, helement, hitem⟩ := exists_element_of_array hnode element
    obtain ⟨nested', hnested', -, heq⟩ := h.element_array (source.array allowance) outer.mem_entries element
    cases Keyed.eq_of_mem h.nodup mem hnested'
    refine ⟨allowance, item, heq ▸ helement, fun message hmessage => ?_⟩
    simpa using hmessages _ (hitem message hmessage)
  | @inside place key key' entry entry' position members keys outer element mem root some path ih =>
    obtain ⟨_, node, hnode, hmessages⟩ := ih
    obtain ⟨allowance, item, helement, hitem⟩ := exists_element_of_array hnode element
    obtain ⟨inner, hinside, heq⟩ := Outcome.bind_eq_ok_iff.mp helement
    cases heq
    obtain ⟨node', hnode', hbelow⟩ := exists_node_of_scope hinside mem root some path
    refine ⟨allowance, node', hnode', fun message hmessage => ?_⟩
    simpa using hmessages _ (hitem _ (hbelow message hmessage))

/-- The arrays of a tree are those of the entries that stand in it, each shaped by one list of its entry. -/
theorem arrays_build {root : Node} (hroot : source.build = .ok root) :
    (∀ place items samples, (place, .array items samples) ∈ root.messages →
      ∃ key entry, source.Stands place key entry ∧ source.IsArrayOf key entry (.array items samples)) ∧
    ∀ place key entry, source.Stands place key entry →
      ∃ node, (place, node) ∈ root.messages ∧ source.IsArrayOf key entry node := by
  obtain ⟨children, hscope, hroot⟩ := Outcome.bind_eq_ok_iff.mp hroot
  cases hroot
  constructor
  · intro place items samples hmem
    obtain ⟨⟨key, entry⟩, hentry, hadds⟩ := (mem_messages_scope_iff hscope _).mp hmem
    obtain ⟨node, keys, below, hne, hkeys, hroot, hbuilt, hinside, rfl⟩ := exists_array_of_adds hadds
    rw [← hkeys]
    exact h.stands_of_mem_array _ (.top hentry hroot hne hkeys) hbuilt hinside
  · intro place key entry hstands
    obtain ⟨allowance, node, hnode, hmessages⟩ := h.exists_node_of_stands hscope hstands
    obtain ⟨list, items, hrefers, rfl, hshaped⟩ := h.isArrayOf_array hstands.mem_entries hnode
    have hmem := hmessages ([], _) List.mem_cons_self
    rw [List.append_nil] at hmem
    exact ⟨_, hmem, list, items, hrefers, rfl, hshaped⟩

end ListsElements

/-! ## The allowance of nested arrays -/

/-- A catalog in which what stands in an element of a list has a displayed path that is longer than the list's by
two brackets and the digits between them. -/
structure Lengthens (source : Source) : Prop where
  le : ∀ {key entry ref}, (key, entry) ∈ source.catalog.entries → entry.item = some ref →
    ref.arrayPath.length + 3 ≤ key.length

theorem addEntry_eq_unfinished {children : List (String × Node)} {key : String} {entry : Entry}
    (h : source.addEntry build depth children key entry = .error .unfinished) :
    build key entry = .error .unfinished := by
  rw [addEntry] at h
  split at h
  · cases h
  · cases h
  · cases hroot : entry.isArrayRoot
    all_goals
      rw [hroot] at h
      rcases Outcome.bind_eq_error_iff.mp h with hnode | ⟨node, -, hplace⟩
      · first | exact hnode | cases hnode
      · dsimp only at hplace
        split at hplace <;> cases hplace

theorem exists_of_scope_unfinished {entries : Keyed Entry} (h : source.scope build depth entries = .error .unfinished) :
    ∃ pair ∈ entries, build pair.1 pair.2 = .error .unfinished := by
  obtain ⟨pair, hpair, state, hstep⟩ := Outcome.exists_step_of_foldlM_eq_error h
  exact ⟨pair, hpair, addEntry_eq_unfinished hstep⟩

namespace Lengthens

variable (h : source.Lengthens)
include h

theorem exists_of_element_unfinished {key : String} {entry : Entry} {value : Json} {position : Nat}
    (helement : source.element build key entry value position = .error .unfinished) :
    ∃ key' entry', (key', entry') ∈ source.catalog.entries ∧ key.length < key'.length ∧
      build key' entry' = .error .unfinished := by
  cases value with
  | object members =>
    rcases Outcome.bind_eq_error_iff.mp helement with hscope | ⟨children, -, hbranch⟩
    · obtain ⟨⟨key', entry'⟩, hpair, hbuild⟩ := exists_of_scope_unfinished hscope
      rw [elementEntries, List.mem_filter, decide_eq_true_eq] at hpair
      have hlonger : key.length + 3 ≤ key'.length := h.le hpair.1 hpair.2
      exact ⟨key', entry', hpair.1, by omega, hbuild⟩
    · cases hbranch
  | array elements =>
    rw [element] at helement
    cases hget : source.catalog.get? (elementPath key position) with
    | none =>
      rw [hget] at helement
      cases helement
    | some nested =>
      rw [hget] at helement
      dsimp only at helement
      split at helement
      · exact ⟨_, nested, Keyed.mem_of_get? hget, length_lt_elementPath key position, helement⟩
      · cases helement
  | _ => cases helement

theorem array_ne_unfinished (allowance : Nat) {key : String} {entry : Entry}
    (hentry : (key, entry) ∈ source.catalog.entries) (hallowance : source.longestPath < allowance + key.length) :
    source.array allowance key entry ≠ .error .unfinished := by
  induction allowance generalizing key entry with
  | zero =>
    have := length_le_longestPath hentry
    omega
  | succ allowance ih =>
    intro harray
    rw [array] at harray
    rcases Outcome.bind_eq_error_iff.mp harray with hitems | ⟨items, -, harray⟩
    · obtain ⟨⟨value, position⟩, -, helement⟩ := Outcome.exists_of_mapM_eq_error hitems
      obtain ⟨key', entry', hentry', hlonger, hbuild⟩ := h.exists_of_element_unfinished helement
      exact ih hentry' (by omega) hbuild
    · cases harray

/-- The allowance is never used up: displayed paths grow with every array. -/
theorem build_ne_unfinished : source.build ≠ .error .unfinished := by
  intro hbuild
  rcases Outcome.bind_eq_error_iff.mp hbuild with hscope | ⟨children, -, hbranch⟩
  · obtain ⟨⟨key, entry⟩, hpair, harray⟩ := exists_of_scope_unfinished hscope
    exact h.array_ne_unfinished _ (List.mem_filter.mp hpair).1 (by omega) harray
  · cases hbranch

end Lengthens

end Phrasebook.Namespace.Source

namespace Phrasebook.Message

def Flattened (records : List (String × List Record)) : Prop :=
  ∀ list ∈ records, ∀ record ∈ list.2, ∃ document, record ∈ Record.ofDocument document

/-- What the records of documents say of their places holds whatever the keys spell and whichever locale the place
of an entry comes from. -/
theorem Flattened.lengthens {records : List (String × List Record)} (h : Flattened records)
    (group defaultLocale : String) : Namespace.Source.Lengthens ⟨.gather records, group, defaultLocale⟩ := by
  refine ⟨fun {key entry ref} hentry hitem => ?_⟩
  obtain ⟨⟨locale, record⟩, rest, hfilter, rfl⟩ := (Catalog.mem_gather_iff _ _ _).mp hentry
  have hfirst : (locale, record) ∈ (contributions records).filter fun c => c.2.key = key :=
    hfilter ▸ List.mem_cons_self
  obtain ⟨hfirst, hkey⟩ := List.mem_filter.mp hfirst
  obtain ⟨list, hlist, hrecord⟩ := mem_contributions.mp hfirst
  obtain ⟨document, hdocument⟩ := h _ hlist record hrecord
  obtain ⟨path, value, -, -, rfl⟩ := (Record.mem_ofDocument_iff _ _).mp hdocument
  have hkey : path.display = key := of_decide_eq_true hkey
  obtain ⟨front, keys, rfl, hfront⟩ := (Path.item?_eq_some_iff path _).mp hitem
  rw [← hkey, hfront]
  exact Path.display_length_add_le front _ _

end Phrasebook.Message

namespace Phrasebook.Group

open Message Namespace

theorem flattened_recordsOf (documents : List (String × Json)) : Flattened (recordsOf documents) := by
  intro list hlist record hrecord
  obtain ⟨document, -, rfl⟩ := List.mem_map.mp hlist
  exact ⟨document.2, hrecord⟩

theorem exists_conflict_of_buildNamespace {documents : List (String × Json)} {analysis : Analysis}
    (hanalysis : analyze documents = .ok analysis) {group defaultLocale : String} {problem : Problem}
    (h : buildNamespace group defaultLocale analysis.catalog = .error problem) :
    ∃ path, problem = .namespaceConflict path := by
  obtain ⟨-, rfl⟩ := (analyze_eq_ok_iff _ _).mp hanalysis
  obtain ⟨cause, hbuild, rfl⟩ := Outcome.mapError_eq_error_iff.mp h
  cases cause with
  | conflict path => exact ⟨path, rfl⟩
  | unfinished =>
    exact absurd hbuild ((flattened_recordsOf documents).lengthens group defaultLocale).build_ne_unfinished

/-- The arrays of a namespace are those of the messages that stand in it, each with an item for each element of one
list, whatever the other locales have. -/
theorem arrays_buildNamespace {documents : List (String × Json)}
    (hobjects : ∀ document ∈ documents, document.2.isObject = true) {analysis : Analysis}
    (hanalysis : analyze documents = .ok analysis) {group defaultLocale : String} {root : Node}
    (hroot : buildNamespace group defaultLocale analysis.catalog = .ok root) :
    (∀ place items samples, (place, .array items samples) ∈ root.messages →
      ∃ key entry, Source.Stands ⟨analysis.catalog, group, defaultLocale⟩ place key entry ∧
        Source.IsArrayOf ⟨analysis.catalog, group, defaultLocale⟩ key entry (.array items samples)) ∧
    ∀ place key entry, Source.Stands ⟨analysis.catalog, group, defaultLocale⟩ place key entry →
      ∃ node, (place, node) ∈ root.messages ∧
        Source.IsArrayOf ⟨analysis.catalog, group, defaultLocale⟩ key entry node := by
  obtain ⟨-, rfl⟩ := (analyze_eq_ok_iff _ _).mp hanalysis
  exact (listsElements_gather hobjects group defaultLocale).arrays_build (Outcome.mapError_eq_ok_iff.mp hroot)

/-- Documents of which the first has no list, and the others disagree about its elements. -/
def unevenDocuments : List (String × Json) :=
  [ ("en", .object [("l", .string "x")]),
    ("es", .object [("l", .array [.string "a", .array [.string "b"], .object [("c", .array [.null])]])]),
    ("fr", .object [("l", .array [.array [.string "d"], .string "e"])]) ]

/-- The shape is that of the second document, also where the third has other elements. -/
theorem arrays_buildNamespace_uneven :
    ∃ analysis root,
      (∀ document ∈ unevenDocuments, document.2.isObject = true) ∧ analyze unevenDocuments = .ok analysis ∧
      buildNamespace "shop" "en" analysis.catalog = .ok root ∧
      (∀ place items samples, (place, .array items samples) ∈ root.messages →
        ∃ key entry, Source.Stands ⟨analysis.catalog, "shop", "en"⟩ place key entry ∧
          Source.IsArrayOf ⟨analysis.catalog, "shop", "en"⟩ key entry (.array items samples)) ∧
      ∀ place key entry, Source.Stands ⟨analysis.catalog, "shop", "en"⟩ place key entry →
        ∃ node, (place, node) ∈ root.messages ∧
          Source.IsArrayOf ⟨analysis.catalog, "shop", "en"⟩ key entry node := by
  have hobjects : ∀ document ∈ unevenDocuments, document.2.isObject = true := by decide
  have hanalysis := (analyze_eq_ok_iff unevenDocuments _).mpr ⟨by decide, rfl⟩
  obtain ⟨root, hroot⟩ : ∃ root,
      buildNamespace "shop" "en" (.gather (recordsOf unevenDocuments)) = .ok root :=
    Outcome.exists_eq_ok_of_toOption (by decide +kernel)
  exact ⟨_, root, hobjects, hanalysis, hroot, arrays_buildNamespace hobjects hanalysis hroot⟩

end Phrasebook.Group
