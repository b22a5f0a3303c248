import Phrasebook.Proofs.Namespace.Mirror

/-! # Catalogs without namespace conflicts

When all entries of a catalog stand at values of one document that are no objects, no message finds its place
taken or on the way through another one: below one path, the keys that lead to such values are never the
beginning of one another. A complete catalog has this form whatever its keys spell, because the first document
has a record for every entry. The lists may still take their shape from another document.
-/

namespace Phrasebook.Namespace.Source

open Message
open Json (Reaches)

/-- A catalog whose entries stand at values of one document that are no objects, each told apart by its
displayed path. -/
structure RestsOn (source : Source) (document : Json) : Prop where
  object : document.isObject = true
  tidy : document.Tidy
  nodup : (Keyed.keys source.catalog.entries).Nodup
  value : ∀ {key entry}, (key, entry) ∈ source.catalog.entries →
    ∃ value, Reaches document entry.path value ∧ value.isObject = false
  display : ∀ {key entry}, (key, entry) ∈ source.catalog.entries → key = entry.path.display
  item : ∀ {key entry}, (key, entry) ∈ source.catalog.entries → entry.item = entry.path.item?
  distinct : ∀ {path path' value value'}, Reaches document path value → value.isObject = false →
    Reaches document path' value' → value'.isObject = false → path.display = path'.display → path = path'

def Within (source : Source) (path : Path) (pair : String × Entry) : Prop :=
  pair ∈ source.catalog.entries ∧ ∃ keys : List String, pair.2.path = path ++ keys.map Segment.key

/-- The children of a branch below a path lead to messages only, each at or below an entry that was added. -/
structure Spread (path : Path) (added : Keyed Entry) (children : List (String × Node)) : Prop where
  rooted : ∀ child ∈ children, Node.Rooted child.2
  origin : ∀ message ∈ Node.messagesOfChildren children, ∃ pair ∈ added, pair.2.path <+: path ++ message.1

variable {source : Source} {document : Json}

theorem length_add_le_elementPath (key : String) (position : Nat) :
    key.length + 3 ≤ (elementPath key position).length := by
  have hbrackets : "[".length = 1 ∧ "]".length = 1 := ⟨rfl, rfl⟩
  have hdigits : 0 < (toString position).length := by
    rw [← String.length_toList, Nat.toString_eq_ofList_toDigits, String.toList_ofList]
    exact Nat.length_toDigits_pos
  simp only [elementPath, String.length_append]
  omega

theorem length_lt_elementPath (key : String) (position : Nat) : key.length < (elementPath key position).length := by
  have := length_add_le_elementPath key position
  omega

theorem spread_nil (path : Path) : Spread path [] [] :=
  ⟨by simp, by simp [Node.messagesOfChildren]⟩

theorem Spread.skip {path : Path} {added : Keyed Entry} {children : List (String × Node)}
    (h : Spread path added children) (pair : String × Entry) : Spread path (added ++ [pair]) children := by
  refine ⟨h.rooted, fun message hmessage => ?_⟩
  obtain ⟨first, hfirst, horigin⟩ := h.origin message hmessage
  exact ⟨first, List.mem_append_left _ hfirst, horigin⟩

namespace RestsOn

variable (h : source.RestsOn document)
include h

/-- No entry stands on the way to another one. -/
theorem key_eq_of_front {path : Path} {first second : String × Entry} {keys keys' : List String}
    (hfirst : first ∈ source.catalog.entries) (hsecond : second ∈ source.catalog.entries)
    (hpath : first.2.path = path ++ keys.map Segment.key)
    (hpath' : second.2.path = path ++ keys'.map Segment.key)
    (hfront : keys.map Segment.key <+: keys'.map Segment.key) : first.1 = second.1 := by
  obtain ⟨value, hreach, hobject⟩ := h.value hfirst
  obtain ⟨value', hreach', -⟩ := h.value hsecond
  rw [hpath] at hreach
  rw [hpath'] at hreach'
  have hsame := h.tidy.keys_eq_of_front hreach hobject hreach' hfront
  rw [h.display hfirst, h.display hsecond, hpath, hpath', hsame]

/-- An entry with further keys finds its place beside the entries already added. -/
theorem exists_place {path : Path} {added : Keyed Entry} {children : List (String × Node)}
    (hspread : Spread path added children) (hadded : ∀ pair ∈ added, source.Within path pair)
    {key : String} {entry : Entry} (hentry : (key, entry) ∈ source.catalog.entries)
    (hnew : key ∉ added.keys) {keys : List String} (hkeys : keys ≠ [])
    (hpath : entry.path = path ++ keys.map Segment.key) {node : Node} (hrooted : node.Rooted) :
    ∃ placed, node.place? keys children = some placed ∧ Spread path (added ++ [(key, entry)]) placed := by
  have hfree : ∀ message ∈ Node.messagesOfChildren children,
      ¬ message.1 <+: keys.map Segment.key ∧ ¬ keys.map Segment.key <+: message.1 := by
    intro message hmessage
    obtain ⟨pair, hpair, horigin⟩ := hspread.origin message hmessage
    obtain ⟨hin, names, hnames⟩ := hadded pair hpair
    have hne : pair.1 ≠ key := by
      rintro rfl
      exact hnew (List.mem_map_of_mem (f := (·.1)) hpair)
    rw [hnames, List.prefix_append_right_inj] at horigin
    constructor
    · intro hfront
      exact hne (h.key_eq_of_front hin hentry hnames hpath (horigin.trans hfront))
    · intro hfront
      rcases List.prefix_or_prefix_of_prefix horigin hfront with hle | hle
      · exact hne (h.key_eq_of_front hin hentry hnames hpath hle)
      · exact hne (h.key_eq_of_front hentry hin hpath hnames hle).symm
  obtain ⟨placed, hplaced⟩ := Node.place?_isSome hkeys hspread.rooted hfree
  refine ⟨placed, hplaced, (hrooted.place? hspread.rooted hplaced).2, fun message hmessage => ?_⟩
  rcases (Node.mem_messages_place? hplaced message).mp hmessage with hold | ⟨below, -, heq⟩
  · exact (hspread.skip _).origin message hold
  · refine ⟨(key, entry), List.mem_append_right _ List.mem_cons_self, below, ?_⟩
    rw [heq, hpath, List.append_assoc]

theorem exists_addEntry {build : String → Entry → Except Failure Node} {path : Path} {added : Keyed Entry}
    {children : List (String × Node)} (hspread : Spread path added children)
    (hadded : ∀ pair ∈ added, source.Within path pair) {key : String} {entry : Entry}
    (hentry : source.Within path (key, entry)) (hnew : key ∉ added.keys)
    (hbuild : entry.isArrayRoot = true → ∃ node, build key entry = .ok node ∧ node.Rooted) :
    ∃ next, source.addEntry build path.length children key entry = .ok next ∧
      Spread path (added ++ [(key, entry)]) next := by
  obtain ⟨hmem, keys, hpath⟩ := hentry
  by_cases hkeys : keys = []
  · -- an element that is no object stands at the path itself and is not placed below it
    subst hkeys
    refine ⟨children, ?_, hspread.skip _⟩
    rw [addEntry, hpath, List.map_nil, List.append_nil, List.drop_length]
    rfl
  · obtain ⟨node, hnode, hrooted⟩ : ∃ node,
        (if entry.isArrayRoot then build key entry else pure (source.leaf key entry.values)) = .ok node ∧
          node.Rooted := by
      split
      · rename_i hroot
        exact hbuild hroot
      · exact ⟨_, rfl, .leaf _ _⟩
    obtain ⟨placed, hplaced, hnext⟩ := h.exists_place hspread hadded hmem hnew hkeys hpath hrooted
    exact ⟨placed, addEntry_eq_ok hkeys hpath hnode hplaced, hnext⟩

theorem exists_scope (build : String → Entry → Except Failure Node) {path : Path} {entries : Keyed Entry}
    (hentries : ∀ pair ∈ entries, source.Within path pair) (hnodup : entries.keys.Nodup)
    (hbuild : ∀ pair ∈ entries, pair.2.isArrayRoot = true →
      ∃ node, build pair.1 pair.2 = .ok node ∧ node.Rooted) :
    ∃ children, source.scope build path.length entries = .ok children := by
  obtain ⟨children, hchildren, -⟩ := exists_scope_of_step (spread_nil path) hnodup
    fun added key entry children hsubset hmem hnew hspread =>
      h.exists_addEntry hspread (fun pair hpair => hentries pair (hsubset hpair)) (hentries _ hmem) hnew
        (hbuild _ hmem)
  exact ⟨children, hchildren⟩

theorem within_of_mem_topEntries {pair : String × Entry} (hpair : pair ∈ source.topEntries) :
    source.Within [] pair := by
  obtain ⟨key, entry⟩ := pair
  rw [topEntries, List.mem_filter, Option.isNone_iff_eq_none] at hpair
  obtain ⟨hentry, hnone⟩ := hpair
  rw [h.item hentry, Path.item?_eq_none_iff] at hnone
  obtain ⟨keys, hkeys⟩ := hnone
  exact ⟨hentry, keys, hkeys⟩

/-- The messages of one element of a list stand below it in the document, even where the shape of the list
is another document's. -/
theorem within_of_mem_elementEntries {key : String} {entry : Entry}
    (hentry : (key, entry) ∈ source.catalog.entries) {position : Nat} {pair : String × Entry}
    (hpair : pair ∈ source.elementEntries ⟨key, position⟩) :
    source.Within (entry.path.element position) pair := by
  obtain ⟨key', entry'⟩ := pair
  rw [elementEntries, List.mem_filter, decide_eq_true_eq] at hpair
  obtain ⟨hentry', hitem⟩ := hpair
  rw [h.item hentry', Path.item?_eq_some_iff] at hitem
  obtain ⟨front, keys, hpath, hdisplay⟩ := hitem
  obtain ⟨value, hreach, -⟩ := h.value hentry'
  rw [hpath] at hreach
  obtain ⟨list, hlist, hrest⟩ := hreach.split
  have hplain : list.isObject = false := by
    cases hrest
    rfl
  obtain ⟨_, hown, hobject⟩ := h.value hentry
  have hfront := h.distinct hlist hplain hown hobject (hdisplay.symm.trans (h.display hentry))
  refine ⟨hentry', keys, ?_⟩
  rw [hpath, hfront, Path.element, List.append_assoc]
  rfl

theorem exists_element {key : String} {entry : Entry} (hentry : (key, entry) ∈ source.catalog.entries)
    {build : String → Entry → Except Failure Node}
    (hbuild : ∀ {key' entry'}, (key', entry') ∈ source.catalog.entries → key.length < key'.length →
      ∃ node, build key' entry' = .ok node ∧ node.Rooted) (value : Json) (position : Nat) :
    ∃ node, source.element build key entry value position = .ok node := by
  cases value with
  | object members =>
    have hwithin {pair : String × Entry} (hpair : pair ∈ source.elementEntries ⟨key, position⟩) :=
      h.within_of_mem_elementEntries hentry hpair
    have hnodup : (Keyed.keys (source.elementEntries ⟨key, position⟩)).Nodup :=
      (List.filter_sublist.map _).nodup h.nodup
    obtain ⟨children, hscope⟩ := h.exists_scope build (fun _ hpair => hwithin hpair) hnodup (by
      intro pair hpair _
      obtain ⟨hmem, keys, hpath⟩ := hwithin hpair
      refine hbuild hmem ?_
      rw [h.display hentry, h.display hmem, hpath, Path.element, List.append_assoc]
      exact Path.display_length_lt _ position _)
    refine ⟨.branch children, ?_⟩
    rw [Path.element, List.length_append, List.length_singleton] at hscope
    simp only [element, hscope]
    rfl
  | array items =>
    rw [element]
    cases hget : source.catalog.get? (elementPath key position) with
    | none => exact ⟨_, rfl⟩
    | some nested =>
      dsimp only
      split
      · obtain ⟨node, hnode, -⟩ := hbuild (Keyed.mem_of_get? hget) (length_lt_elementPath key position)
        exact ⟨node, hnode⟩
      · exact ⟨_, rfl⟩
  | _ => exact ⟨_, rfl⟩

/-- The tree of a list is built when the allowance outlasts the displayed paths. -/
theorem exists_array (allowance : Nat) {key : String} {entry : Entry}
    (hentry : (key, entry) ∈ source.catalog.entries) (hallowance : source.longestPath < allowance + key.length) :
    ∃ node, source.array allowance key entry = .ok node ∧ node.Rooted := by
  induction allowance generalizing key entry with
  | zero =>
    have := length_le_longestPath hentry
    omega
  | succ allowance ih =>
    have helements : ∀ pair ∈ (source.reference entry).zipIdx, ∃ node,
        source.element (source.array allowance) key entry pair.1 pair.2 = .ok node ∧ True := by
      rintro ⟨value, position⟩ -
      obtain ⟨node, hnode⟩ := h.exists_element hentry
        (fun hentry' hlonger => ih hentry' (by omega)) value position
      exact ⟨node, hnode, trivial⟩
    obtain ⟨nodes, hnodes, -⟩ := Outcome.exists_mapM_eq_ok helements
    refine ⟨.array nodes entry.values, ?_, .array _ _⟩
    rw [array]
    simp only [hnodes]
    rfl

theorem exists_build : ∃ root, source.build = .ok root := by
  have hnodup : source.topEntries.keys.Nodup := (List.filter_sublist.map _).nodup h.nodup
  obtain ⟨children, hscope⟩ := h.exists_scope (source.array (source.longestPath + 1))
    (fun _ hpair => h.within_of_mem_topEntries hpair) hnodup
    (fun pair hpair _ => h.exists_array _ (h.within_of_mem_topEntries hpair).1 (by omega))
  refine ⟨.branch children, ?_⟩
  rw [build, tree]
  rw [List.length_nil] at hscope
  simp only [hscope]
  rfl

end RestsOn

end Phrasebook.Namespace.Source
