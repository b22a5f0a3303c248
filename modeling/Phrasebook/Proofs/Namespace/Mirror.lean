import Phrasebook.Namespace.Build
import Phrasebook.Proofs.Group.Translations
import Phrasebook.Proofs.Namespace.Messages

/-! # The namespace of complete documents

The tree is built below one path at a time, the top of the documents or an element of a list. What is built
below a path has a message for every entry below it and no other. The induction is on the allowance of nested
arrays, which is never used up because displayed paths grow with every array.
-/

namespace Phrasebook.Namespace

open Message Phrasebook.Group
open Json (Reaches)

/-- The node that stands for an entry: the accessor's name, or a list, with the entry's values. -/
def Node.IsFor (node : Node) (group key : String) (entry : Entry) : Prop :=
  match node with
  | .leaf identifier samples =>
    entry.isArrayRoot = false ∧ identifier = Identifier.ofPath key group ∧ samples = entry.values
  | .array _ samples => entry.isArrayRoot = true ∧ samples = entry.values
  | .branch _ => False

/-- A catalog whose entries are the values of a document that are no objects, each a position of all
documents. The document is that of the default locale. -/
structure Source.Follows (source : Source) (documents : List (String × Json)) (document : Json) : Prop where
  mem : (source.defaultLocale, document) ∈ documents
  addressable : Addressable documents
  nodup : (Keyed.keys source.catalog.entries).Nodup
  covers : ∀ {key entry}, (key, entry) ∈ source.catalog.entries → Covers documents key entry
  entry : ∀ {path value}, Reaches document path value → value.isObject = false →
    ∃ entry, (path.display, entry) ∈ source.catalog.entries ∧ entry.path = path

/-- A tree that has a message for every entry below a path, and no other. -/
structure Source.Mirrors (source : Source) (path : Path) (node : Node) : Prop where
  tidy : node.Tidy
  sound : ∀ message ∈ node.messages, ∃ key entry, (key, entry) ∈ source.catalog.entries ∧
    entry.path = path ++ message.1 ∧ message.2.IsFor source.group key entry
  complete : ∀ {key entry below}, (key, entry) ∈ source.catalog.entries → entry.path = path ++ below →
    ∃ node', (below, node') ∈ node.messages

namespace Source

variable {source : Source} {documents : List (String × Json)} {document : Json}

namespace Follows

variable (h : source.Follows documents document)
include h

theorem value {key : String} {entry : Entry} (hentry : (key, entry) ∈ source.catalog.entries) :
    ∃ value, entry.value? source.defaultLocale = some value ∧ Reaches document entry.path value ∧
      value.isObject = false ∧ value.isArray = entry.isArrayRoot := (h.covers hentry).value _ h.mem

theorem unique {path : Path} {first second : Json} (hfirst : Reaches document path first)
    (hsecond : Reaches document path second) : first = second :=
  (h.addressable.tidy _ h.mem).unique hfirst hsecond

theorem exists_entry {path : Path} {value : Json} (hreach : Reaches document path value)
    (hvalue : value.isObject = false) :
    ∃ entry, (path.display, entry) ∈ source.catalog.entries ∧ entry.path = path ∧
      entry.isArrayRoot = value.isArray := by
  obtain ⟨entry, hentry, rfl⟩ := h.entry hreach hvalue
  obtain ⟨same, -, hsame, -, hroot⟩ := h.value hentry
  rw [h.unique hreach hsame]
  exact ⟨entry, hentry, rfl, hroot.symm⟩

theorem entry_unique {key key' : String} {entry entry' : Entry}
    (hentry : (key, entry) ∈ source.catalog.entries) (hentry' : (key', entry') ∈ source.catalog.entries)
    (hpath : entry.path = entry'.path) : key = key' ∧ entry = entry' := by
  have hkey : key = key' := by rw [(h.covers hentry).display, (h.covers hentry').display, hpath]
  subst hkey
  exact ⟨rfl, Keyed.eq_of_mem h.nodup hentry hentry'⟩

/-- No entry lies below another one through keys alone. -/
theorem eq_of_front {key key' : String} {entry entry' : Entry} {path : Path} {keys keys' : List String}
    (hentry : (key, entry) ∈ source.catalog.entries) (hentry' : (key', entry') ∈ source.catalog.entries)
    (hpath : entry.path = path ++ keys.map Segment.key)
    (hpath' : entry'.path = path ++ keys'.map Segment.key)
    (hfront : keys.map Segment.key <+: keys'.map Segment.key) : entry.path = entry'.path := by
  obtain ⟨value, -, hreach, hobject, -⟩ := h.value hentry
  obtain ⟨value', -, hreach', -, -⟩ := h.value hentry'
  rw [hpath] at hreach
  rw [hpath'] at hreach'
  rw [hpath, hpath', (h.addressable.tidy _ h.mem).keys_eq_of_front hreach hobject hreach' hfront]

end Follows

/-- The children of a branch below a path after some entries have been added. -/
structure Grown (source : Source) (path : Path) (added : Keyed Entry) (children : List (String × Node)) :
    Prop where
  tidy : (Node.branch children).Tidy
  rooted : ∀ child ∈ children, Node.Rooted child.2
  sound : ∀ message ∈ Node.messagesOfChildren children, ∃ key entry,
    (key, entry) ∈ source.catalog.entries ∧ entry.path = path ++ message.1 ∧
      message.2.IsFor source.group key entry
  origin : ∀ message ∈ Node.messagesOfChildren children, ∃ pair ∈ added, pair.2.path <+: path ++ message.1
  complete : ∀ pair ∈ added, ∀ {key entry below}, (key, entry) ∈ source.catalog.entries →
    entry.path = path ++ below → pair.2.path <+: entry.path →
      ∃ node, (below, node) ∈ Node.messagesOfChildren children

theorem grown_nil (path : Path) : source.Grown path [] [] where
  tidy := .branch List.nodup_nil (by simp)
  rooted := by simp
  sound := by simp [Node.messagesOfChildren]
  origin := by simp [Node.messagesOfChildren]
  complete := by simp

def Below (source : Source) (path : Path) (pair : String × Entry) : Prop :=
  pair ∈ source.catalog.entries ∧ ∃ keys : List String, keys ≠ [] ∧ pair.2.path = path ++ keys.map Segment.key

theorem Grown.place? (h : source.Follows documents document) {path : Path} {added : Keyed Entry}
    {children : List (String × Node)} (hgrown : source.Grown path added children)
    (hadded : ∀ pair ∈ added, source.Below path pair) {key : String} {entry : Entry}
    (hentry : (key, entry) ∈ source.catalog.entries) (hnew : key ∉ added.keys) {keys : List String}
    (hkeys : keys ≠ []) (hpath : entry.path = path ++ keys.map Segment.key) {node : Node}
    (hnode : source.Mirrors entry.path node) (hrooted : node.Rooted) :
    ∃ placed, node.place? keys children = some placed ∧
      source.Grown path (added ++ [(key, entry)]) placed := by
  have hfree : ∀ message ∈ Node.messagesOfChildren children,
      ¬ message.1 <+: keys.map Segment.key ∧ ¬ keys.map Segment.key <+: message.1 := by
    intro message hmessage
    obtain ⟨pair, hpair, horigin⟩ := hgrown.origin message hmessage
    obtain ⟨hin, names, -, hpairPath⟩ := hadded pair hpair
    have hne : pair.2.path ≠ entry.path := by
      intro heq
      apply hnew
      rw [← (h.entry_unique hin hentry heq).1]
      exact List.mem_map_of_mem (f := (·.1)) hpair
    rw [hpairPath, List.prefix_append_right_inj] at horigin
    constructor
    · intro hfront
      exact hne (h.eq_of_front hin hentry hpairPath hpath (horigin.trans hfront))
    · intro hfront
      rcases List.prefix_or_prefix_of_prefix horigin hfront with hle | hle
      · exact hne (h.eq_of_front hin hentry hpairPath hpath hle)
      · exact hne (h.eq_of_front hentry hin hpath hpairPath hle).symm
  obtain ⟨placed, hplaced⟩ := Node.place?_isSome hkeys hgrown.rooted hfree
  have hmem := Node.mem_messages_place? hplaced
  refine ⟨placed, hplaced, hnode.tidy.place? hgrown.tidy hplaced,
    (hrooted.place? hgrown.rooted hplaced).2, ?_, ?_, ?_⟩
  · intro message hmessage
    rcases (hmem message).mp hmessage with hold | ⟨below, hnew, heq⟩
    · exact hgrown.sound message hold
    · obtain ⟨key', entry', hentry', hpath', hfor⟩ := hnode.sound _ hnew
      exact ⟨key', entry', hentry', by rw [hpath', hpath, heq, List.append_assoc], hfor⟩
  · intro message hmessage
    rcases (hmem message).mp hmessage with hold | ⟨below, hnew, heq⟩
    · obtain ⟨pair, hpair, hfront⟩ := hgrown.origin message hold
      exact ⟨pair, List.mem_append_left _ hpair, hfront⟩
    · refine ⟨(key, entry), List.mem_append_right _ List.mem_cons_self, below, ?_⟩
      rw [heq, hpath, List.append_assoc]
  · intro pair hpair key' entry' below hentry' hpath' hfront
    rcases List.mem_append.mp hpair with hold | hlast
    · obtain ⟨node', hnode'⟩ := hgrown.complete pair hold hentry' hpath' hfront
      exact ⟨node', (hmem _).mpr (.inl hnode')⟩
    · cases List.mem_singleton.mp hlast
      obtain ⟨rest, hrest⟩ := hfront
      obtain ⟨node', hnode'⟩ := hnode.complete hentry' hrest.symm
      refine ⟨node', (hmem _).mpr (.inr ⟨rest, hnode', ?_⟩)⟩
      rw [hpath', hpath, List.append_assoc] at hrest
      exact (List.append_cancel_left hrest).symm

theorem Follows.mirrors_leaf (h : source.Follows documents document) {key : String} {entry : Entry}
    (hentry : (key, entry) ∈ source.catalog.entries) (hroot : entry.isArrayRoot = false) :
    source.Mirrors entry.path (source.leaf key entry.values) where
  tidy := .leaf _ _
  sound := by
    intro message hmessage
    cases List.mem_singleton.mp hmessage
    exact ⟨key, entry, hentry, by simp, hroot, rfl, rfl⟩
  complete := by
    intro key' entry' below hentry' hpath
    obtain ⟨value, -, hreach, hobject, harray⟩ := h.value hentry
    obtain ⟨_, -, hreach', -, -⟩ := h.value hentry'
    rw [hpath] at hreach'
    obtain ⟨middle, hmiddle, hrest⟩ := hreach'.split
    cases h.unique hreach hmiddle
    cases hrest with
    | here => exact ⟨_, List.mem_cons_self⟩
    | member => cases hobject
    | element =>
      rw [hroot] at harray
      cases harray

theorem addEntry_eq_ok {build : String → Entry → Except Failure Node} {path : Path}
    {children placed : List (String × Node)} {key : String} {entry : Entry} {keys : List String}
    (hkeys : keys ≠ []) (hpath : entry.path = path ++ keys.map Segment.key) {node : Node}
    (hnode : (if entry.isArrayRoot then build key entry else pure (source.leaf key entry.values)) = .ok node)
    (hplaced : node.place? keys children = some placed) :
    source.addEntry build path.length children key entry = .ok placed := by
  have hdrop : Path.keys? (entry.path.drop path.length) = some keys := by
    rw [Path.keys?_eq_some_iff, hpath, List.drop_left]
  rw [addEntry, hdrop]
  cases keys with
  | nil => exact absurd rfl hkeys
  | cons first names =>
    cases hroot : entry.isArrayRoot with
    | true =>
      rw [hroot, if_pos rfl] at hnode
      simp [hnode, hplaced, bind, Except.bind]
    | false =>
      rw [hroot, if_neg Bool.false_ne_true] at hnode
      cases hnode
      simp [hplaced]

theorem Follows.exists_addEntry (h : source.Follows documents document)
    {build : String → Entry → Except Failure Node} {path : Path} {added : Keyed Entry}
    {children : List (String × Node)} (hgrown : source.Grown path added children)
    (hadded : ∀ pair ∈ added, source.Below path pair) {key : String} {entry : Entry}
    (hentry : source.Below path (key, entry)) (hnew : key ∉ added.keys)
    (hbuild : entry.isArrayRoot = true →
      ∃ node, build key entry = .ok node ∧ source.Mirrors entry.path node ∧ node.Rooted) :
    ∃ next, source.addEntry build path.length children key entry = .ok next ∧
      source.Grown path (added ++ [(key, entry)]) next := by
  obtain ⟨hmem, keys, hkeys, hpath⟩ := hentry
  obtain ⟨node, hnode, hmirrors, hrooted⟩ : ∃ node,
      (if entry.isArrayRoot then build key entry else pure (source.leaf key entry.values)) = .ok node ∧
        source.Mirrors entry.path node ∧ node.Rooted := by
    split
    · rename_i hroot
      exact hbuild hroot
    · rename_i hroot
      exact ⟨_, rfl, h.mirrors_leaf hmem (Bool.eq_false_iff.mpr hroot), .leaf _ _⟩
  obtain ⟨placed, hplaced, hnext⟩ := hgrown.place? h hadded hmem hnew hkeys hpath hmirrors hrooted
  exact ⟨placed, addEntry_eq_ok hkeys hpath hnode hplaced, hnext⟩

/-- Entries are added one after the other when each can be added to those before it. -/
theorem exists_scope_of_step {build : String → Entry → Except Failure Node} {depth : Nat} {entries : Keyed Entry}
    {holds : Keyed Entry → List (String × Node) → Prop} (hstart : holds [] []) (hnodup : entries.keys.Nodup)
    (hstep : ∀ added key entry children, added ⊆ entries → (key, entry) ∈ entries → key ∉ added.keys →
      holds added children → ∃ next, source.addEntry build depth children key entry = .ok next ∧
        holds (added ++ [(key, entry)]) next) :
    ∃ children, source.scope build depth entries = .ok children ∧ holds entries children := by
  refine Outcome.exists_foldlM_eq_ok hstart ?_
  rintro added ⟨key, entry⟩ rest children heq hadded
  have hsubset : added ⊆ entries := heq ▸ List.subset_append_left _ _
  have hmem : (key, entry) ∈ entries := heq ▸ List.mem_append_right _ List.mem_cons_self
  refine hstep added key entry children hsubset hmem (fun hkey => ?_) hadded
  rw [heq, Keyed.keys, List.map_append, List.nodup_append] at hnodup
  exact hnodup.2.2 _ hkey _ List.mem_cons_self rfl

theorem Follows.exists_scope (h : source.Follows documents document)
    {build : String → Entry → Except Failure Node} {path : Path} {entries : Keyed Entry}
    (hentries : ∀ pair ∈ entries, source.Below path pair) (hnodup : entries.keys.Nodup)
    (hbuild : ∀ pair ∈ entries, pair.2.isArrayRoot = true →
      ∃ node, build pair.1 pair.2 = .ok node ∧ source.Mirrors pair.2.path node ∧ node.Rooted) :
    ∃ children, source.scope build path.length entries = .ok children ∧
      source.Grown path entries children :=
  exists_scope_of_step (grown_nil path) hnodup fun _ _ _ _ hsubset hmem hnew hgrown =>
    h.exists_addEntry hgrown (fun pair hpair => hentries pair (hsubset hpair)) (hentries _ hmem) hnew
      (hbuild _ hmem)

/-- The branch of an object mirrors the entries below it. -/
theorem Grown.mirrors (h : source.Follows documents document) {path : Path} {entries : Keyed Entry}
    {children : List (String × Node)} (hgrown : source.Grown path entries children)
    {members : List (String × Json)} (hobject : Reaches document path (.object members))
    (hall : ∀ pair, source.Below path pair → pair ∈ entries) : source.Mirrors path (.branch children) where
  tidy := hgrown.tidy
  sound := hgrown.sound
  complete := by
    intro key entry below hentry hpath
    obtain ⟨keys, rest, rfl, hrest⟩ := below.keys_then_index
    obtain ⟨value, -, hreach, hvalue, -⟩ := h.value hentry
    rw [hpath, ← List.append_assoc] at hreach
    obtain ⟨middle, hmiddle, hinside⟩ := hreach.split
    have hplain : middle.isObject = false := by
      rcases hrest with rfl | ⟨position, more, rfl⟩
      · cases hinside
        exact hvalue
      · cases hinside
        rfl
    obtain ⟨outer, houter, houterPath⟩ := h.entry hmiddle hplain
    have hkeys : keys ≠ [] := by
      rintro rfl
      rw [List.map_nil, List.append_nil] at hmiddle
      rw [← h.unique hobject hmiddle] at hplain
      cases hplain
    refine hgrown.complete _ (hall _ ⟨houter, keys, hkeys, houterPath⟩) hentry hpath ⟨rest, ?_⟩
    rw [houterPath, hpath, List.append_assoc]

theorem mem_topEntries_iff (h : source.Follows documents document) (pair : String × Entry) :
    pair ∈ source.topEntries ↔ source.Below [] pair := by
  obtain ⟨key, entry⟩ := pair
  rw [topEntries, List.mem_filter, Option.isNone_iff_eq_none]
  refine and_congr_right fun hentry => ?_
  rw [(h.covers hentry).item, Path.item?_eq_none_iff]
  constructor
  · rintro ⟨keys, hkeys⟩
    refine ⟨keys, ?_, hkeys⟩
    rintro rfl
    obtain ⟨name, rest, hpath⟩ := (h.covers hentry).keyed
    rw [hpath] at hkeys
    cases hkeys
  · rintro ⟨keys, -, hkeys⟩
    exact ⟨keys, hkeys⟩

theorem mem_elementEntries_iff (h : source.Follows documents document) {key : String} {entry : Entry}
    (hentry : (key, entry) ∈ source.catalog.entries) {position : Nat} {members : List (String × Json)}
    (hobject : Reaches document (entry.path.element position) (.object members))
    (pair : String × Entry) :
    pair ∈ source.elementEntries ⟨key, position⟩ ↔ source.Below (entry.path.element position) pair := by
  obtain ⟨key', entry'⟩ := pair
  rw [elementEntries, List.mem_filter, decide_eq_true_eq]
  refine and_congr_right fun hentry' => ?_
  have hcovers := h.covers hentry'
  rw [hcovers.item, Path.item?_eq_some_iff]
  constructor
  · rintro ⟨front, keys, hpath, hdisplay⟩
    have hfront : front = entry.path := by
      apply Path.display_injective (Path.Plain.of_append (hpath ▸ hcovers.plain)) (h.covers hentry).plain
      · exact Path.Keyed.of_element (hpath ▸ hcovers.keyed)
      · exact (h.covers hentry).keyed
      · rw [← hdisplay]
        exact (h.covers hentry).display
    subst hfront
    have hsplit : entry'.path = entry.path.element position ++ keys.map Segment.key := by
      rw [hpath, Path.element, List.append_assoc]
      rfl
    refine ⟨keys, ?_, hsplit⟩
    rintro rfl
    obtain ⟨value, -, hreach, hvalue, -⟩ := h.value hentry'
    rw [hsplit, List.map_nil, List.append_nil] at hreach
    rw [← h.unique hobject hreach] at hvalue
    cases hvalue
  · rintro ⟨keys, -, hpath⟩
    refine ⟨entry.path, keys, ?_, (h.covers hentry).display⟩
    rw [hpath, Path.element, List.append_assoc]
    rfl

theorem elementSamples_eq (h : source.Follows documents document) {key : String} {entry : Entry}
    (hentry : (key, entry) ∈ source.catalog.entries) (position : Nat) :
    elementSamples entry position = samples documents (entry.path.element position) := by
  rw [elementSamples, (h.covers hentry).values, samples, samples, List.filterMap_filterMap]
  refine List.filterMap_congr ?_
  rintro ⟨locale, document⟩ -
  rw [Path.element, Path.lookup?, Path.lookup?, List.foldlM_append]
  cases entry.path.foldlM (fun value segment => segment.step? value) document with
  | none => rfl
  | some value =>
    cases value with
    | array items =>
      cases hget : items[position]? with
      | none => simp [Json.items?, Segment.step?, hget]
      | some element => simp [Json.items?, Segment.step?, hget]
    | _ => rfl

theorem elementPath_eq (h : source.Follows documents document) {key : String} {entry : Entry}
    (hentry : (key, entry) ∈ source.catalog.entries) (position : Nat) :
    elementPath key position = Path.display (entry.path.element position) := by
  rw [elementPath, Path.display_element (h.covers hentry).keyed, (h.covers hentry).display]

/-- A tree is built for every list whose displayed path is longer than a given one. -/
def BuildsBeyond (source : Source) (build : String → Entry → Except Failure Node) (key : String) : Prop :=
  ∀ {key' entry}, (key', entry) ∈ source.catalog.entries → entry.isArrayRoot = true →
    key.length < key'.length →
      ∃ node, build key' entry = .ok node ∧ source.Mirrors entry.path node ∧ node.Rooted

theorem Follows.exists_element_object (h : source.Follows documents document) {key : String} {entry : Entry}
    (hentry : (key, entry) ∈ source.catalog.entries) {build : String → Entry → Except Failure Node}
    (hbuild : source.BuildsBeyond build key) {position : Nat} {members : List (String × Json)}
    (hobject : Reaches document (entry.path.element position) (.object members)) :
    ∃ node, source.element build key entry (.object members) position = .ok node ∧
      source.Mirrors (entry.path.element position) node := by
  have hmem := mem_elementEntries_iff h hentry hobject
  have hnodup : (Keyed.keys (source.elementEntries ⟨key, position⟩)).Nodup :=
    (List.filter_sublist.map _).nodup h.nodup
  have hlists : ∀ pair ∈ source.elementEntries ⟨key, position⟩, pair.2.isArrayRoot = true →
      ∃ node, build pair.1 pair.2 = .ok node ∧ source.Mirrors pair.2.path node ∧ node.Rooted := by
    rintro ⟨key', entry'⟩ hpair hroot
    obtain ⟨hentry', keys, -, hpath⟩ := (hmem _).mp hpair
    refine hbuild hentry' hroot ?_
    rw [(h.covers hentry).display, (h.covers hentry').display, hpath, Path.element, List.append_assoc]
    exact Path.display_length_lt _ position _
  obtain ⟨children, hscope, hgrown⟩ := h.exists_scope (fun pair hpair => (hmem pair).mp hpair) hnodup hlists
  refine ⟨.branch children, ?_, hgrown.mirrors h hobject fun pair hpair => (hmem pair).mpr hpair⟩
  rw [Path.element, List.length_append, List.length_singleton] at hscope
  simp only [element, hscope]
  rfl

theorem Follows.exists_element (h : source.Follows documents document) {key : String} {entry : Entry}
    (hentry : (key, entry) ∈ source.catalog.entries) {build : String → Entry → Except Failure Node}
    (hbuild : source.BuildsBeyond build key) {position : Nat} {value : Json}
    (hreach : Reaches document (entry.path.element position) value) :
    ∃ node, source.element build key entry value position = .ok node ∧
      source.Mirrors (entry.path.element position) node := by
  have hscalar (hobject : value.isObject = false) (harray : value.isArray = false) :
      source.Mirrors (entry.path.element position)
        (source.leaf (elementPath key position) (elementSamples entry position)) := by
    obtain ⟨inner, hinner, hpath, hroot⟩ := h.exists_entry hreach hobject
    rw [elementPath_eq h hentry, elementSamples_eq h hentry, ← hpath, ← (h.covers hinner).values]
    rw [← hpath] at hinner
    exact h.mirrors_leaf hinner (hroot.trans harray)
  cases value with
  | object members => exact h.exists_element_object hentry hbuild hreach
  | array items =>
    obtain ⟨inner, hinner, hpath, hroot⟩ := h.exists_entry hreach rfl
    have hlonger : key.length < (Path.display (entry.path.element position)).length := by
      rw [(h.covers hentry).display]
      exact Path.display_length_lt _ position []
    obtain ⟨node, hnode, hmirrors, -⟩ := hbuild hinner hroot hlonger
    have hget := (Keyed.get?_eq_some_iff h.nodup _ _).mpr hinner
    refine ⟨node, ?_, hpath ▸ hmirrors⟩
    rw [element, elementPath_eq h hentry, Catalog.get?, hget]
    simp only [hroot]
    exact hnode
  | _ => exact ⟨_, rfl, hscalar rfl rfl⟩

/-- The trees of the elements make the tree of the list. -/
theorem Follows.mirrors_array (h : source.Follows documents document) {key : String} {entry : Entry}
    (hentry : (key, entry) ∈ source.catalog.entries) {items : List Json}
    (hreach : Reaches document entry.path (.array items)) {nodes : List Node}
    (hroot : entry.isArrayRoot = true)
    (hlength : nodes.length = items.length)
    (hnodes : ∀ position node, nodes[position]? = some node →
      source.Mirrors (entry.path.element position) node) :
    source.Mirrors entry.path (.array nodes entry.values) where
  tidy := by
    refine .array _ fun node hnode => ?_
    obtain ⟨position, hget⟩ := List.mem_iff_getElem?.mp hnode
    exact (hnodes position node hget).tidy
  sound := by
    rintro ⟨path, found⟩ hmessage
    rw [Node.messages, List.mem_cons, Node.mem_messagesOfItems_iff] at hmessage
    rcases hmessage with heq | ⟨position, node, below, hget, hmem, hpath⟩
    · cases heq
      exact ⟨key, entry, hentry, by simp, hroot, rfl⟩
    · obtain ⟨key', entry', hentry', hpath', hfor⟩ := (hnodes position node hget).sound _ hmem
      refine ⟨key', entry', hentry', ?_, hfor⟩
      rw [hpath', hpath, Path.element, List.append_assoc, Nat.zero_add]
      rfl
  complete := by
    intro key' entry' below hentry' hpath
    obtain ⟨_, -, hreach', -, -⟩ := h.value hentry'
    rw [hpath] at hreach'
    obtain ⟨middle, hmiddle, hrest⟩ := hreach'.split
    cases h.unique hreach hmiddle
    cases hrest with
    | here => exact ⟨_, List.mem_cons_self⟩
    | @element _ position value _ rest hget _ =>
      have hlt : position < nodes.length := hlength ▸ (List.getElem?_eq_some_iff.mp hget).1
      obtain ⟨node, hnode⟩ : ∃ node, nodes[position]? = some node := ⟨_, List.getElem?_eq_getElem hlt⟩
      have hbelow : entry'.path = entry.path.element position ++ rest := by
        rw [hpath, Path.element, List.append_assoc]
        rfl
      obtain ⟨found, hfound⟩ := (hnodes position node hnode).complete hentry' hbelow
      refine ⟨found, List.mem_cons_of_mem _ ((Node.mem_messagesOfItems_iff _ _ _).mpr ?_)⟩
      exact ⟨position, node, rest, hnode, hfound, by rw [Nat.zero_add]⟩

theorem length_le_foldl_max (entries : Keyed Entry) (start : Nat) :
    start ≤ entries.foldl (fun n (path, _) => max n path.length) start ∧
      ∀ pair ∈ entries, pair.1.length ≤ entries.foldl (fun n (path, _) => max n path.length) start := by
  induction entries generalizing start with
  | nil => simp
  | cons pair rest ih =>
    obtain ⟨hstart, hrest⟩ := ih (max start pair.1.length)
    rw [List.foldl_cons, List.forall_mem_cons]
    exact ⟨(Nat.le_max_left ..).trans hstart, (Nat.le_max_right ..).trans hstart, hrest⟩

theorem length_le_longestPath {key : String} {entry : Entry}
    (hentry : (key, entry) ∈ source.catalog.entries) : key.length ≤ source.longestPath :=
  (length_le_foldl_max source.catalog.entries 0).2 _ hentry

theorem getElem?_of_forall₂_zipIdx {items : List Json} {nodes : List Node} {holds : Json × Nat → Node → Prop}
    (h : List.Forall₂ holds items.zipIdx nodes) {position : Nat} {node : Node}
    (hnode : nodes[position]? = some node) :
    ∃ value, items[position]? = some value ∧ holds (value, position) node := by
  obtain ⟨hlength, hget⟩ := List.forall₂_iff_get.mp h
  obtain ⟨hlt, rfl⟩ := List.getElem?_eq_some_iff.mp hnode
  have hltItems : position < items.length := by
    rw [← hlength, List.length_zipIdx] at hlt
    exact hlt
  have := hget position (by rwa [hlength]) hlt
  simp only [List.get_eq_getElem, List.getElem_zipIdx, Nat.zero_add] at this
  exact ⟨_, List.getElem?_eq_getElem hltItems, this⟩

/-- The tree of a list is built when the allowance outlasts the displayed paths. -/
theorem Follows.exists_array (h : source.Follows documents document) (allowance : Nat) {key : String}
    {entry : Entry} (hentry : (key, entry) ∈ source.catalog.entries) (hroot : entry.isArrayRoot = true)
    (hallowance : source.longestPath < allowance + key.length) :
    ∃ node, source.array allowance key entry = .ok node ∧ source.Mirrors entry.path node ∧ node.Rooted := by
  induction allowance generalizing key entry with
  | zero =>
    have := length_le_longestPath hentry
    omega
  | succ allowance ih =>
    obtain ⟨value, hvalue, hreach, -, harray⟩ := h.value hentry
    obtain ⟨items, rfl⟩ : ∃ items, value = .array items := by
      rw [hroot] at harray
      cases value with
      | array items => exact ⟨items, rfl⟩
      | _ => cases harray
    have hreference : source.reference entry = items := by rw [reference, hvalue]; rfl
    have hbuild : source.BuildsBeyond (source.array allowance) key := by
      intro key' entry' hentry' hroot' hlonger
      exact ih hentry' hroot' (by omega)
    have helements : ∀ pair ∈ items.zipIdx, ∃ node,
        source.element (source.array allowance) key entry pair.1 pair.2 = .ok node ∧
          source.Mirrors (entry.path.element pair.2) node := by
      rintro ⟨value, position⟩ hmem
      have hget := List.mem_zipIdx_iff_getElem?.mp hmem
      exact h.exists_element hentry hbuild (hreach.append (.element hget (.here _)))
    obtain ⟨nodes, hnodes, hforall⟩ := Outcome.exists_mapM_eq_ok helements
    have hlength : nodes.length = items.length := by
      rw [← hforall.length_eq, List.length_zipIdx]
    refine ⟨.array nodes entry.values, ?_, ?_, .array _ _⟩
    · rw [array, hreference]
      simp only [hnodes]
      rfl
    · refine h.mirrors_array hentry hreach hroot hlength fun position node hnode => ?_
      obtain ⟨_, -, hmirrors⟩ := getElem?_of_forall₂_zipIdx hforall hnode
      exact hmirrors

theorem Follows.exists_build (h : source.Follows documents document) :
    ∃ root, source.build = .ok root ∧ source.Mirrors [] root := by
  obtain ⟨members, rfl⟩ : ∃ members, document = .object members := by
    have hobject := h.addressable.object _ h.mem
    cases document with
    | object members => exact ⟨members, rfl⟩
    | _ => cases hobject
  have hmem := mem_topEntries_iff h
  have hnodup : source.topEntries.keys.Nodup := (List.filter_sublist.map _).nodup h.nodup
  have hlists : ∀ pair ∈ source.topEntries, pair.2.isArrayRoot = true →
      ∃ node, source.array (source.longestPath + 1) pair.1 pair.2 = .ok node ∧
        source.Mirrors pair.2.path node ∧ node.Rooted := by
    rintro ⟨key, entry⟩ hpair hroot
    exact h.exists_array _ ((hmem _).mp hpair).1 hroot (by omega)
  obtain ⟨children, hscope, hgrown⟩ := h.exists_scope (fun pair hpair => (hmem pair).mp hpair) hnodup hlists
  refine ⟨.branch children, ?_, hgrown.mirrors h (.here _) fun pair hpair => (hmem pair).mpr hpair⟩
  rw [build, tree]
  rw [List.length_nil] at hscope
  simp only [hscope]
  rfl

end Source

end Phrasebook.Namespace
