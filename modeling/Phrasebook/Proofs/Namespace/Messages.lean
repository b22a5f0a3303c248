import Phrasebook.Message.Path
import Phrasebook.Namespace.Basic
import Phrasebook.Proofs.Keyed

/-! # Messages of a namespace tree

The leaves and the arrays of a tree are its messages, each at a path of keys and positions. Where all
branches have distinct keys, following the path of a message leads to it, and no path has two messages. One
node that is put below the children of a branch adds its own messages and nothing else; it is refused only
when its place and that of a message already there are on one way.
-/

namespace Phrasebook.Namespace.Node

open Message

def step? (node : Node) : Segment → Option Node
  | .key name => node.child? name
  | .index position => node.item? position

def walk? (node : Node) (path : Path) : Option Node := path.foldlM step? node

mutual

def size : Node → Nat
  | .leaf _ _ => 1
  | .branch children => sizeOfChildren children
  | .array items _ => sizeOfItems items + 1

def sizeOfChildren : List (String × Node) → Nat
  | [] => 0
  | (_, node) :: rest => node.size + sizeOfChildren rest

def sizeOfItems : List Node → Nat
  | [] => 0
  | node :: rest => node.size + sizeOfItems rest

end

mutual

/-- The leaves and arrays with their paths. -/
def messages : Node → List (Path × Node)
  | .leaf identifier samples => [([], .leaf identifier samples)]
  | .branch children => messagesOfChildren children
  | .array items samples => ([], .array items samples) :: messagesOfItems 0 items

def messagesOfChildren : List (String × Node) → List (Path × Node)
  | [] => []
  | (name, node) :: rest =>
    node.messages.map (fun message => (.key name :: message.1, message.2)) ++ messagesOfChildren rest

/-- The leaves and arrays in the items of an array, from a position on. -/
def messagesOfItems (position : Nat) : List Node → List (Path × Node)
  | [] => []
  | node :: rest =>
    node.messages.map (fun message => (.index position :: message.1, message.2)) ++
      messagesOfItems (position + 1) rest

end

theorem mem_messagesOfChildren_iff (children : List (String × Node)) (message : Path × Node) :
    message ∈ messagesOfChildren children ↔
      ∃ name node path, (name, node) ∈ children ∧ (path, message.2) ∈ node.messages ∧
        message.1 = .key name :: path := by
  induction children with
  | nil => simp [messagesOfChildren]
  | cons child rest ih =>
    obtain ⟨name, node⟩ := child
    rw [messagesOfChildren, List.mem_append, ih, List.mem_map]
    constructor
    · rintro (⟨⟨path, found⟩, hmem, rfl⟩ | ⟨name', node', path, hchild, hmem, heq⟩)
      · exact ⟨name, node, path, List.mem_cons_self, hmem, rfl⟩
      · exact ⟨name', node', path, List.mem_cons_of_mem _ hchild, hmem, heq⟩
    · rintro ⟨name', node', path, hchild, hmem, heq⟩
      rcases List.mem_cons.mp hchild with hhere | hrest
      · cases hhere
        exact .inl ⟨_, hmem, Prod.ext heq.symm rfl⟩
      · exact .inr ⟨name', node', path, hrest, hmem, heq⟩

theorem mem_messagesOfItems_iff (start : Nat) (items : List Node) (message : Path × Node) :
    message ∈ messagesOfItems start items ↔
      ∃ position node path, items[position]? = some node ∧ (path, message.2) ∈ node.messages ∧
        message.1 = .index (start + position) :: path := by
  induction items generalizing start with
  | nil => simp [messagesOfItems]
  | cons node rest ih =>
    rw [messagesOfItems, List.mem_append, ih, List.mem_map]
    constructor
    · rintro (⟨⟨path, found⟩, hmem, rfl⟩ | ⟨position, node', path, hget, hmem, heq⟩)
      · exact ⟨0, node, path, rfl, hmem, rfl⟩
      · exact ⟨position + 1, node', path, hget, hmem, by rw [heq, Nat.add_right_comm, Nat.add_assoc]⟩
    · rintro ⟨position, node', path, hget, hmem, heq⟩
      cases position with
      | zero =>
        cases hget
        exact .inl ⟨_, hmem, Prod.ext heq.symm rfl⟩
      | succ position =>
        exact .inr ⟨position, node', path, hget, hmem, by rw [heq, Nat.add_right_comm, Nat.add_assoc]⟩

mutual

theorem length_messages (node : Node) : node.messages.length = node.size := by
  cases node with
  | leaf => simp [messages, size]
  | branch children => rw [messages, size, length_messagesOfChildren]
  | array items => rw [messages, size, List.length_cons, length_messagesOfItems]

theorem length_messagesOfChildren (children : List (String × Node)) :
    (messagesOfChildren children).length = sizeOfChildren children := by
  cases children with
  | nil => rfl
  | cons child rest =>
    rw [messagesOfChildren, sizeOfChildren, List.length_append, List.length_map, length_messages,
      length_messagesOfChildren]

theorem length_messagesOfItems (start : Nat) (items : List Node) :
    (messagesOfItems start items).length = sizeOfItems items := by
  cases items with
  | nil => rfl
  | cons node rest =>
    rw [messagesOfItems, sizeOfItems, List.length_append, List.length_map, length_messages,
      length_messagesOfItems]

end

inductive Tidy : Node → Prop where
  | leaf (identifier : String) (samples : Keyed Json) : Tidy (.leaf identifier samples)
  | branch {children : List (String × Node)} (names : (Keyed.keys children).Nodup)
      (inner : ∀ child ∈ children, Tidy child.2) : Tidy (.branch children)
  | array {items : List Node} (samples : Keyed Json) (inner : ∀ item ∈ items, Tidy item) :
      Tidy (.array items samples)

theorem Tidy.walk?_eq {node : Node} (h : node.Tidy) {path : Path} {found : Node}
    (hmem : (path, found) ∈ node.messages) : node.walk? path = some found := by
  induction h generalizing path with
  | leaf identifier samples =>
    rw [messages, List.mem_singleton] at hmem
    cases hmem
    rfl
  | branch names _ ih =>
    rw [messages, mem_messagesOfChildren_iff] at hmem
    obtain ⟨name, child, rest, hchild, hmem, rfl⟩ := hmem
    have hget := (Keyed.get?_eq_some_iff names name child).mpr hchild
    rw [walk?, List.foldlM_cons, step?, child?, hget]
    exact ih _ hchild hmem
  | array samples _ ih =>
    rw [messages, List.mem_cons, mem_messagesOfItems_iff] at hmem
    rcases hmem with heq | ⟨position, item, rest, hget, hmem, hpath⟩
    · cases heq
      rfl
    · rw [Nat.zero_add] at hpath
      subst hpath
      rw [walk?, List.foldlM_cons, step?, item?, hget]
      exact ih _ (List.mem_of_getElem? hget) hmem

theorem nodup_paths_under (node : Node) (segment : Segment) (h : (node.messages.map (·.1)).Nodup) :
    ((node.messages.map fun message => (segment :: message.1, message.2)).map (·.1)).Nodup := by
  rw [List.map_map]
  have := h.map (List.cons_injective (a := segment))
  rwa [List.map_map] at this

theorem nodup_paths_children {children : List (String × Node)} (names : (Keyed.keys children).Nodup)
    (inner : ∀ child ∈ children, (child.2.messages.map (·.1)).Nodup) :
    ((messagesOfChildren children).map (·.1)).Nodup := by
  induction children with
  | nil => exact List.nodup_nil
  | cons child rest ih =>
    rw [Keyed.keys_cons, List.nodup_cons] at names
    obtain ⟨hhere, hrest⟩ := List.forall_mem_cons.mp inner
    rw [messagesOfChildren, List.map_append, List.nodup_append]
    refine ⟨nodup_paths_under _ _ hhere, ih names.2 hrest, ?_⟩
    intro path hpath path' hpath' heq
    obtain ⟨⟨_, _⟩, hmem, rfl⟩ := List.mem_map.mp hpath
    obtain ⟨message, -, heq'⟩ := List.mem_map.mp hmem
    cases heq'
    obtain ⟨message', hmem', rfl⟩ := List.mem_map.mp hpath'
    obtain ⟨name, node, inside, hchild, -, hname⟩ := (mem_messagesOfChildren_iff rest message').mp hmem'
    rw [hname, List.cons.injEq, Segment.key.injEq] at heq
    apply names.1
    rw [heq.1]
    exact List.mem_map_of_mem (f := (·.1)) hchild

theorem nodup_paths_items {items : List Node} (start : Nat)
    (inner : ∀ item ∈ items, (item.messages.map (·.1)).Nodup) :
    ((messagesOfItems start items).map (·.1)).Nodup := by
  induction items generalizing start with
  | nil => exact List.nodup_nil
  | cons item rest ih =>
    obtain ⟨hhere, hrest⟩ := List.forall_mem_cons.mp inner
    rw [messagesOfItems, List.map_append, List.nodup_append]
    refine ⟨nodup_paths_under _ _ hhere, ih _ hrest, ?_⟩
    intro path hpath path' hpath' heq
    obtain ⟨⟨_, _⟩, hmem, rfl⟩ := List.mem_map.mp hpath
    obtain ⟨message, -, heq'⟩ := List.mem_map.mp hmem
    cases heq'
    obtain ⟨message', hmem', rfl⟩ := List.mem_map.mp hpath'
    obtain ⟨position, node, inside, -, -, hname⟩ := (mem_messagesOfItems_iff _ rest message').mp hmem'
    rw [hname, List.cons.injEq, Segment.index.injEq] at heq
    omega

theorem Tidy.nodup_paths {node : Node} (h : node.Tidy) : (node.messages.map (·.1)).Nodup := by
  induction h with
  | leaf => simp [messages]
  | branch names _ ih => exact nodup_paths_children names ih
  | array samples _ ih =>
    rw [messages, List.map_cons, List.nodup_cons]
    refine ⟨?_, nodup_paths_items 0 ih⟩
    intro hmem
    obtain ⟨message, hmessage, hpath⟩ := List.mem_map.mp hmem
    obtain ⟨_, _, _, -, -, heq⟩ := (mem_messagesOfItems_iff _ _ _).mp hmessage
    rw [heq] at hpath
    cases hpath

inductive Rooted : Node → Prop where
  | leaf (identifier : String) (samples : Keyed Json) : Rooted (.leaf identifier samples)
  | array (items : List Node) (samples : Keyed Json) : Rooted (.array items samples)
  | branch {children : List (String × Node)} (some : children ≠ [])
      (inner : ∀ child ∈ children, Rooted child.2) : Rooted (.branch children)

theorem Rooted.exists_message {node : Node} (h : node.Rooted) : ∃ message, message ∈ node.messages := by
  induction h with
  | leaf identifier samples => exact ⟨_, List.mem_cons_self⟩
  | array items samples => exact ⟨_, List.mem_cons_self⟩
  | @branch children some _ ih =>
    obtain ⟨⟨name, child⟩, hchild⟩ := List.exists_mem_of_ne_nil children some
    obtain ⟨⟨path, found⟩, hmem⟩ := ih _ hchild
    exact ⟨(.key name :: path, found), (mem_messagesOfChildren_iff _ _).mpr ⟨_, _, _, hchild, hmem, rfl⟩⟩

section Place

variable {node : Node} {children placed : List (String × Node)} {keys : List String}

theorem messagesOfChildren_append (first second : List (String × Node)) :
    messagesOfChildren (first ++ second) = messagesOfChildren first ++ messagesOfChildren second := by
  induction first with
  | nil => rfl
  | cons child rest ih => rw [List.cons_append, messagesOfChildren, ih, messagesOfChildren, List.append_assoc]

theorem mem_messagesOfChildren_single (key : String) (child : Node) (message : Path × Node) :
    message ∈ messagesOfChildren [(key, child)] ↔
      ∃ path, (path, message.2) ∈ child.messages ∧ message.1 = .key key :: path := by
  simp [mem_messagesOfChildren_iff]

theorem mem_messagesOfChildren_middle (left right : List (String × Node)) (key : String) (child : Node)
    (message : Path × Node) :
    message ∈ messagesOfChildren (left ++ (key, child) :: right) ↔
      (message ∈ messagesOfChildren left ∨ message ∈ messagesOfChildren right) ∨
        ∃ path, (path, message.2) ∈ child.messages ∧ message.1 = .key key :: path := by
  rw [messagesOfChildren_append, List.mem_append, ← List.singleton_append, messagesOfChildren_append,
    List.mem_append, mem_messagesOfChildren_single, or_assoc]
  exact or_congr_right or_comm

/-- A placed node adds its own messages and no others. -/
theorem mem_messages_place? (h : place? node keys children = some placed) (message : Path × Node) :
    message ∈ messagesOfChildren placed ↔
      message ∈ messagesOfChildren children ∨
        ∃ path, (path, message.2) ∈ node.messages ∧ message.1 = keys.map Segment.key ++ path := by
  fun_induction place? node keys children generalizing placed message with
  | case1 => cases h
  | case2 => cases h
  | case3 key children =>
    cases h
    rw [messagesOfChildren_append, List.mem_append, mem_messagesOfChildren_single]
    rfl
  | case4 key keys children hnext hget ih =>
    obtain ⟨inner, hinner, rfl⟩ := Option.map_eq_some_iff.mp h
    rw [messagesOfChildren_append, List.mem_append, mem_messagesOfChildren_single, messages]
    refine or_congr_right ⟨?_, ?_⟩
    · rintro ⟨path, hmem, hpath⟩
      obtain ⟨rest, hrest, hkeys⟩ := ((ih hinner _).mp hmem).resolve_left List.not_mem_nil
      exact ⟨rest, hrest, hpath.trans (congrArg (Segment.key key :: ·) hkeys)⟩
    · rintro ⟨rest, hrest, hpath⟩
      exact ⟨keys.map Segment.key ++ rest, (ih hinner _).mpr (.inr ⟨rest, hrest, rfl⟩), hpath⟩
  | case5 key keys children hnext before hget ih =>
    obtain ⟨inner, hinner, rfl⟩ := Option.map_eq_some_iff.mp h
    obtain ⟨left, right, rfl, hput⟩ := Keyed.exists_eq_append_of_get? hget
    rw [hput, mem_messagesOfChildren_middle, mem_messagesOfChildren_middle, messages, messages]
    refine Iff.trans (or_congr_right ⟨?_, ?_⟩) or_assoc.symm
    · rintro ⟨path, hmem, hpath⟩
      rcases (ih hinner _).mp hmem with hmem | ⟨rest, hrest, hkeys⟩
      · exact .inl ⟨path, hmem, hpath⟩
      · exact .inr ⟨rest, hrest, hpath.trans (congrArg (Segment.key key :: ·) hkeys)⟩
    · rintro (⟨path, hmem, hpath⟩ | ⟨rest, hrest, hpath⟩)
      · exact ⟨path, (ih hinner _).mpr (.inl hmem), hpath⟩
      · exact ⟨keys.map Segment.key ++ rest, (ih hinner _).mpr (.inr ⟨rest, hrest, rfl⟩), hpath⟩
  | case6 => cases h

theorem keys_append_single_nodup {key : String} (names : (Keyed.keys children).Nodup)
    (hget : Keyed.get? children key = none) (child : Node) :
    (Keyed.keys (children ++ [(key, child)])).Nodup := by
  rw [Keyed.get?_eq_none_iff] at hget
  rw [Keyed.keys, List.map_append, List.nodup_append]
  refine ⟨names, List.nodup_singleton _, ?_⟩
  rintro name hname other hother rfl
  rw [List.map_singleton, List.mem_singleton] at hother
  rw [hother] at hname
  exact hget hname

theorem tidy_branch_append {key : String} {child : Node} (hchildren : (Node.branch children).Tidy)
    (hchild : child.Tidy) (hget : Keyed.get? children key = none) :
    (Node.branch (children ++ [(key, child)])).Tidy := by
  cases hchildren with
  | branch names inner =>
    refine .branch (keys_append_single_nodup names hget child) ?_
    rw [List.forall_mem_append, List.forall_mem_singleton]
    exact ⟨inner, hchild⟩

theorem Tidy.place? (hnode : node.Tidy) (hchildren : (Node.branch children).Tidy)
    (h : place? node keys children = some placed) : (Node.branch placed).Tidy := by
  fun_induction Node.place? node keys children generalizing placed with
  | case1 => cases h
  | case2 => cases h
  | case3 key children hhas =>
    cases h
    exact tidy_branch_append hchildren hnode (by simpa [Keyed.has] using hhas)
  | case4 key keys children hnext hget ih =>
    obtain ⟨inner, hinner, rfl⟩ := Option.map_eq_some_iff.mp h
    exact tidy_branch_append hchildren (ih (.branch List.nodup_nil (by simp)) hinner) hget
  | case5 key keys children hnext before hget ih =>
    obtain ⟨inner, hinner, rfl⟩ := Option.map_eq_some_iff.mp h
    obtain ⟨left, right, rfl, hput⟩ := Keyed.exists_eq_append_of_get? hget
    rw [hput]
    cases hchildren with
    | branch names inside =>
      refine .branch (by simpa [Keyed.keys] using names) ?_
      rw [List.forall_mem_append, List.forall_mem_cons] at inside ⊢
      exact ⟨inside.1, ih inside.2.1 hinner, inside.2.2⟩
  | case6 => cases h

theorem Rooted.place? (hnode : node.Rooted) (hchildren : ∀ child ∈ children, Rooted child.2)
    (h : place? node keys children = some placed) :
    placed ≠ [] ∧ ∀ child ∈ placed, Rooted child.2 := by
  fun_induction Node.place? node keys children generalizing placed with
  | case1 => cases h
  | case2 => cases h
  | case3 key children hhas =>
    cases h
    rw [List.forall_mem_append, List.forall_mem_singleton]
    exact ⟨by simp, hchildren, hnode⟩
  | case4 key keys children hnext hget ih =>
    obtain ⟨inner, hinner, rfl⟩ := Option.map_eq_some_iff.mp h
    obtain ⟨hsome, hinside⟩ := ih (by simp) hinner
    rw [List.forall_mem_append, List.forall_mem_singleton]
    exact ⟨by simp, hchildren, .branch hsome hinside⟩
  | case5 key keys children hnext before hget ih =>
    obtain ⟨inner, hinner, rfl⟩ := Option.map_eq_some_iff.mp h
    obtain ⟨left, right, rfl, hput⟩ := Keyed.exists_eq_append_of_get? hget
    rw [hput]
    rw [List.forall_mem_append, List.forall_mem_cons] at hchildren ⊢
    obtain ⟨hleft, hbefore, hright⟩ := hchildren
    cases hbefore with
    | branch _ hinside =>
      obtain ⟨hsome, hplaced⟩ := ih hinside hinner
      exact ⟨by simp, hleft, .branch hsome hplaced, hright⟩
  | case6 => cases h

/-- A node finds its place unless a message lies on the way to it or below it. -/
theorem place?_isSome (hkeys : keys ≠ []) (hchildren : ∀ child ∈ children, Rooted child.2)
    (hfree : ∀ message ∈ messagesOfChildren children,
      ¬ message.1 <+: keys.map Segment.key ∧ ¬ keys.map Segment.key <+: message.1) :
    ∃ placed, place? node keys children = some placed := by
  fun_induction place? node keys children with
  | case1 => exact absurd rfl hkeys
  | case2 key children hhas =>
    obtain ⟨child, hget⟩ := Option.isSome_iff_exists.mp hhas
    have hchild := Keyed.mem_of_get? hget
    obtain ⟨⟨path, found⟩, hmessage⟩ := (hchildren _ hchild).exists_message
    have hfree := hfree (.key key :: path, found)
      ((mem_messagesOfChildren_iff _ _).mpr ⟨_, _, _, hchild, hmessage, rfl⟩)
    exact absurd ⟨path, rfl⟩ hfree.2
  | case3 key children hhas => exact ⟨_, rfl⟩
  | case4 key keys children hnext hget ih =>
    obtain ⟨placed, hplaced⟩ := ih (fun h => hnext h) (by simp) (by simp [messagesOfChildren])
    exact ⟨_, by rw [hplaced, Option.map_some]⟩
  | case5 key keys children hnext before hget ih =>
    have hbefore := Keyed.mem_of_get? hget
    have hfree : ∀ message ∈ messagesOfChildren before,
        ¬ message.1 <+: keys.map Segment.key ∧ ¬ keys.map Segment.key <+: message.1 := by
      rintro ⟨path, found⟩ hmem
      have := hfree (.key key :: path, found)
        ((mem_messagesOfChildren_iff _ _).mpr ⟨_, _, _, hbefore, hmem, rfl⟩)
      simpa only [List.map_cons, List.cons_prefix_cons, true_and] using this
    cases hchildren _ hbefore with
    | branch _ hinside =>
      obtain ⟨placed, hplaced⟩ := ih (fun h => hnext h) hinside hfree
      exact ⟨_, by rw [hplaced, Option.map_some]⟩
  | case6 key keys children hnext child hother hget =>
    have hchild := Keyed.mem_of_get? hget
    have hself : ([], child) ∈ child.messages := by
      cases child with
      | branch before => exact absurd rfl (hother before)
      | _ => exact List.mem_cons_self
    have hfree := hfree ([.key key], child)
      ((mem_messagesOfChildren_iff _ _).mpr ⟨_, _, _, hchild, hself, rfl⟩)
    exact absurd ⟨keys.map Segment.key, rfl⟩ hfree.1

end Place

end Phrasebook.Namespace.Node
