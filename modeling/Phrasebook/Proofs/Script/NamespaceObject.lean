import Phrasebook.Proofs.Script.Literal
import Phrasebook.Script.NamespaceObject

/-! # Namespace objects read back

The text of a namespace is a literal between a declaration's head and its end. Reading it gives the tree again
without the values that its comments show: the keys with their order, the names of the accessors, and the empty
branches and arrays. A key may be any text, since what is not a name is quoted; values may be anything, since they
stand in comments that they cannot end.
-/

namespace Phrasebook.Namespace.Node

mutual

/-- The literal that a tree is written as. -/
def outline : Node → Script.Literal
  | .leaf identifier _ => .reference identifier
  | .branch children => .object (outlineOfChildren children)
  | .array items _ => .list (outlineOfItems items)

def outlineOfChildren : List (String × Node) → List (String × Script.Literal)
  | [] => []
  | (key, child) :: rest => (key, child.outline) :: outlineOfChildren rest

def outlineOfItems : List Node → List Script.Literal
  | [] => []
  | item :: rest => item.outline :: outlineOfItems rest

end

/-- A tree whose leaves name exports and whose locales end no comment. -/
inductive Printable : Node → Prop where
  | leaf {identifier : String} {samples : Keyed Json} (valid : Identifier.isValid identifier = true)
      (locales : ∀ sample ∈ samples, Script.Unclosed sample.1.toList) : Printable (.leaf identifier samples)
  | branch {children : List (String × Node)} (inner : ∀ child ∈ children, Printable child.2) :
      Printable (.branch children)
  | array {items : List Node} {samples : Keyed Json} (inner : ∀ item ∈ items, Printable item)
      (locales : ∀ sample ∈ samples, Script.Unclosed sample.1.toList) : Printable (.array items samples)

mutual

theorem usable_outline {node : Node} (h : node.Printable) : node.outline.Usable := by
  cases h with
  | leaf valid _ =>
    simp only [Identifier.isValid, Bool.and_eq_true, Bool.not_eq_true'] at valid
    exact .reference valid.1.2
  | branch inner => exact .object (usable_outlineOfChildren inner)
  | array inner _ => exact .list (usable_outlineOfItems inner)

theorem usable_outlineOfChildren {children : List (String × Node)} (h : ∀ child ∈ children, child.2.Printable) :
    ∀ member ∈ outlineOfChildren children, member.2.Usable := by
  cases children with
  | nil => exact List.forall_mem_nil _
  | cons child more =>
    obtain ⟨key, node⟩ := child
    obtain ⟨hhere, hmore⟩ := List.forall_mem_cons.mp h
    change node.Printable at hhere
    exact List.forall_mem_cons.mpr ⟨usable_outline hhere, usable_outlineOfChildren hmore⟩

theorem usable_outlineOfItems {items : List Node} (h : ∀ item ∈ items, item.Printable) :
    ∀ item ∈ outlineOfItems items, item.Usable := by
  cases items with
  | nil => exact List.forall_mem_nil _
  | cons item more =>
    obtain ⟨hhere, hmore⟩ := List.forall_mem_cons.mp h
    exact List.forall_mem_cons.mpr ⟨usable_outline hhere, usable_outlineOfItems hmore⟩

end

end Phrasebook.Namespace.Node

namespace Phrasebook.Script

open Namespace Literal

namespace NamespaceObject

/-! ## Tokens of a written tree -/

theorem scans_comment {node : Node} (h : node.Printable) (level : Nat) (rest : List Char) :
    Scans (comment level node).toList [] rest := by
  cases h with
  | leaf _ locales => exact scans_render level none locales rest
  | branch _ => exact Scans.nil rest
  | array _ locales => exact scans_render level none locales rest

theorem scans_key (key : String) (rest : List Char) :
    Scans (propertyKey key ++ ": ").toList [Token.ofKey key, .colon] rest := by
  have hcolon : Scans [':', ' '] [.colon] rest := (scans_mark rfl _).append (scans_blank (by decide) rest)
  have hkey : Scans (propertyKey key).toList [Token.ofKey key] ([':', ' '] ++ rest) := by
    rw [propertyKey, Token.ofKey]
    split
    · next hname => exact scans_word hname (stops_cons (by decide) _)
    · exact scans_quoted key _
  rw [String.toList_append]
  exact hkey.append hcolon

theorem scans_lineEnd (rest : List Char) : Scans [',', '\n'] [.comma] rest :=
  (scans_mark rfl _).append (scans_blank (by decide) rest)

mutual

/-- Where no name goes on, the text of a tree is read as the tokens of its literal. -/
theorem scans_node {node : Node} (h : node.Printable) (level : Nat) {rest : List Char} (hrest : Stops rest) :
    Scans (NamespaceObject.node level node).toList node.outline.tokens rest := by
  cases node with
  | leaf identifier samples =>
    cases h with
    | leaf valid _ =>
      simp only [Identifier.isValid, Bool.and_eq_true] at valid
      exact scans_word valid.1.1 hrest
  | branch children =>
    cases h with
    | branch inner =>
      cases children with
      | nil =>
        have := (scans_mark (c := '\x7b') rfl _).append (scans_mark (c := '\x7d') rfl rest)
        simpa [NamespaceObject.node, Node.outline, Node.outlineOfChildren, tokens, tokensOfMembers] using this
      | cons child more =>
        have := (scans_mark (c := '\x7b') rfl _).append ((scans_blank (c := '\n') (by decide) _).append
          ((scans_children inner (level + 1) _).append ((scans_margin (2 * level) _).append
            (scans_mark (c := '\x7d') rfl rest))))
        simpa [NamespaceObject.node, Node.outline, tokens, Json.margin] using this
  | array items samples =>
    cases h with
    | array inner _ =>
      cases items with
      | nil =>
        have := (scans_mark (c := '[') rfl _).append (scans_mark (c := ']') rfl rest)
        simpa [NamespaceObject.node, Node.outline, Node.outlineOfItems, tokens, tokensOfItems] using this
      | cons item more =>
        have := (scans_mark (c := '[') rfl _).append ((scans_blank (c := '\n') (by decide) _).append
          ((scans_items inner (level + 1) _).append ((scans_margin (2 * level) _).append
            (scans_mark (c := ']') rfl rest))))
        simpa [NamespaceObject.node, Node.outline, tokens, Json.margin] using this

theorem scans_children {children : List (String × Node)} (h : ∀ child ∈ children, child.2.Printable) (level : Nat)
    (rest : List Char) :
    Scans (NamespaceObject.children level children).toList (tokensOfMembers (Node.outlineOfChildren children))
      rest := by
  cases children with
  | nil => exact Scans.nil rest
  | cons child more =>
    obtain ⟨key, node⟩ := child
    obtain ⟨hhere, hmore⟩ := List.forall_mem_cons.mp h
    change node.Printable at hhere
    have := (scans_comment hhere level _).append ((scans_margin (2 * level) _).append
      ((scans_key key _).append ((scans_node hhere level (stops_cons (by decide) _)).append
        ((scans_lineEnd _).append (scans_children hmore level rest)))))
    simpa [NamespaceObject.children, Node.outlineOfChildren, tokensOfMembers, Json.margin] using this

theorem scans_items {items : List Node} (h : ∀ item ∈ items, item.Printable) (level : Nat) (rest : List Char) :
    Scans (NamespaceObject.items level items).toList (tokensOfItems (Node.outlineOfItems items)) rest := by
  cases items with
  | nil => exact Scans.nil rest
  | cons item more =>
    obtain ⟨hhere, hmore⟩ := List.forall_mem_cons.mp h
    have := (scans_comment hhere level _).append ((scans_margin (2 * level) _).append
      ((scans_node hhere level (stops_cons (by decide) _)).append
        ((scans_lineEnd _).append (scans_items hmore level rest))))
    simpa [NamespaceObject.items, Node.outlineOfItems, tokensOfItems, Json.margin] using this

end

/-! ## The declaration -/

def head (name : String) : String := "export const " ++ name ++ " = "

/-- The tokens that end the declaration of a constant which is stated to be read only. -/
def ending : List Token := [.word "as", .word "const", .semicolon]

/-- Reads the literal of a declared constant. -/
def read? (name text : String) : Option Literal := do
  let body ← text.toList.dropPrefix? (head name).toList
  let (literal, rest) ← Literal.read? body
  if rest = ending then some literal else none

theorem scans_ending : Scans " as const;\n".toList ending [] := by
  have has : Identifier.isName "as" = true := by decide
  have hconst : Identifier.isName "const" = true := by decide
  have hlast : Scans [';', '\n'] [.semicolon] [] := (scans_mark rfl _).append (scans_blank (by decide) [])
  have := (scans_blank (c := ' ') (by decide) _).append ((scans_word has (stops_cons (by decide) _)).append
    ((scans_blank (c := ' ') (by decide) _).append ((scans_word hconst (stops_cons (by decide) _)).append hlast)))
  simpa [ending] using this

/-- The text of a namespace is read back as the tree it was written from. -/
theorem read?_render (name : String) {root : Node} (h : root.Printable) :
    read? name (render name root) = some root.outline := by
  have htext : (render name root).toList =
      (head name).toList ++ ((NamespaceObject.node 0 root).toList ++ " as const;\n".toList) := by
    change (head name ++ NamespaceObject.node 0 root ++ " as const;\n").toList = _
    rw [String.toList_append, String.toList_append, List.append_assoc]
  have hstops : Stops (" as const;\n".toList ++ []) := stops_cons (c := ' ') (by decide) _
  have htokens : tokens? ((NamespaceObject.node 0 root).toList ++ " as const;\n".toList) =
      some (root.outline.tokens ++ ending) := by
    have := (scans_node h 0 hstops).append scans_ending
    rw [Scans, List.append_nil, tokens?] at this
    simpa using this
  have hliteral : Literal.read? ((NamespaceObject.node 0 root).toList ++ " as const;\n".toList) =
      some (root.outline, ending) := by
    rw [Literal.read?, htokens]
    refine take?_tokens (Node.usable_outline h) ?_ ending
    rw [List.length_append]
    omega
  rw [read?, htext, List.dropPrefix?_append_of_beq _ BEq.rfl]
  rw [Option.bind_eq_bind, Option.bind_some, hliteral, Option.bind_eq_bind, Option.bind_some]
  exact if_pos rfl

def hostileRoot : Node :=
  .branch [
    ("", .leaf "empty" hostileSamples),
    ("say \"*/\"\n", .branch []),
    ("a.b", .array [.leaf "a_b_0" hostileSamples, .array [] hostileSamples, .branch [("delete", .leaf "a_b_2" [])]]
      hostileSamples)]

theorem printable_hostileRoot : hostileRoot.Printable := by
  have hnone : ∀ sample ∈ ([] : Keyed Json), Unclosed sample.1.toList := List.forall_mem_nil _
  have hlast : (Node.branch [("delete", .leaf "a_b_2" [])]).Printable :=
    .branch (List.forall_mem_singleton.mpr (.leaf (by decide) hnone))
  have hitems : ∀ item ∈ [Node.leaf "a_b_0" hostileSamples, .array [] hostileSamples,
      .branch [("delete", .leaf "a_b_2" [])]], item.Printable :=
    List.forall_mem_cons.mpr ⟨.leaf (by decide) unclosed_hostileSamples,
      List.forall_mem_cons.mpr ⟨.array (List.forall_mem_nil _) unclosed_hostileSamples,
        List.forall_mem_singleton.mpr hlast⟩⟩
  refine .branch (List.forall_mem_cons.mpr ⟨.leaf (by decide) unclosed_hostileSamples, ?_⟩)
  exact List.forall_mem_cons.mpr ⟨.branch (List.forall_mem_nil _),
    List.forall_mem_singleton.mpr (.array hitems unclosed_hostileSamples)⟩

theorem read?_render_hostileRoot :
    hostileRoot.Printable ∧ read? "messages" (render "messages" hostileRoot) =
      some (.object [
        ("", .reference "empty"),
        ("say \"*/\"\n", .object []),
        ("a.b", .list [.reference "a_b_0", .list [], .object [("delete", .reference "a_b_2")]])]) :=
  ⟨printable_hostileRoot, read?_render "messages" printable_hostileRoot⟩

end NamespaceObject

end Phrasebook.Script
