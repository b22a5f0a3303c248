import Phrasebook.Identifier
import Phrasebook.Message.Catalog
import Phrasebook.Namespace.Basic

/-! # Namespace of a catalog

The tree is built scope by scope. Messages outside arrays form the top scope; the messages inside one array
element form a scope of their own, which becomes a branch at the element's position. An array has one item
per element of the default locale's list, or of the first list there is.

An array inside another one is found in the catalog by its displayed path, which is longer than that of the
array around it. So the length of the longest path bounds the nesting.
-/

namespace Phrasebook.Namespace

open Message

inductive Failure where
  /-- A path is both a message and a namespace. -/
  | conflict (path : String)
  /-- Arrays are nested deeper than the allowance. -/
  | unfinished
deriving Repr, DecidableEq

structure Source where
  catalog : Catalog
  group : String
  defaultLocale : String

namespace Source

def leaf (source : Source) (path : String) (samples : Keyed Json) : Node :=
  .leaf (Identifier.ofPath path source.group) samples

/-- The messages outside arrays. -/
def topEntries (source : Source) : Keyed Entry :=
  source.catalog.entries.filter fun (_, entry) => entry.item.isNone

/-- The messages whose nearest array element is the given one. -/
def elementEntries (source : Source) (ref : ItemRef) : Keyed Entry :=
  source.catalog.entries.filter fun (_, entry) => entry.item = some ref

/-- The list that gives an array its shape. -/
def reference (source : Source) (entry : Entry) : List Json :=
  match (entry.value? source.defaultLocale).bind Json.items? with
  | some items => items
  | none => (entry.values.findSome? fun (_, value) => value.items?).getD []

def elementSamples (entry : Entry) (position : Nat) : Keyed Json :=
  entry.values.filterMap fun (locale, value) => do
    let items ← value.items?
    let element ← items[position]?
    return (locale, element)

/-- Adds one message to the children of a branch whose entries share their first `depth` steps. A message
whose further steps are not all keys belongs to an array and is skipped, as is one without further steps. -/
def addEntry (source : Source) (buildArray : String → Entry → Except Failure Node) (depth : Nat)
    (children : List (String × Node)) (path : String) (entry : Entry) :
    Except Failure (List (String × Node)) :=
  match (Path.keys? (entry.path.drop depth)) with
  | none => .ok children
  | some [] => .ok children
  | some keys => do
    let node ←
      if entry.isArrayRoot then buildArray path entry
      else pure (source.leaf path entry.values)
    match node.place? keys children with
    | some children => .ok children
    | none => .error (.conflict path)

/-- The children of a branch whose entries share their first `depth` steps. -/
def scope (source : Source) (buildArray : String → Entry → Except Failure Node) (depth : Nat)
    (entries : Keyed Entry) : Except Failure (List (String × Node)) :=
  entries.foldlM (fun children (path, entry) => source.addEntry buildArray depth children path entry) []

def elementPath (path : String) (position : Nat) : String :=
  path ++ "[" ++ toString position ++ "]"

def element (source : Source) (buildArray : String → Entry → Except Failure Node) (path : String)
    (entry : Entry) (value : Json) (position : Nat) : Except Failure Node :=
  let single := source.leaf (elementPath path position) (elementSamples entry position)
  match value with
  | .object _ => do
    let children ← source.scope buildArray (entry.path.length + 1)
      (source.elementEntries ⟨path, position⟩)
    return .branch children
  | .array _ =>
    match source.catalog.get? (elementPath path position) with
    | some nested =>
      if nested.isArrayRoot then buildArray (elementPath path position) nested else .ok single
    | none => .ok single
  | _ => .ok single

/-- The node of an array, for an allowance of nested arrays. -/
def array (source : Source) : Nat → String → Entry → Except Failure Node
  | 0, _, _ => .error .unfinished
  | allowance + 1, path, entry => do
    let items ← (source.reference entry).zipIdx.mapM fun (value, position) =>
      source.element (array source allowance) path entry value position
    return .array items entry.values

def longestPath (source : Source) : Nat :=
  source.catalog.entries.foldl (fun n (path, _) => max n path.length) 0

/-- The namespace with an allowance of nested arrays. -/
def tree (source : Source) (allowance : Nat) : Except Failure Node := do
  let children ← source.scope (source.array allowance) 0 source.topEntries
  return .branch children

def build (source : Source) : Except Failure Node :=
  source.tree (source.longestPath + 1)

end Source

end Phrasebook.Namespace
