import Mathlib.Algebra.GroupWithZero.Nat
import Mathlib.Data.List.MinMax
import Mathlib.Order.Nat
import Phrasebook.Proofs.Namespace.Arrays

/-! # Nesting of arrays

Building a tree is a recursion of scopes and arrays: a scope calls for the array roots in it, an array for the
scopes and the lists among its elements. The lists are found by displayed paths and the scopes by the lists that
entries remember, so that no part of the data gets smaller; what grows are the displayed paths. The recursion is
written here without an allowance, each call with the calls that it may make. It ends, and with the result that
the allowance gives.
-/

namespace Phrasebook.Namespace

open Message

/-! ## Calls -/

/-- A call of the recursion: for the branch of some entries, or for the array of one. -/
inductive Call where
  | scope (depth : Nat) (entries : Keyed Entry)
  | array (key : String) (entry : Entry)

def hasPlace (depth : Nat) (entry : Entry) : Bool :=
  match Path.keys? (entry.path.drop depth) with
  | some (_ :: _) => true
  | _ => false

namespace Call

/-- How many arrays a call adds to those around it. -/
def weight : Call → Nat
  | .scope _ _ => 0
  | .array _ _ => 1

/-- The array roots that a call leads to: those that get a place in the branch, or the one itself. -/
def roots : Call → Keyed Entry
  | .scope depth entries => entries.filter fun (_, entry) => entry.isArrayRoot && hasPlace depth entry
  | .array key entry => [(key, entry)]

end Call

namespace Source

/-- The call for an element of the list that shapes an array, if the element is no leaf. -/
def elementCall? (source : Source) (key : String) (entry : Entry) (value : Json) (position : Nat) : Option Call :=
  match value with
  | .object _ => some (.scope (entry.path.length + 1) (source.elementEntries ⟨key, position⟩))
  | .array _ =>
    match source.catalog.get? (elementPath key position) with
    | some nested => if nested.isArrayRoot then some (.array (elementPath key position) nested) else none
    | none => none
  | _ => none

def callees (source : Source) : Call → List Call
  | .scope depth entries => (Call.roots (.scope depth entries)).map fun (key, entry) => .array key entry
  | .array key entry =>
    (source.reference entry).zipIdx.filterMap fun (value, position) => source.elementCall? key entry value position

def answer (source : Source) (answers : Call → Except Failure Node) : Call → Except Failure Node
  | .scope depth entries => do
    let children ← source.scope (fun key entry => answers (.array key entry)) depth entries
    return .branch children
  | .array key entry => do
    let items ← (source.reference entry).zipIdx.mapM fun (value, position) =>
      match source.elementCall? key entry value position with
      | some call => answers call
      | none => .ok (source.leaf (elementPath key position) (elementSamples entry position))
    return .array items entry.values

/-- A call that ends: all calls that it may make end. With it stand its result, the number of calls made for it
unless one fails, itself included, and the largest number of arrays around each other among them. -/
inductive Ends (source : Source) : Call → Except Failure Node → Nat → Nat → Prop where
  | intro {call : Call} {answers : Call → Except Failure Node} {calls nesting : Call → Nat}
      (inner : ∀ callee ∈ source.callees call, Ends source callee (answers callee) (calls callee) (nesting callee)) :
      Ends source call (source.answer answers call) (1 + ((source.callees call).map calls).sum)
        (call.weight + ((source.callees call).map nesting).foldr max 0)

def allowed (source : Source) (allowance : Nat) : Call → Except Failure Node
  | .scope depth entries => do
    let children ← source.scope (source.array allowance) depth entries
    return .branch children
  | .array key entry => source.array allowance key entry

variable {source : Source} {answers answers' : Call → Except Failure Node}

/-! ## A call answers by its calls -/

theorem addEntry_congr {build build' : String → Entry → Except Failure Node} {depth : Nat} {key : String}
    {entry : Entry} (h : entry.isArrayRoot = true → hasPlace depth entry = true → build key entry = build' key entry)
    (children : List (String × Node)) :
    source.addEntry build depth children key entry = source.addEntry build' depth children key entry := by
  rw [addEntry, addEntry]
  cases hkeys : Path.keys? (entry.path.drop depth) with
  | none => rfl
  | some keys =>
    cases keys with
    | nil => rfl
    | cons first rest =>
      cases hroot : entry.isArrayRoot with
      | false => rfl
      | true =>
        have hplace : hasPlace depth entry = true := by rw [hasPlace, hkeys]
        rw [h hroot hplace]

theorem mem_roots_scope_iff {depth : Nat} {entries : Keyed Entry} {pair : String × Entry} :
    pair ∈ Call.roots (.scope depth entries) ↔
      pair ∈ entries ∧ pair.2.isArrayRoot = true ∧ hasPlace depth pair.2 = true := by
  rw [Call.roots, List.mem_filter, Bool.and_eq_true]

theorem scope_congr {build build' : String → Entry → Except Failure Node} {depth : Nat} {entries : Keyed Entry}
    (h : ∀ pair ∈ Call.roots (.scope depth entries), build pair.1 pair.2 = build' pair.1 pair.2) :
    source.scope build depth entries = source.scope build' depth entries := by
  refine Outcome.foldlM_congr (fun pair hpair children => addEntry_congr (fun hroot hplace => ?_) children) []
  exact h pair (mem_roots_scope_iff.mpr ⟨hpair, hroot, hplace⟩)

/-- A call reads the answers to the calls that it makes, and no others. -/
theorem answer_congr {call : Call} (h : ∀ callee ∈ source.callees call, answers callee = answers' callee) :
    source.answer answers call = source.answer answers' call := by
  cases call with
  | scope depth entries =>
    have hscope : source.scope (fun key entry => answers (.array key entry)) depth entries =
        source.scope (fun key entry => answers' (.array key entry)) depth entries :=
      scope_congr fun pair hpair => h _ (List.mem_map_of_mem hpair)
    rw [answer, answer, hscope]
  | array key entry =>
    rw [answer, answer]
    congr 1
    refine Outcome.mapM_congr fun pair hpair => ?_
    cases hcall : source.elementCall? key entry pair.1 pair.2 with
    | none => simp only [hcall]
    | some callee =>
      simp only [hcall]
      exact h callee (List.mem_filterMap.mpr ⟨pair, hpair, hcall⟩)

/-! ## The allowance -/

theorem element_eq_allowed (allowance : Nat) (key : String) (entry : Entry) (value : Json) (position : Nat) :
    source.element (source.array allowance) key entry value position =
      match source.elementCall? key entry value position with
      | some call => source.allowed allowance call
      | none => .ok (source.leaf (elementPath key position) (elementSamples entry position)) := by
  cases value with
  | array items =>
    rw [element, elementCall?]
    cases source.catalog.get? (elementPath key position) with
    | none => rfl
    | some nested => cases hroot : nested.isArrayRoot <;> simp [hroot, allowed]
  | _ => rfl

theorem array_succ_eq_answer (allowance : Nat) (key : String) (entry : Entry) :
    source.array (allowance + 1) key entry = source.answer (source.allowed allowance) (.array key entry) := by
  rw [array, answer]
  simp only [element_eq_allowed]

/-- A call that ends has the result that any allowance gives which covers its nesting. -/
theorem Ends.allowed_eq {call : Call} {result : Except Failure Node} {calls nesting : Nat}
    (h : source.Ends call result calls nesting) {allowance : Nat} (hallowance : nesting ≤ allowance) :
    source.allowed allowance call = result := by
  induction h generalizing allowance with
  | @intro call answers calls nesting inner ih =>
    have hnesting : ∀ callee ∈ source.callees call,
        nesting callee ≤ ((source.callees call).map nesting).foldr max 0 :=
      fun callee hcallee => List.le_max_of_le' 0 (List.mem_map_of_mem hcallee) le_rfl
    cases call with
    | scope depth entries =>
      have hcovers : ∀ callee ∈ source.callees (.scope depth entries), nesting callee ≤ allowance := by
        intro callee hcallee
        have := hnesting callee hcallee
        rw [Call.weight] at hallowance
        omega
      exact answer_congr fun callee hcallee => ih callee hcallee (hcovers callee hcallee)
    | array key entry =>
      rw [Call.weight] at hallowance
      obtain ⟨allowance, rfl⟩ := Nat.exists_eq_add_of_le' (Nat.le_of_add_right_le hallowance)
      rw [allowed, array_succ_eq_answer]
      refine answer_congr fun callee hcallee => ih callee hcallee ?_
      have := hnesting callee hcallee
      omega

/-- A call ends when its calls do. -/
theorem exists_ends (source : Source) (call : Call) {bound : Nat}
    (h : ∀ callee ∈ source.callees call, ∃ result calls nesting,
      source.Ends callee result calls nesting ∧ nesting ≤ bound) :
    ∃ result calls nesting, source.Ends call result calls nesting ∧ nesting ≤ call.weight + bound := by
  have : Nonempty (Except Failure Node) := ⟨.error .unfinished⟩
  choose! answers calls nesting hends hbound using h
  have hmax : ((source.callees call).map nesting).foldr max 0 ≤ bound := by
    refine List.max_le_of_forall_le ((source.callees call).map nesting) bound fun inner hinner => ?_
    obtain ⟨callee, hcallee, rfl⟩ := List.mem_map.mp hinner
    exact hbound callee hcallee
  exact ⟨_, _, _, .intro hends, Nat.add_le_add_left hmax _⟩

theorem exists_ends_scope {depth bound : Nat} {entries : Keyed Entry}
    (h : ∀ root ∈ Call.roots (.scope depth entries), ∃ result calls nesting,
      source.Ends (.array root.1 root.2) result calls nesting ∧ nesting ≤ bound) :
    ∃ result calls nesting, source.Ends (.scope depth entries) result calls nesting ∧ nesting ≤ bound := by
  have hscope := exists_ends source (.scope depth entries) fun callee hcallee => by
    obtain ⟨root, hroot, rfl⟩ := List.mem_map.mp hcallee
    exact h root hroot
  rwa [Call.weight, Nat.zero_add] at hscope

/-! ## Displayed paths grow -/

namespace Lengthens

variable (h : source.Lengthens)
include h

/-- The array roots that an array leads to are in the catalog, with longer displayed paths. -/
theorem of_callee {key : String} {entry : Entry} {callee : Call}
    (hcallee : callee ∈ source.callees (.array key entry)) {root : String × Entry} (hroot : root ∈ callee.roots) :
    root ∈ source.catalog.entries ∧ root.2.isArrayRoot = true ∧ key.length + 3 ≤ root.1.length := by
  obtain ⟨⟨value, position⟩, -, hcall⟩ := List.mem_filterMap.mp hcallee
  cases value with
  | object members =>
    cases hcall
    obtain ⟨hmem, hmark, -⟩ := mem_roots_scope_iff.mp hroot
    rw [elementEntries, List.mem_filter, decide_eq_true_eq] at hmem
    exact ⟨hmem.1, hmark, h.le hmem.1 hmem.2⟩
  | array items =>
    dsimp only [elementCall?] at hcall
    cases hget : source.catalog.get? (elementPath key position) with
    | none =>
      rw [hget] at hcall
      cases hcall
    | some nested =>
      rw [hget] at hcall
      cases hmark : nested.isArrayRoot with
      | false => simp [hmark] at hcall
      | true =>
        simp only [hmark, if_true, Option.some.injEq] at hcall
        subst hcall
        cases List.mem_singleton.mp hroot
        exact ⟨Keyed.mem_of_get? hget, hmark, length_add_le_elementPath key position⟩
  | _ => cases hcall

theorem exists_ends_array {key : String} {entry : Entry} (hentry : (key, entry) ∈ source.catalog.entries) :
    ∃ result calls nesting, source.Ends (.array key entry) result calls nesting ∧
      nesting ≤ 1 + (source.longestPath - key.length) / 3 := by
  -- Induction on what is left to the longest path.
  induction hroom : source.longestPath - key.length using Nat.strong_induction_on generalizing key entry with
  | _ room ih =>
    subst hroom
    have hroot {callee : Call} (hcallee : callee ∈ source.callees (.array key entry)) {root : String × Entry}
        (hmem : root ∈ callee.roots) : ∃ result calls nesting,
          source.Ends (.array root.1 root.2) result calls nesting ∧ nesting ≤ (source.longestPath - key.length) / 3 := by
      obtain ⟨hin, -, hlonger⟩ := h.of_callee hcallee hmem
      have hlength := length_le_longestPath hin
      obtain ⟨result, calls, nesting, hends, hle⟩ := ih _ (by omega) hin rfl
      exact ⟨result, calls, nesting, hends, by omega⟩
    refine exists_ends source _ fun callee hcallee => ?_
    cases callee with
    | array key' entry' => exact hroot hcallee List.mem_cons_self
    | scope depth entries => exact exists_ends_scope fun root hmem => hroot hcallee hmem

theorem exists_ends_top : ∃ result calls nesting, source.Ends (.scope 0 source.topEntries) result calls nesting ∧
    nesting ≤ 1 + source.longestPath / 3 := by
  refine exists_ends_scope fun root hroot => ?_
  obtain ⟨result, calls, nesting, hends, hle⟩ :=
    h.exists_ends_array (List.mem_filter.mp (mem_roots_scope_iff.mp hroot).1).1
  exact ⟨result, calls, nesting, hends, by omega⟩

end Lengthens

/-- The recursion ends for the catalog of any records of documents, whatever their keys spell and whether or not the
documents were checked: an array leads to array roots of the catalog with longer displayed paths only, the arrays
around each other are not more than the longest path is long, and the result is that of the namespace, which no
allowance has cut off. -/
theorem ends_build {records : List (String × List Record)} (h : Flattened records) {source : Source}
    (hcatalog : source.catalog = .gather records) :
    (∀ key entry, ∀ callee ∈ source.callees (.array key entry), ∀ root ∈ callee.roots,
      root ∈ source.catalog.entries ∧ root.2.isArrayRoot = true ∧ key.length < root.1.length) ∧
    ∃ calls nesting, source.Ends (.scope 0 source.topEntries) source.build calls nesting ∧
      nesting ≤ max 1 source.longestPath ∧ source.build ≠ .error .unfinished := by
  obtain ⟨catalog, group, defaultLocale⟩ := source
  subst hcatalog
  have hlengthens := h.lengthens group defaultLocale
  constructor
  · intro key entry callee hcallee root hroot
    obtain ⟨hmem, hmark, hlonger⟩ := hlengthens.of_callee hcallee hroot
    exact ⟨hmem, hmark, by omega⟩
  · obtain ⟨result, calls, nesting, hends, hnesting⟩ := hlengthens.exists_ends_top
    have hbuild : build ⟨.gather records, group, defaultLocale⟩ = result := hends.allowed_eq (by omega)
    exact ⟨calls, nesting, hbuild ▸ hends, by omega, hlengthens.build_ne_unfinished⟩

/-- Documents in which keys of one spell places in the lists of the other. -/
def twistedDocuments : List (String × Json) :=
  [ ("en", .object [("l", .array [.array [.object [("a", .array [.string "x"])]], .string "y"])]),
    ("es", .object [("l[0]", .string "z"), ("l", .array [.object [("b", .array [])], .array [.string "w"]]),
      ("l[0][0]", .object [("a", .array [.array [.null]])])]) ]

theorem ends_build_twisted :
    ∃ source : Source, source.catalog = .gather (Group.recordsOf twistedDocuments) ∧ source.longestPath = 15 ∧
      ∃ calls nesting, source.Ends (.scope 0 source.topEntries) source.build calls nesting ∧ nesting ≤ 15 ∧
        source.build ≠ .error .unfinished := by
  have hlongest : longestPath ⟨.gather (Group.recordsOf twistedDocuments), "shop", "en"⟩ = 15 := by decide +kernel
  obtain ⟨-, calls, nesting, hends, hnesting, hfinished⟩ :=
    ends_build (Group.flattened_recordsOf twistedDocuments)
      (rfl : catalog ⟨.gather (Group.recordsOf twistedDocuments), "shop", "en"⟩ = _)
  exact ⟨_, rfl, hlongest, calls, nesting, hends, by omega, hfinished⟩

end Source

end Phrasebook.Namespace
