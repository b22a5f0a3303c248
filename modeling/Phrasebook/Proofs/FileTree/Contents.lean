import Mathlib.Data.List.Nodup
import Phrasebook.Proofs.FileTree.Follow

/-! # What a tree holds

A tree that holds nothing twice is told by what stands at each location: the names of the files in a directory
and the directories below it are those that can be looked up. Directories are listed in one order, so that the
list for a tree with more directories is the same one with new members put in.
-/

namespace Phrasebook.FileTree

open FilePath (IsStep)

/-- Nothing stands twice at one location, and locations consist of names. -/
structure WellFormed (tree : FileTree) : Prop where
  nodup : (tree.entries.map (·.1)).Nodup
  names : ∀ entry ∈ tree.entries, ∀ name ∈ entry.1, IsStep name ∧ '/' ∉ name.toList

section Entries

variable {tree next : FileTree} {here location : Location} {node : Node} {name : String}

theorem mem_of_lookup {entries : List (Location × Node)} (h : entries.lookup location = some node) :
    (location, node) ∈ entries := by
  obtain ⟨before, rest, rfl, -⟩ := List.lookup_eq_some_iff.mp h
  exact List.mem_append_right _ List.mem_cons_self

theorem lookup_eq_some_iff_mem {entries : List (Location × Node)} (hnodup : (entries.map (·.1)).Nodup) :
    entries.lookup location = some node ↔ (location, node) ∈ entries := by
  refine ⟨mem_of_lookup, fun hmem => ?_⟩
  obtain ⟨before, rest, rfl⟩ := List.append_of_mem hmem
  refine List.lookup_eq_some_iff.mpr ⟨before, rest, rfl, fun entry hentry => ?_⟩
  rw [List.map_append, List.nodup_append] at hnodup
  have hne := hnodup.2.2 entry.1 (List.mem_map_of_mem hentry) location (by simp)
  exact bne_iff_ne.mpr (Ne.symm hne)

theorem node?_eq_some_iff_mem (hnodup : (tree.entries.map (·.1)).Nodup) (hplace : location ≠ []) :
    tree.node? location = some node ↔ (location, node) ∈ tree.entries := by
  rw [node?, if_neg hplace, lookup_eq_some_iff_mem hnodup]

theorem keys_put_go (location : Location) (node : Node) (entries : List (Location × Node)) :
    (put.go location node entries).map (·.1) =
      if location ∈ entries.map (·.1) then entries.map (·.1) else entries.map (·.1) ++ [location] := by
  induction entries with
  | nil => rfl
  | cons entry rest ih =>
    obtain ⟨place, present⟩ := entry
    rw [put.go]
    by_cases hplace : place = location
    · simp [hplace]
    · rw [if_neg hplace, List.map_cons, ih]
      by_cases hmem : location ∈ rest.map (·.1)
      · simp [hmem]
      · simp [hmem, Ne.symm hplace]

theorem nodup_put (hnodup : (tree.entries.map (·.1)).Nodup) (location : Location) (node : Node) :
    ((tree.put location node).entries.map (·.1)).Nodup := by
  rw [put, keys_put_go]
  split
  · exact hnodup
  · rename_i hmissing
    exact List.nodup_append.mpr ⟨hnodup, List.nodup_singleton _, fun place hplace other hother heq =>
      hmissing (List.mem_singleton.mp hother ▸ heq ▸ hplace)⟩

theorem put_of_node? (hplace : location ≠ []) (h : tree.node? location = some node) :
    tree.put location node = tree := by
  have hgo {entries : List (Location × Node)} (h : entries.lookup location = some node) :
      put.go location node entries = entries := by
    induction entries with
    | nil => cases h
    | cons entry rest ih =>
      obtain ⟨place, present⟩ := entry
      rw [put.go]
      by_cases heq : place = location
      · subst heq
        rw [List.lookup_cons_self, Option.some_inj] at h
        rw [if_pos rfl, h]
      · rw [List.lookup_cons, beq_false_of_ne (Ne.symm heq)] at h
        rw [if_neg heq, ih h]
  rw [node?, if_neg hplace] at h
  rw [put, hgo h]

/-- Every entry stands in a directory. -/
def Grounded (tree : FileTree) : Prop := ∀ entry ∈ tree.entries, tree.holdsDirectory entry.1.dropLast = true

instance (tree : FileTree) : Decidable tree.Grounded := inferInstanceAs (Decidable (∀ entry ∈ _, _))

/-- Only directories hold anything. -/
theorem Grounded.node?_eq_none (h : tree.Grounded) (hhere : tree.holdsDirectory here = false) (name : String) :
    tree.node? (here ++ [name]) = none := by
  cases hnode : tree.node? (here ++ [name]) with
  | none => rfl
  | some node =>
    rw [node?, if_neg (by simp)] at hnode
    have hdirectory := h _ (mem_of_lookup hnode)
    rw [List.dropLast_concat, hhere] at hdirectory
    cases hdirectory

end Entries

/-! ## The order of locations -/

section Order

theorem isUpTo_iff (first second : Location) :
    isUpTo first second = true ↔ ¬List.Lex (· < ·) second first := by
  induction first generalizing second with
  | nil => simp [isUpTo]
  | cons name rest ih =>
    cases second with
    | nil => simp [isUpTo]
    | cons other more =>
      have hle : ¬List.Lex (· < ·) (other :: more) (name :: rest) ↔
          name < other ∨ name = other ∧ ¬List.Lex (· < ·) more rest := List.cons_le_cons_iff
      rw [isUpTo, hle, ← ih]
      by_cases hname : name = other
      · simp [hname]
      · simp [hname]

theorem isUpTo_trans (first second third : Location) (h : isUpTo first second = true)
    (h' : isUpTo second third = true) : isUpTo first third = true := by
  rw [isUpTo_iff] at *
  exact List.le_trans h h'

theorem isUpTo_total (first second : Location) : (isUpTo first second || isUpTo second first) = true := by
  rw [Bool.or_eq_true, isUpTo_iff, isUpTo_iff]
  exact List.le_total first second

theorem isUpTo_antisymm (first second : Location) (h : isUpTo first second = true)
    (h' : isUpTo second first = true) : first = second := by
  rw [isUpTo_iff] at *
  exact List.le_antisymm h h'

end Order

/-! ## What a directory holds -/

section Directories

variable {tree next : FileTree} {top place : Location}

theorem directory_eq_some_iff {entry : Location × Node} :
    (match entry.2 with
      | .directory => if top.isPrefixOf entry.1 && entry.1 ≠ top then some entry.1 else none
      | .file _ => none) = some place ↔
      entry = (place, .directory) ∧ top <+: place ∧ place ≠ top := by
  obtain ⟨location, node⟩ := entry
  cases node with
  | file content => simp
  | directory =>
    simp only [Option.ite_none_right_eq_some, Bool.and_eq_true, List.isPrefixOf_iff_prefix, decide_eq_true_eq,
      Option.some.injEq, Prod.mk.injEq, and_true]
    constructor
    · rintro ⟨hbelow, rfl⟩
      exact ⟨rfl, hbelow⟩
    · rintro ⟨rfl, hbelow⟩
      exact ⟨hbelow, rfl⟩

theorem mem_directoriesFrom_iff_mem :
    place ∈ tree.directoriesFrom top ↔
      place = top ∨ (place, .directory) ∈ tree.entries ∧ top <+: place ∧ place ≠ top := by
  rw [directoriesFrom, List.mem_mergeSort, List.mem_cons, List.mem_filterMap]
  refine or_congr_right ⟨?_, fun ⟨hmem, hbelow⟩ => ⟨_, hmem, directory_eq_some_iff.mpr ⟨rfl, hbelow⟩⟩⟩
  rintro ⟨entry, hmem, hchosen⟩
  obtain ⟨rfl, hbelow⟩ := directory_eq_some_iff.mp hchosen
  exact ⟨hmem, hbelow⟩

theorem nodup_directoriesFrom (hnodup : (tree.entries.map (·.1)).Nodup) (top : Location) :
    (tree.directoriesFrom top).Nodup := by
  rw [directoriesFrom, (List.mergeSort_perm _ _).nodup_iff, List.nodup_cons, List.mem_filterMap]
  constructor
  · rintro ⟨entry, -, hchosen⟩
    exact (directory_eq_some_iff.mp hchosen).2.2 rfl
  · rw [List.Nodup, List.pairwise_map] at hnodup
    refine List.pairwise_filterMap.mpr (hnodup.imp fun hne place hplace place' hplace' heq => hne ?_)
    rw [(directory_eq_some_iff.mp hplace).1, (directory_eq_some_iff.mp hplace').1, heq]

theorem WellFormed.exists_names (h : tree.WellFormed) (hmem : place ∈ tree.directoriesFrom top) :
    ∃ names, place = top ++ names ∧ ∀ name ∈ names, IsStep name ∧ '/' ∉ name.toList := by
  rcases mem_directoriesFrom_iff_mem.mp hmem with rfl | ⟨hentry, ⟨names, rfl⟩, -⟩
  · exact ⟨[], (List.append_nil _).symm, by simp⟩
  · exact ⟨names, rfl, fun name hname => h.names _ hentry name (List.mem_append_right _ hname)⟩

theorem mem_directoriesFrom_iff (hnodup : (tree.entries.map (·.1)).Nodup) (htop : tree.holdsDirectory top = true) :
    place ∈ tree.directoriesFrom top ↔ top <+: place ∧ tree.holdsDirectory place = true := by
  rw [mem_directoriesFrom_iff_mem, holdsDirectory_iff]
  by_cases hplace : place = top
  · subst hplace
    simp [(holdsDirectory_iff place).mp htop]
  · have hnode (hbelow : top <+: place) :
        tree.node? place = some .directory ↔ (place, .directory) ∈ tree.entries := by
      refine node?_eq_some_iff_mem hnodup ?_
      rintro rfl
      exact hplace (List.prefix_nil.mp hbelow).symm
    constructor
    · rintro (heq | ⟨hmem, hbelow, -⟩)
      · exact absurd heq hplace
      · exact ⟨hbelow, (hnode hbelow).mpr hmem⟩
    · rintro ⟨hbelow, hdirectory⟩
      exact .inr ⟨(hnode hbelow).mp hdirectory, hbelow, hplace⟩

/-- The directories of a tree keep their order where there are more of them. -/
theorem filter_directoriesFrom (hnodup : (tree.entries.map (·.1)).Nodup) (hnodup' : (next.entries.map (·.1)).Nodup)
    (hkeeps : tree.Keeps next) (htop : tree.holdsDirectory top = true) :
    (next.directoriesFrom top).filter tree.holdsDirectory = tree.directoriesFrom top := by
  have hsorted (tree : FileTree) :
      (tree.directoriesFrom top).Pairwise fun first second => isUpTo first second = true :=
    List.pairwise_mergeSort isUpTo_trans isUpTo_total _
  -- both are sorted and have the same members
  refine List.Perm.eq_of_pairwise (fun first second _ _ => isUpTo_antisymm first second)
    ((hsorted next).filter _) (hsorted tree) ?_
  refine (List.perm_ext_iff_of_nodup ((nodup_directoriesFrom hnodup' top).filter _)
    (nodup_directoriesFrom hnodup top)).mpr fun place => ?_
  rw [List.mem_filter, mem_directoriesFrom_iff hnodup htop,
    mem_directoriesFrom_iff hnodup' (hkeeps.holdsDirectory htop)]
  exact ⟨fun ⟨⟨hbelow, _⟩, hold⟩ => ⟨hbelow, hold⟩,
    fun ⟨hbelow, hold⟩ => ⟨⟨hbelow, hkeeps.holdsDirectory hold⟩, hold⟩⟩

end Directories

section Files

variable {tree : FileTree} {here : Location} {name : String}

theorem fileName_eq_some {entry : Location × Node}
    (h : (match entry.2 with
      | .directory => none
      | .file _ =>
        match entry.1.getLast? with
        | some name => if entry.1 = here ++ [name] then some name else none
        | none => none) = some name) :
    entry.1 = here ++ [name] ∧ ∃ content, entry.2 = .file content := by
  split at h
  · cases h
  · rename_i content hfile
    split at h
    · split at h
      · rename_i hplace
        cases h
        exact ⟨hplace, content, hfile⟩
      · cases h
    · cases h

theorem mem_fileNames_iff (hnodup : (tree.entries.map (·.1)).Nodup) :
    name ∈ tree.fileNames here ↔ ∃ content, tree.node? (here ++ [name]) = some (.file content) := by
  rw [fileNames, List.mem_filterMap]
  constructor
  · rintro ⟨entry, hmem, hname⟩
    obtain ⟨hplace, content, hfile⟩ := fileName_eq_some hname
    refine ⟨content, (node?_eq_some_iff_mem hnodup (by simp)).mpr ?_⟩
    rw [← hplace, ← hfile]
    exact hmem
  · rintro ⟨content, hnode⟩
    exact ⟨_, (node?_eq_some_iff_mem hnodup (by simp)).mp hnode, by simp⟩

theorem nodup_fileNames (hnodup : (tree.entries.map (·.1)).Nodup) (here : Location) : (tree.fileNames here).Nodup := by
  rw [List.Nodup, List.pairwise_map] at hnodup
  refine List.pairwise_filterMap.mpr (hnodup.imp fun hne name hname name' hname' heq => hne ?_)
  rw [(fileName_eq_some hname).1, (fileName_eq_some hname').1, heq]

end Files

end Phrasebook.FileTree
