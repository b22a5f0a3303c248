import Phrasebook.Project.Load
import Phrasebook.Proofs.FileTree.Contents
import Phrasebook.Proofs.Project.Planned

/-! # Groups that are found

A scan gives every directory at most one group, called by the names on the way to it. In a tree whose names are
names, different directories give different groups, and each group is found by what it is called.
-/

namespace Phrasebook

open FilePath (IsStep)

theorem Text.parts_intercalate {names : List String} (hsome : names ≠ [])
    (hnames : ∀ name ∈ names, '/' ∉ name.toList) : Text.parts '/' ("/".intercalate names) = names := by
  have hslash : "/".toList = ['/'] := rfl
  rw [parts, String.toList_intercalate, hslash, List.splitOn_intercalate]
  · simp
  · simpa using hnames
  · simpa using hsome

namespace Project

open FileTree

variable {tree : FileTree} {names names' : List String}

theorem isRelative_intercalate (hnames : ∀ name ∈ names, IsStep name ∧ '/' ∉ name.toList) :
    Plan.IsRelative ("/".intercalate names) := by
  by_cases hsome : names = []
  · subst hsome
    exact .inl rfl
  · refine .inr ?_
    rw [Text.parts_intercalate hsome fun name hname => (hnames name hname).2]
    exact fun name hname => (hnames name hname).1

theorem pathParts_intercalate (hnames : ∀ name ∈ names, IsStep name ∧ '/' ∉ name.toList) :
    Script.pathParts ("/".intercalate names) = names := by
  by_cases hsome : names = []
  · subst hsome
    decide
  · have hparts := Text.parts_intercalate hsome fun name hname => (hnames name hname).2
    rw [Plan.pathParts_of_steps, hparts]
    rw [hparts]
    exact fun name hname => (hnames name hname).1

theorem intercalate_injective (hnames : ∀ name ∈ names, IsStep name ∧ '/' ∉ name.toList)
    (hnames' : ∀ name ∈ names', IsStep name ∧ '/' ∉ name.toList)
    (h : "/".intercalate names = "/".intercalate names') : names = names' := by
  rw [← pathParts_intercalate hnames, h, pathParts_intercalate hnames']

theorem groups_of_directory {locales : List String} {messagesDir : FilePath} {steps names : List String} {scan : Scan}
    (h : Scan.directory locales messagesDir steps names = .ok scan) :
    (scan.groups.map GroupFiles.path).Sublist ["/".intercalate steps] := by
  rw [Scan.directory] at h
  split at h
  · cases h
  · split at h
    · cases h
      exact List.nil_sublist _
    · cases h
      exact List.Sublist.refl _

theorem groups_of_directories {locales : List String} {messagesDir : FilePath} {top : Location}
    {places : List Location} {scans : List Scan}
    (h : places.mapM (fun place => Scan.directory locales messagesDir (place.drop top.length)
      (tree.fileNames place)) = .ok scans) :
    ((Scan.concat scans).groups.map GroupFiles.path).Sublist
      (places.map fun place => "/".intercalate (place.drop top.length)) := by
  rw [Outcome.mapM_eq_ok_iff] at h
  rw [Scan.concat]
  induction h with
  | nil => exact List.Sublist.refl _
  | cons hfirst _ ih =>
    rw [List.flatMap_cons, List.map_append, List.map_cons]
    exact (groups_of_directory hfirst).append ih

/-- The groups of a scan are called by the names that lead to directories. -/
theorem groups_of_ofDirectory {messagesDir : FilePath} {locales : List String} {scan : Scan}
    (h : Scan.ofDirectory tree messagesDir locales = .ok scan) :
    ∃ top, (scan.groups.map GroupFiles.path).Sublist
      ((tree.directoriesFrom top).map fun place => "/".intercalate (place.drop top.length)) := by
  rw [Scan.ofDirectory] at h
  split at h
  · cases h
  · rename_i top _
    split at h
    · obtain ⟨scans, hscans, h⟩ := Outcome.bind_eq_ok_iff.mp h
      cases h
      exact ⟨top, groups_of_directories hscans⟩
    · cases h

/-- The groups of a scan have different paths, which consist of names. -/
theorem paths_of_scan (htree : tree.WellFormed) {project : Project} {scan : Scan}
    (h : project.scan tree = .ok scan) :
    (scan.groups.map GroupFiles.path).Nodup ∧ ∀ group ∈ scan.groups, Plan.IsRelative group.path := by
  obtain ⟨top, hsublist⟩ := groups_of_ofDirectory h
  constructor
  · refine hsublist.nodup ((nodup_directoriesFrom htree.nodup top).map_on ?_)
    intro first hfirst second hsecond heq
    obtain ⟨names, rfl, hnames⟩ := htree.exists_names hfirst
    obtain ⟨names', rfl, hnames'⟩ := htree.exists_names hsecond
    rw [List.drop_left, List.drop_left] at heq
    rw [intercalate_injective hnames hnames' heq]
  · intro group hgroup
    obtain ⟨place, hplace, heq⟩ := List.mem_map.mp (hsublist.subset (List.mem_map_of_mem hgroup))
    obtain ⟨names, rfl, hnames⟩ := htree.exists_names hplace
    rw [List.drop_left] at heq
    rw [← heq]
    exact isRelative_intercalate hnames

end Project

end Phrasebook
