import Phrasebook.Proofs.FileTree.Change
import Phrasebook.Proofs.Project.Scanned

/-! # Scanning again

A scan is told by the directories of a tree and the documents in them. In a tree with more directories, in which
no document has come or gone, the groups and the ignored files are the same, unless the path of a new directory
is too long to be followed from the messages directory.
-/

namespace Phrasebook

open FilePath (IsStep)

/-! ## Documents -/

def FilePath.IsDocument (name : String) : Prop := (splitName name).2 = some "json"

instance (name : String) : Decidable (FilePath.IsDocument name) := inferInstanceAs (Decidable (_ = _))

theorem Text.intercalate_parts (name : String) : ".".intercalate (Text.parts '.' name) = name := by
  have hpoint : ".".toList = ['.'] := rfl
  have hparts : String.toList ∘ String.ofList = id := funext fun chars => String.toList_ofList
  refine String.toList_injective ?_
  rw [String.toList_intercalate, hpoint, Text.parts, List.map_map, hparts, List.map_id, List.intercalate_splitOn]

theorem FilePath.eq_of_splitName {name stem extension : String} (h : splitName name = (stem, some extension)) :
    name = stem ++ "." ++ extension := by
  rw [splitName] at h
  split at h
  · rename_i last first rest hparts
    dsimp only at h
    split at h
    · cases h
    · cases h
      rw [List.reverse_eq_cons_iff] at hparts
      rw [← Text.intercalate_parts name, hparts, String.intercalate_append_of_ne_nil (by simp) (by simp),
        String.intercalate_singleton]
  · cases h

theorem FilePath.IsDocument.isStep {name : String} (h : IsDocument name) : IsStep name := by
  constructor
  · rw [isBlank, Bool.or_eq_false_iff, decide_eq_false_iff_not, decide_eq_false_iff_not]
    constructor <;>
      · rintro rfl
        exact absurd h (by decide)
  · rintro rfl
    exact absurd h (by decide)

namespace Scan

section Documents

variable {dir : FilePath} {name name' : String} {names names' : List String} {file other : LocaleFile}

def documentFile? (dir : FilePath) (name : String) : Option LocaleFile :=
  match FilePath.splitName name with
  | (stem, some "json") => if FileTree.accepts (dir.child name) then some ⟨stem, dir.child name⟩ else none
  | _ => none

theorem documentFiles_eq (dir : FilePath) (names : List String) :
    documentFiles dir names =
      (names.filterMap (documentFile? dir)).mergeSort fun a b => decide (a.locale ≤ b.locale) := rfl

theorem documentFile?_eq_some (h : documentFile? dir name = some file) :
    FilePath.splitName name = (file.locale, some "json") ∧ file.path = dir.child name := by
  rw [documentFile?] at h
  split at h
  · rename_i stem hsplit
    split at h
    · cases h
      exact ⟨hsplit, rfl⟩
    · cases h
  · cases h

theorem isDocument_of_documentFile? (h : documentFile? dir name = some file) : FilePath.IsDocument name :=
  congrArg Prod.snd (documentFile?_eq_some h).1

theorem eq_of_locale_eq (hname : documentFile? dir name = some file) (hname' : documentFile? dir name' = some other)
    (hlocale : file.locale = other.locale) : name = name' ∧ file = other := by
  obtain ⟨hsplit, hpath⟩ := documentFile?_eq_some hname
  obtain ⟨hsplit', hpath'⟩ := documentFile?_eq_some hname'
  have heq : name = name' := by
    rw [FilePath.eq_of_splitName hsplit, FilePath.eq_of_splitName hsplit', hlocale]
  subst heq
  rw [hname, Option.some_inj] at hname'
  exact ⟨rfl, hname'⟩

theorem mem_documentFiles_iff :
    file ∈ documentFiles dir names ↔ ∃ name ∈ names, documentFile? dir name = some file := by
  rw [documentFiles_eq, List.mem_mergeSort, List.mem_filterMap]

theorem nodup_filterMap_documentFile? (dir : FilePath) (hnames : names.Nodup) :
    (names.filterMap (documentFile? dir)).Nodup :=
  List.pairwise_filterMap.mpr (hnames.imp fun hne _ hfile _ hother heq =>
    hne (eq_of_locale_eq hfile hother (congrArg LocaleFile.locale heq)).1)

/-- The document files of a directory are told by the names of documents in it, in any order. -/
theorem documentFiles_congr (hnames : names.Nodup) (hnames' : names'.Nodup)
    (h : ∀ name, FilePath.IsDocument name → (name ∈ names ↔ name ∈ names')) :
    documentFiles dir names = documentFiles dir names' := by
  have hperm : (names.filterMap (documentFile? dir)).Perm (names'.filterMap (documentFile? dir)) := by
    refine (List.perm_ext_iff_of_nodup (nodup_filterMap_documentFile? dir hnames)
      (nodup_filterMap_documentFile? dir hnames')).mpr fun file => ?_
    rw [List.mem_filterMap, List.mem_filterMap]
    refine exists_congr fun name => and_congr_left fun hfile => h name ?_
    exact isDocument_of_documentFile? hfile
  have hsorted (names : List String) :
      (documentFiles dir names).Pairwise fun a b => decide (a.locale ≤ b.locale) = true := by
    refine List.pairwise_mergeSort (fun a b c hfirst hsecond => ?_) (fun a b => ?_) _
    · exact decide_eq_true (String.le_trans (of_decide_eq_true hfirst) (of_decide_eq_true hsecond))
    · rw [Bool.or_eq_true, decide_eq_true_eq, decide_eq_true_eq]
      exact String.le_total a.locale b.locale
  -- the order of locales has no ties among the files of one directory
  refine List.Perm.eq_of_pairwise (fun file other hfile hother hle hle' => ?_) (hsorted names) (hsorted names')
    (((List.mergeSort_perm _ _).trans hperm).trans (List.mergeSort_perm _ _).symm)
  obtain ⟨name, -, hname⟩ := mem_documentFiles_iff.mp hfile
  obtain ⟨name', -, hname'⟩ := mem_documentFiles_iff.mp hother
  have hlocale := String.le_antisymm (of_decide_eq_true hle) (of_decide_eq_true hle')
  exact (eq_of_locale_eq hname hname' hlocale).2

end Documents

/-! ## Directories -/

section Directories

variable {tree next : FileTree} {messagesDir : FilePath} {locales : List String} {top : Location}

def contribution (locales : List String) (messagesDir : FilePath) (steps names : List String) : Scan :=
  match documentFiles (steps.foldl FilePath.child messagesDir) names with
  | [] => ⟨[], []⟩
  | found =>
    { groups := [⟨"/".intercalate steps, configured locales found⟩]
      ignored := unconfigured locales found }

theorem directory_eq (locales : List String) (messagesDir : FilePath) (steps names : List String) :
    directory locales messagesDir steps names =
      if !FileTree.accepts (steps.foldl FilePath.child messagesDir)
      then .error (.inaccessible (steps.foldl FilePath.child messagesDir))
      else .ok (contribution locales messagesDir steps names) := by
  rw [directory, contribution]
  split
  · rfl
  · cases documentFiles (steps.foldl FilePath.child messagesDir) names <;> rfl

theorem exists_locate_of_ofDirectory {scan : Scan} (h : ofDirectory tree messagesDir locales = .ok scan) :
    ∃ top, tree.locate messagesDir = .ok top ∧ tree.holdsDirectory top = true := by
  rw [ofDirectory] at h
  split at h
  · cases h
  · rename_i top hlocate
    split at h
    · rename_i htop
      exact ⟨top, hlocate, htop⟩
    · cases h

/-- The path of the first directory at or below a messages directory that is too long to be followed. -/
def unreachable? (tree : FileTree) (messagesDir : FilePath) : Option FilePath :=
  match tree.locate messagesDir with
  | .error _ => none
  | .ok top =>
    ((tree.directoriesFrom top).map fun place => (place.drop top.length).foldl FilePath.child messagesDir).find?
      fun dir => !FileTree.accepts dir

theorem concat_cons (scan : Scan) (scans : List Scan) :
    concat (scan :: scans) =
      ⟨scan.groups ++ (concat scans).groups, scan.ignored ++ (concat scans).ignored⟩ := by
  rw [concat, List.flatMap_cons, List.flatMap_cons]
  rfl

/-- Places that contribute nothing can be left out. -/
theorem concat_map_filter {α : Type} {found wanted : α → Scan} {keeps : α → Bool}
    (hsame : ∀ place, found place = wanted place) (hnothing : ∀ place, keeps place = false → wanted place = ⟨[], []⟩)
    (places : List α) : concat (places.map found) = concat ((places.filter keeps).map wanted) := by
  induction places with
  | nil => rfl
  | cons place places ih =>
    rw [List.map_cons, concat_cons, ih, hsame]
    cases hplace : keeps place with
    | true => rw [List.filter_cons_of_pos hplace, List.map_cons, concat_cons]
    | false =>
      rw [List.filter_cons_of_neg (by simp [hplace]), hnothing place hplace]
      rfl

theorem exists_of_unreachable? {dir : FilePath} (hnodup : (tree.entries.map (·.1)).Nodup)
    (hlocate : tree.locate messagesDir = .ok top) (htop : tree.holdsDirectory top = true)
    (h : unreachable? tree messagesDir = some dir) :
    FileTree.accepts dir = false ∧
      ∃ names, dir = names.foldl FilePath.child messagesDir ∧ tree.holdsDirectory (top ++ names) = true := by
  rw [unreachable?, hlocate] at h
  obtain ⟨place, hplace, rfl⟩ := List.mem_map.mp (List.mem_of_find?_eq_some h)
  obtain ⟨⟨names, rfl⟩, hdirectory⟩ := (FileTree.mem_directoriesFrom_iff hnodup htop).mp hplace
  have hrefused := List.find?_some h
  rw [Bool.not_eq_true'] at hrefused
  exact ⟨hrefused, names, by rw [List.drop_left], hdirectory⟩

theorem unreachable?_eq_none_iff (hnodup : (tree.entries.map (·.1)).Nodup)
    (hlocate : tree.locate messagesDir = .ok top) (htop : tree.holdsDirectory top = true) :
    unreachable? tree messagesDir = none ↔
      ∀ names, tree.holdsDirectory (top ++ names) = true →
        FileTree.accepts (names.foldl FilePath.child messagesDir) = true := by
  rw [unreachable?, hlocate]
  dsimp only
  rw [List.find?_eq_none, List.forall_mem_map]
  constructor
  · intro hall names hdirectory
    have hplace := (FileTree.mem_directoriesFrom_iff hnodup htop).mpr ⟨List.prefix_append top names, hdirectory⟩
    have haccepts := hall _ hplace
    rw [List.drop_left] at haccepts
    simpa using haccepts
  · intro hall place hplace
    obtain ⟨⟨names, rfl⟩, hdirectory⟩ := (FileTree.mem_directoriesFrom_iff hnodup htop).mp hplace
    rw [List.drop_left, hall names hdirectory]
    exact Bool.false_ne_true

def contributions (tree : FileTree) (messagesDir : FilePath) (locales : List String) (top : Location) :
    Scan :=
  concat ((tree.directoriesFrom top).map fun place =>
    contribution locales messagesDir (place.drop top.length) (tree.fileNames place))

/-- A scan ends at the first directory whose path is too long, or collects what all contribute. -/
theorem ofDirectory_eq (locales : List String) (hlocate : tree.locate messagesDir = .ok top)
    (hdirectory : tree.holdsDirectory top = true) :
    ofDirectory tree messagesDir locales =
      match unreachable? tree messagesDir with
      | some dir => .error (.inaccessible dir)
      | none => .ok (contributions tree messagesDir locales top) := by
  rw [ofDirectory, unreachable?, hlocate]
  dsimp only
  rw [if_pos hdirectory, contributions]
  simp only [directory_eq]
  rw [Outcome.mapM_ite, List.find?_map]
  simp only [Function.comp_def]
  cases (tree.directoriesFrom top).find? fun place =>
    !FileTree.accepts ((place.drop top.length).foldl FilePath.child messagesDir) <;> rfl

theorem exists_name_of_mem_groups {scan : Scan} (h : ofDirectory tree messagesDir locales = .ok scan)
    {group : GroupFiles} (hgroup : group ∈ scan.groups) :
    ∀ file ∈ group.files, ∃ dir name, file.path = FilePath.child dir name ∧ FilePath.IsDocument name := by
  obtain ⟨top, hlocate, htop⟩ := exists_locate_of_ofDirectory h
  rw [ofDirectory_eq locales hlocate htop] at h
  split at h
  · cases h
  · cases h
    obtain ⟨_, hmem, hgroup⟩ := List.mem_flatMap.mp hgroup
    obtain ⟨place, -, rfl⟩ := List.mem_map.mp hmem
    rw [contribution] at hgroup
    split at hgroup
    · cases hgroup
    · rename_i found hfound
      rw [List.mem_singleton] at hgroup
      subst hgroup
      intro file hfile
      obtain ⟨locale, -, hconfigured⟩ := List.mem_filterMap.mp hfile
      obtain ⟨name, -, hname⟩ := mem_documentFiles_iff.mp (List.mem_of_find?_eq_some hconfigured)
      exact ⟨_, name, (documentFile?_eq_some hname).2, isDocument_of_documentFile? hname⟩

end Directories

end Scan

/-! ## More directories -/

/-- There are the same documents, and everything else is a directory or a file still. -/
structure FileTree.KeepsDocuments (tree next : FileTree) : Prop where
  keeps : tree.Keeps next
  document : ∀ here name content, FilePath.IsDocument name →
    (next.node? (here ++ [name]) = some (.file content) ↔ tree.node? (here ++ [name]) = some (.file content))

namespace Scan

section Keeps

variable {tree next : FileTree} {dir messagesDir : FilePath} {locales : List String} {top place : Location}
variable (htree : (tree.entries.map (·.1)).Nodup) (hnext : (next.entries.map (·.1)).Nodup)

include htree hnext

theorem documentFiles_fileNames (h : tree.KeepsDocuments next) (dir : FilePath) (place : Location) :
    documentFiles dir (next.fileNames place) = documentFiles dir (tree.fileNames place) := by
  refine documentFiles_congr (FileTree.nodup_fileNames hnext place) (FileTree.nodup_fileNames htree place)
    fun name hname => ?_
  rw [FileTree.mem_fileNames_iff hnext, FileTree.mem_fileNames_iff htree]
  exact exists_congr fun content => h.document place name content hname

theorem contribution_fileNames (h : tree.KeepsDocuments next) (steps : List String) (place : Location) :
    contribution locales messagesDir steps (next.fileNames place) =
      contribution locales messagesDir steps (tree.fileNames place) := by
  rw [contribution, contribution, documentFiles_fileNames htree hnext h]

omit hnext in
theorem contribution_of_missing (hgrounded : tree.Grounded) (hplace : tree.holdsDirectory place = false)
    (steps : List String) : contribution locales messagesDir steps (tree.fileNames place) = ⟨[], []⟩ := by
  have hnames : tree.fileNames place = [] := by
    refine List.eq_nil_iff_forall_not_mem.mpr fun name hname => ?_
    obtain ⟨content, hnode⟩ := (FileTree.mem_fileNames_iff htree).mp hname
    rw [hgrounded.node?_eq_none hplace] at hnode
    cases hnode
  rw [hnames, contribution, documentFiles_eq, List.filterMap_nil, List.mergeSort_nil]

/-- New directories contribute nothing, and the others what they did. -/
theorem contributions_eq (h : tree.KeepsDocuments next) (hgrounded : tree.Grounded)
    (htop : tree.holdsDirectory top = true) :
    contributions next messagesDir locales top = contributions tree messagesDir locales top := by
  rw [contributions, contributions, ← FileTree.filter_directoriesFrom htree hnext h.keeps htop]
  exact concat_map_filter (fun place => contribution_fileNames htree hnext h _ place)
    (fun place hplace => contribution_of_missing htree hgrounded hplace _) _

/-- Where documents have neither come nor gone, a scan finds the same again, unless it meets a path that is too
long to be followed. -/
theorem ofDirectory_of_keepsDocuments (h : tree.KeepsDocuments next) (hgrounded : tree.Grounded) {scan : Scan}
    (hscan : ofDirectory tree messagesDir locales = .ok scan) :
    ofDirectory next messagesDir locales =
      match unreachable? next messagesDir with
      | some dir => .error (.inaccessible dir)
      | none => .ok scan := by
  obtain ⟨top, hlocate, htop⟩ := exists_locate_of_ofDirectory hscan
  rw [ofDirectory_eq locales hlocate htop] at hscan
  rw [ofDirectory_eq locales (h.keeps.locate hlocate) (h.keeps.holdsDirectory htop),
    contributions_eq htree hnext h hgrounded htop]
  split at hscan
  · cases hscan
  · rw [hscan]

/-- A path that is too long for a scan after an earlier one belongs to a directory that was not there. -/
theorem exists_missing_of_unreachable? (h : tree.KeepsDocuments next) {scan : Scan}
    (hscan : ofDirectory tree messagesDir locales = .ok scan) (hdir : unreachable? next messagesDir = some dir) :
    FileTree.accepts dir = false ∧ ∃ top names, tree.locate messagesDir = .ok top ∧
      dir = names.foldl FilePath.child messagesDir ∧ next.holdsDirectory (top ++ names) = true ∧
      tree.holdsDirectory (top ++ names) = false := by
  obtain ⟨top, hlocate, htop⟩ := exists_locate_of_ofDirectory hscan
  obtain ⟨hrefused, names, rfl, hdirectory⟩ :=
    exists_of_unreachable? hnext (h.keeps.locate hlocate) (h.keeps.holdsDirectory htop) hdir
  refine ⟨hrefused, top, names, hlocate, rfl, hdirectory, ?_⟩
  cases hold : tree.holdsDirectory (top ++ names) with
  | false => rfl
  | true =>
    rw [ofDirectory_eq locales hlocate htop] at hscan
    split at hscan
    · cases hscan
    · rename_i hall
      rw [(unreachable?_eq_none_iff htree hlocate htop).mp hall names hold] at hrefused
      cases hrefused

end Keeps

end Scan

end Phrasebook
