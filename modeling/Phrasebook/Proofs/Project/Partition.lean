import Mathlib.Data.List.Perm.Basic
import Phrasebook.Proofs.Group.Gaps
import Phrasebook.Proofs.Project.Recompiled

/-! # The parts of a scan

A scan visits the directories in the order of the names that lead to them. Each that holds document files gives
one group, and each document file ends up in the group of its directory or among the ignored files, by its
locale. Only the length of paths stands in the way: a document file whose path is too long to be followed is not
seen, and the first directory whose path is too long ends the scan.
-/

namespace Phrasebook

open FilePath (IsStep)

/-! ## Directories by their names -/

theorem FilePath.foldl_child (dir : FilePath) {names : List String} (hnames : ∀ name ∈ names, IsStep name)
    (hsome : names ≠ []) : names.foldl child dir = ⟨base dir ++ names⟩ := by
  induction names using List.reverseRecOn with
  | nil => exact absurd rfl hsome
  | append_singleton front name ih =>
    have hname := hnames name (List.mem_append_right _ (List.mem_singleton_self _))
    rw [List.foldl_concat, child, join_step _ hname]
    by_cases hfront : front = []
    · subst hfront
      rfl
    · have hsteps : ∀ name ∈ front, IsStep name := fun name hmem => hnames name (List.mem_append_left _ hmem)
      have hbase : base (front.foldl child dir) = base dir ++ front := by
        rw [ih hsteps hfront, base, if_neg]
        intro hlast
        rw [List.getLast?_append_of_ne_nil _ hfront] at hlast
        exact (hsteps "" (List.mem_of_getLast? hlast)).ne_empty rfl
      rw [hbase, List.append_assoc]

/-- Different names lead from a directory to different paths. -/
theorem FilePath.foldl_child_injective (dir : FilePath) {names names' : List String}
    (hnames : ∀ name ∈ names, IsStep name) (hnames' : ∀ name ∈ names', IsStep name) (hsome : names ≠ [])
    (hsome' : names' ≠ []) (h : names.foldl child dir = names'.foldl child dir) : names = names' := by
  rw [foldl_child dir hnames hsome, foldl_child dir hnames' hsome', mk.injEq] at h
  exact List.append_cancel_left h

namespace FileTree

variable {tree : FileTree} {top : Location} {names : List String}

/-- The names that lead from a directory to those at or below it, in the order of the directories. -/
def namesBelow (tree : FileTree) (top : Location) : List (List String) :=
  (tree.directoriesFrom top).map fun place => place.drop top.length

theorem mem_namesBelow_iff (hnodup : (tree.entries.map (·.1)).Nodup) (htop : tree.holdsDirectory top = true) :
    names ∈ tree.namesBelow top ↔ tree.holdsDirectory (top ++ names) = true := by
  rw [namesBelow, List.mem_map]
  constructor
  · rintro ⟨place, hplace, rfl⟩
    obtain ⟨⟨more, rfl⟩, hdirectory⟩ := (mem_directoriesFrom_iff hnodup htop).mp hplace
    rw [List.drop_left]
    exact hdirectory
  · intro hdirectory
    exact ⟨top ++ names, (mem_directoriesFrom_iff hnodup htop).mpr ⟨List.prefix_append _ _, hdirectory⟩, List.drop_left⟩

theorem WellFormed.of_mem_namesBelow (h : tree.WellFormed) (hmem : names ∈ tree.namesBelow top) :
    ∀ name ∈ names, IsStep name ∧ '/' ∉ name.toList := by
  obtain ⟨place, hplace, rfl⟩ := List.mem_map.mp hmem
  obtain ⟨more, rfl, hsteps⟩ := h.exists_names hplace
  rw [List.drop_left]
  exact hsteps

theorem isUpTo_append_left (top first second : Location) :
    isUpTo (top ++ first) (top ++ second) = isUpTo first second := by
  induction top with
  | nil => rfl
  | cons name top ih => rw [List.cons_append, List.cons_append, isUpTo, if_pos rfl, ih]

theorem lex_of_isUpTo {first second : Location} (hne : first ≠ second) (h : isUpTo first second = true) :
    List.Lex (· < ·) first second := by
  by_contra hnot
  exact hne (isUpTo_antisymm first second h ((isUpTo_iff second first).mpr hnot))

theorem pairwise_namesBelow (hnodup : (tree.entries.map (·.1)).Nodup) (htop : tree.holdsDirectory top = true) :
    (tree.namesBelow top).Pairwise (List.Lex (· < ·)) := by
  have hsorted : (tree.directoriesFrom top).Pairwise fun first second => isUpTo first second = true :=
    List.pairwise_mergeSort isUpTo_trans isUpTo_total _
  rw [namesBelow, List.pairwise_map]
  refine List.Pairwise.imp_of_mem ?_ (hsorted.and (nodup_directoriesFrom hnodup top))
  rintro first second hfirst hsecond ⟨hupto, hne⟩
  obtain ⟨⟨names, rfl⟩, -⟩ := (mem_directoriesFrom_iff hnodup htop).mp hfirst
  obtain ⟨⟨names', rfl⟩, -⟩ := (mem_directoriesFrom_iff hnodup htop).mp hsecond
  rw [List.drop_left, List.drop_left]
  rw [isUpTo_append_left] at hupto
  exact lex_of_isUpTo (fun heq => hne (congrArg _ heq)) hupto

theorem nodup_namesBelow (hnodup : (tree.entries.map (·.1)).Nodup) (htop : tree.holdsDirectory top = true) :
    (tree.namesBelow top).Nodup := by
  refine (pairwise_namesBelow hnodup htop).imp ?_
  rintro names _ hlex rfl
  exact List.lt_irrefl names hlex

end FileTree

namespace Scan

/-! ## The files of one directory -/

section Documents

variable {dir : FilePath} {name : String} {names locales : List String} {file : LocaleFile} {found : List LocaleFile}

theorem documentFile?_eq_some_iff :
    documentFile? dir name = some file ↔ FilePath.splitName name = (file.locale, some "json") ∧
      file.path = dir.child name ∧ FileTree.accepts file.path = true := by
  rw [documentFile?]
  constructor
  · intro h
    split at h
    · rename_i stem hsplit
      obtain ⟨haccepts, heq⟩ := Option.ite_none_right_eq_some.mp h
      cases heq
      exact ⟨hsplit, rfl, haccepts⟩
    · cases h
  · rintro ⟨hsplit, hpath, haccepts⟩
    rw [hpath] at haccepts
    rw [hsplit]
    exact (if_pos haccepts).trans (by rw [← hpath])

theorem nodup_locales_documentFiles (dir : FilePath) (hnames : names.Nodup) :
    ((documentFiles dir names).map LocaleFile.locale).Nodup := by
  rw [documentFiles_eq, ((List.mergeSort_perm _ _).map _).nodup_iff, List.Nodup, List.pairwise_map,
    List.pairwise_filterMap]
  refine hnames.imp fun hne file hfile other hother heq => hne ?_
  exact (eq_of_locale_eq hfile hother heq).1

theorem of_find?_locale {locale : String} (h : (found.find? fun file => file.locale = locale) = some file) :
    file ∈ found ∧ file.locale = locale := by
  have hlocale := List.find?_some h
  exact ⟨List.mem_of_find?_eq_some h, of_decide_eq_true hlocale⟩

theorem find?_locale_eq_some_iff (hfound : (found.map LocaleFile.locale).Nodup) {locale : String} :
    (found.find? fun file => file.locale = locale) = some file ↔ file ∈ found ∧ file.locale = locale := by
  refine ⟨of_find?_locale, ?_⟩
  rintro ⟨hmem, rfl⟩
  obtain ⟨other, hother⟩ : ∃ other, (found.find? fun other => other.locale = file.locale) = some other := by
    rw [← Option.isSome_iff_exists, List.find?_isSome]
    exact ⟨file, hmem, decide_eq_true rfl⟩
  obtain ⟨hmem', hlocale⟩ := of_find?_locale hother
  rw [hother, List.inj_on_of_nodup_map hfound hmem' hmem hlocale]

theorem mem_configured_iff (hfound : (found.map LocaleFile.locale).Nodup) :
    file ∈ configured locales found ↔ file ∈ found ∧ file.locale ∈ locales := by
  rw [configured, List.mem_filterMap]
  constructor
  · rintro ⟨locale, hlocale, h⟩
    obtain ⟨hmem, rfl⟩ := (find?_locale_eq_some_iff hfound).mp h
    exact ⟨hmem, hlocale⟩
  · rintro ⟨hmem, hlocale⟩
    exact ⟨_, hlocale, (find?_locale_eq_some_iff hfound).mpr ⟨hmem, rfl⟩⟩

theorem mem_unconfigured_iff : file ∈ unconfigured locales found ↔ file ∈ found ∧ file.locale ∉ locales := by
  rw [unconfigured, List.mem_filter, Bool.not_eq_true', List.contains_eq_mem, decide_eq_false_iff_not]

theorem locales_configured_sublist (locales : List String) (found : List LocaleFile) :
    ((configured locales found).map LocaleFile.locale).Sublist locales := by
  have hsublist : ((configured locales found).map LocaleFile.locale).Sublist (locales.map id) :=
    Completeness.map_filterMap_sublist (fun _ _ h => (of_find?_locale h).2) locales
  rwa [List.map_id] at hsublist

theorem configured_append_unconfigured_perm (hlocales : locales.Nodup)
    (hfound : (found.map LocaleFile.locale).Nodup) :
    (configured locales found ++ unconfigured locales found).Perm found := by
  have hconfigured : (configured locales found).Nodup :=
    ((locales_configured_sublist locales found).nodup hlocales).of_map _
  have hunconfigured : (unconfigured locales found).Nodup := List.filter_sublist.nodup (hfound.of_map _)
  have hdisjoint : ∀ file ∈ configured locales found, ∀ other ∈ unconfigured locales found, file ≠ other := by
    rintro file hfile _ hother rfl
    exact (mem_unconfigured_iff.mp hother).2 ((mem_configured_iff hfound).mp hfile).2
  refine (List.perm_ext_iff_of_nodup (List.nodup_append.mpr ⟨hconfigured, hunconfigured, hdisjoint⟩)
    (hfound.of_map _)).mpr fun file => ?_
  rw [List.mem_append, mem_configured_iff hfound, mem_unconfigured_iff, ← and_or_left]
  exact and_iff_left (em _)

end Documents

/-! ## All directories -/

section Directories

variable {tree : FileTree} {messagesDir : FilePath} {locales : List String} {top : Location}

/-- The file is the document of its locale in the directory that names lead to from the messages directory, and its
path can be followed. -/
def FindsDocument (tree : FileTree) (messagesDir : FilePath) (top : Location) (names : List String)
    (file : LocaleFile) : Prop :=
  ∃ name content, tree.node? (top ++ names ++ [name]) = some (.file content) ∧
    FilePath.splitName name = (file.locale, some "json") ∧
    file.path = (names.foldl FilePath.child messagesDir).child name ∧ FileTree.accepts file.path = true

/-- The path of a document gives back its locale. -/
theorem FindsDocument.localeOf?_eq {names : List String} {file : LocaleFile}
    (h : FindsDocument tree messagesDir top names file) : LocaleFile.localeOf? file.path = some file.locale := by
  obtain ⟨name, -, -, hsplit, hpath, -⟩ := h
  have hstep : IsStep name := FilePath.IsDocument.isStep (congrArg Prod.snd hsplit)
  rw [LocaleFile.localeOf?, hpath, FilePath.stem?_child _ hstep, hsplit]

def found (tree : FileTree) (messagesDir : FilePath) (top : Location) (names : List String) : List LocaleFile :=
  documentFiles (names.foldl FilePath.child messagesDir) (tree.fileNames (top ++ names))

theorem mem_found_iff (hnodup : (tree.entries.map (·.1)).Nodup) {names : List String} {file : LocaleFile} :
    file ∈ found tree messagesDir top names ↔ FindsDocument tree messagesDir top names file := by
  rw [found, mem_documentFiles_iff]
  simp only [FileTree.mem_fileNames_iff hnodup, documentFile?_eq_some_iff, FindsDocument, exists_and_right]

theorem nodup_locales_found (hnodup : (tree.entries.map (·.1)).Nodup) (names : List String) :
    ((found tree messagesDir top names).map LocaleFile.locale).Nodup :=
  nodup_locales_documentFiles _ (FileTree.nodup_fileNames hnodup _)

def groupOf (tree : FileTree) (messagesDir : FilePath) (locales : List String) (top : Location)
    (names : List String) : GroupFiles :=
  ⟨"/".intercalate names, configured locales (found tree messagesDir top names)⟩

theorem contribution_fileNames_eq (names : List String) :
    contribution locales messagesDir names (tree.fileNames (top ++ names)) =
      { groups :=
          if (found tree messagesDir top names).isEmpty then [] else [groupOf tree messagesDir locales top names]
        ignored := unconfigured locales (found tree messagesDir top names) } := by
  rw [contribution, groupOf, found]
  cases documentFiles (names.foldl FilePath.child messagesDir) (tree.fileNames (top ++ names)) <;> rfl

theorem contributions_eq_concat (hnodup : (tree.entries.map (·.1)).Nodup) (htop : tree.holdsDirectory top = true) :
    contributions tree messagesDir locales top =
      concat ((tree.namesBelow top).map fun names =>
        contribution locales messagesDir names (tree.fileNames (top ++ names))) := by
  rw [contributions, FileTree.namesBelow, List.map_map]
  congr 1
  refine List.map_congr_left fun place hplace => ?_
  obtain ⟨⟨names, rfl⟩, -⟩ := (FileTree.mem_directoriesFrom_iff hnodup htop).mp hplace
  rw [Function.comp_apply, List.drop_left]

/-- There is a group for each directory with document files, in the order of the directories. -/
theorem groups_contributions (hnodup : (tree.entries.map (·.1)).Nodup) (htop : tree.holdsDirectory top = true) :
    (contributions tree messagesDir locales top).groups =
      ((tree.namesBelow top).filter fun names => !(found tree messagesDir top names).isEmpty).map
        (groupOf tree messagesDir locales top) := by
  rw [contributions_eq_concat hnodup htop, concat]
  dsimp only
  induction tree.namesBelow top with
  | nil => rfl
  | cons names rest ih =>
    rw [List.map_cons, List.flatMap_cons, ih, contribution_fileNames_eq, List.filter_cons]
    cases (found tree messagesDir top names).isEmpty <;> rfl

theorem ignored_contributions (hnodup : (tree.entries.map (·.1)).Nodup) (htop : tree.holdsDirectory top = true) :
    (contributions tree messagesDir locales top).ignored =
      (tree.namesBelow top).flatMap fun names => unconfigured locales (found tree messagesDir top names) := by
  rw [contributions_eq_concat hnodup htop, concat]
  dsimp only
  rw [List.flatMap_map]
  simp only [contribution_fileNames_eq]

theorem files_contributions (hnodup : (tree.entries.map (·.1)).Nodup) (htop : tree.holdsDirectory top = true) :
    (contributions tree messagesDir locales top).groups.flatMap GroupFiles.files =
      (tree.namesBelow top).flatMap fun names => configured locales (found tree messagesDir top names) := by
  rw [groups_contributions hnodup htop, List.flatMap_map]
  induction tree.namesBelow top with
  | nil => rfl
  | cons names rest ih =>
    rw [List.filter_cons, List.flatMap_cons, ← ih]
    cases hfound : found tree messagesDir top names with
    | nil =>
      have hnone : configured locales [] = [] := List.filterMap_eq_nil_iff.mpr fun _ _ => rfl
      rw [hnone]
      rfl
    | cons file files =>
      rw [List.isEmpty_cons, Bool.not_false, if_pos rfl, List.flatMap_cons, groupOf, hfound]

/-- Every document file that is found is in one group or ignored. -/
theorem files_append_ignored_perm (hnodup : (tree.entries.map (·.1)).Nodup) (htop : tree.holdsDirectory top = true)
    (hlocales : locales.Nodup) :
    ((contributions tree messagesDir locales top).groups.flatMap GroupFiles.files ++
        (contributions tree messagesDir locales top).ignored).Perm
      ((tree.namesBelow top).flatMap (found tree messagesDir top)) := by
  rw [files_contributions hnodup htop, ignored_contributions hnodup htop]
  refine (List.flatMap_append_perm _ _ _).trans (List.Perm.flatMap_left _ fun names _ => ?_)
  exact configured_append_unconfigured_perm hlocales (nodup_locales_found hnodup names)

theorem nodup_paths_found (htree : tree.WellFormed) (htop : tree.holdsDirectory top = true) :
    (((tree.namesBelow top).flatMap (found tree messagesDir top)).map LocaleFile.path).Nodup := by
  have hpath {names : List String} {file : LocaleFile} (hnames : names ∈ tree.namesBelow top)
      (hfile : file ∈ found tree messagesDir top names) :
      ∃ name, FilePath.splitName name = (file.locale, some "json") ∧
        file.path = (names ++ [name]).foldl FilePath.child messagesDir ∧ ∀ step ∈ names ++ [name], IsStep step := by
    obtain ⟨name, content, -, hsplit, hpath, -⟩ := (mem_found_iff htree.nodup).mp hfile
    refine ⟨name, hsplit, by rw [hpath, List.foldl_concat], fun step hstep => ?_⟩
    rcases List.mem_append.mp hstep with hstep | hstep
    · exact (htree.of_mem_namesBelow hnames step hstep).1
    · rw [List.mem_singleton.mp hstep]
      exact FilePath.IsDocument.isStep (congrArg Prod.snd hsplit)
  have hsame {names names' : List String} {file file' : LocaleFile} (hnames : names ∈ tree.namesBelow top)
      (hnames' : names' ∈ tree.namesBelow top) (hfile : file ∈ found tree messagesDir top names)
      (hfile' : file' ∈ found tree messagesDir top names') (heq : file.path = file'.path) :
      names = names' ∧ file.locale = file'.locale := by
    obtain ⟨name, hsplit, hfirst, hsteps⟩ := hpath hnames hfile
    obtain ⟨name', hsplit', hsecond, hsteps'⟩ := hpath hnames' hfile'
    rw [hfirst, hsecond] at heq
    have happend := FilePath.foldl_child_injective messagesDir hsteps hsteps' (by simp) (by simp) heq
    obtain ⟨hfront, hlast⟩ := List.append_inj' happend rfl
    cases hlast
    rw [hsplit, Prod.mk.injEq] at hsplit'
    exact ⟨hfront, hsplit'.1⟩
  rw [List.map_flatMap, List.nodup_flatMap]
  constructor
  · intro names hnames
    refine List.Nodup.map_on (fun file hfile file' hfile' heq => ?_) ((nodup_locales_found htree.nodup names).of_map _)
    exact List.inj_on_of_nodup_map (nodup_locales_found htree.nodup names) hfile hfile'
      (hsame hnames hnames hfile hfile' heq).2
  · refine List.Pairwise.imp_of_mem ?_ (FileTree.nodup_namesBelow htree.nodup htop)
    intro names names' hnames hnames' hne path hfirst hsecond
    obtain ⟨file, hfile, rfl⟩ := List.mem_map.mp hfirst
    obtain ⟨file', hfile', heq⟩ := List.mem_map.mp hsecond
    exact hne (hsame hnames hnames' hfile hfile' heq.symm).1

/-- The first directory whose path cannot be followed, in the order of the names that lead there. -/
theorem unreachable?_eq_some_of_first (hnodup : (tree.entries.map (·.1)).Nodup)
    (hlocate : tree.locate messagesDir = .ok top) (htop : tree.holdsDirectory top = true) {names : List String}
    (hdirectory : tree.holdsDirectory (top ++ names) = true)
    (hrefused : FileTree.accepts (names.foldl FilePath.child messagesDir) = false)
    (hearlier : ∀ earlier, tree.holdsDirectory (top ++ earlier) = true → List.Lex (· < ·) earlier names →
      FileTree.accepts (earlier.foldl FilePath.child messagesDir) = true) :
    unreachable? tree messagesDir = some (names.foldl FilePath.child messagesDir) := by
  have hfind : unreachable? tree messagesDir =
      ((tree.namesBelow top).map fun names => names.foldl FilePath.child messagesDir).find?
        fun dir => !FileTree.accepts dir := by
    rw [unreachable?, hlocate, FileTree.namesBelow, List.map_map]
    rfl
  obtain ⟨before, after, hbelow⟩ := List.append_of_mem ((FileTree.mem_namesBelow_iff hnodup htop).mpr hdirectory)
  have horder := FileTree.pairwise_namesBelow hnodup htop
  rw [hbelow] at horder
  rw [hfind, hbelow, List.map_append, List.map_cons]
  refine List.find?_eq_some_iff_append.mpr ⟨by simp [hrefused], _, _, rfl, ?_⟩
  rw [List.forall_mem_map]
  intro earlier hmem
  have hpresent : earlier ∈ tree.namesBelow top := hbelow ▸ List.mem_append_left _ hmem
  have haccepts := hearlier earlier ((FileTree.mem_namesBelow_iff hnodup htop).mp hpresent)
    ((List.pairwise_append.mp horder).2.2 earlier hmem names List.mem_cons_self)
  simp [haccepts]

/-- Each document file at or below a messages directory is in the group of its directory if its locale is configured,
and ignored if not. -/
structure Partitions (tree : FileTree) (messagesDir : FilePath) (locales : List String) (top : Location)
    (scan : Scan) : Prop where
  directories : ∀ names, (∃ group ∈ scan.groups, Script.pathParts group.path = names) ↔
    tree.holdsDirectory (top ++ names) = true ∧ ∃ file, FindsDocument tree messagesDir top names file
  path : ∀ group ∈ scan.groups, group.path = "/".intercalate (Script.pathParts group.path)
  order : scan.groups.Pairwise fun first second =>
    List.Lex (· < ·) (Script.pathParts first.path) (Script.pathParts second.path)
  members : ∀ group ∈ scan.groups, ∀ file, file ∈ group.files ↔
    FindsDocument tree messagesDir top (Script.pathParts group.path) file ∧ file.locale ∈ locales
  sorted : ∀ group ∈ scan.groups, (group.files.map LocaleFile.locale).Sublist locales
  distinct : ∀ group ∈ scan.groups, (group.files.map LocaleFile.locale).Nodup
  ignored : ∀ file, file ∈ scan.ignored ↔
    (∃ names, tree.holdsDirectory (top ++ names) = true ∧ FindsDocument tree messagesDir top names file) ∧
      file.locale ∉ locales
  once : ((scan.groups.flatMap GroupFiles.files ++ scan.ignored).map LocaleFile.path).Nodup
  named : ∀ file ∈ scan.groups.flatMap GroupFiles.files ++ scan.ignored,
    LocaleFile.localeOf? file.path = some file.locale

theorem partitions_contributions (htree : tree.WellFormed) (htop : tree.holdsDirectory top = true)
    (hlocales : locales.Nodup) :
    Partitions tree messagesDir locales top (contributions tree messagesDir locales top) := by
  have hgroups (group : GroupFiles) : group ∈ (contributions tree messagesDir locales top).groups ↔
      ∃ names, (tree.holdsDirectory (top ++ names) = true ∧ ∃ file, FindsDocument tree messagesDir top names file) ∧
        group = groupOf tree messagesDir locales top names := by
    rw [groups_contributions htree.nodup htop, List.mem_map]
    refine exists_congr fun names => and_congr ?_ eq_comm
    rw [List.mem_filter, FileTree.mem_namesBelow_iff htree.nodup htop, Bool.not_eq_true',
      List.isEmpty_eq_false_iff_exists_mem]
    simp only [mem_found_iff htree.nodup]
  have hparts {names : List String} (hdirectory : tree.holdsDirectory (top ++ names) = true) :
      Script.pathParts (groupOf tree messagesDir locales top names).path = names :=
    Project.pathParts_intercalate
      (htree.of_mem_namesBelow ((FileTree.mem_namesBelow_iff htree.nodup htop).mpr hdirectory))
  refine ⟨fun names => ?_, ?_, ?_, ?_, ?_, ?_, fun file => ?_, ?_, fun file hfile => ?_⟩
  · constructor
    · rintro ⟨group, hgroup, rfl⟩
      obtain ⟨names, hnames, rfl⟩ := (hgroups group).mp hgroup
      rw [hparts hnames.1]
      exact hnames
    · intro hnames
      exact ⟨_, (hgroups _).mpr ⟨names, hnames, rfl⟩, hparts hnames.1⟩
  · intro group hgroup
    obtain ⟨names, hnames, rfl⟩ := (hgroups group).mp hgroup
    rw [hparts hnames.1]
    rfl
  · rw [groups_contributions htree.nodup htop, List.pairwise_map]
    refine List.Pairwise.imp_of_mem ?_ ((FileTree.pairwise_namesBelow htree.nodup htop).filter _)
    intro first second hfirst hsecond hlex
    rw [hparts ((FileTree.mem_namesBelow_iff htree.nodup htop).mp (List.mem_of_mem_filter hfirst)),
      hparts ((FileTree.mem_namesBelow_iff htree.nodup htop).mp (List.mem_of_mem_filter hsecond))]
    exact hlex
  · intro group hgroup file
    obtain ⟨names, hnames, rfl⟩ := (hgroups group).mp hgroup
    rw [hparts hnames.1, ← mem_found_iff htree.nodup]
    exact mem_configured_iff (nodup_locales_found htree.nodup names)
  · intro group hgroup
    obtain ⟨names, -, rfl⟩ := (hgroups group).mp hgroup
    exact locales_configured_sublist _ _
  · intro group hgroup
    obtain ⟨names, -, rfl⟩ := (hgroups group).mp hgroup
    exact (locales_configured_sublist _ _).nodup hlocales
  · rw [ignored_contributions htree.nodup htop, List.mem_flatMap]
    simp only [mem_unconfigured_iff, FileTree.mem_namesBelow_iff htree.nodup htop, mem_found_iff htree.nodup]
    constructor
    · rintro ⟨names, hdirectory, hfile, hlocale⟩
      exact ⟨⟨names, hdirectory, hfile⟩, hlocale⟩
    · rintro ⟨⟨names, hdirectory, hfile⟩, hlocale⟩
      exact ⟨names, hdirectory, hfile, hlocale⟩
  · exact (((files_append_ignored_perm htree.nodup htop hlocales).map _).nodup_iff).mpr (nodup_paths_found htree htop)
  · have hfound := (files_append_ignored_perm htree.nodup htop hlocales).mem_iff.mp hfile
    obtain ⟨names, -, hnames⟩ := List.mem_flatMap.mp hfound
    exact ((mem_found_iff htree.nodup).mp hnames).localeOf?_eq

/-- A scan of a present messages directory sorts the document files by directory and locale when the path of every
directory can be followed. Otherwise it ends at the first directory, in the order of their names, whose path
cannot. -/
theorem ofDirectory_partitions (htree : tree.WellFormed) (hlocales : locales.Nodup)
    (hlocate : tree.locate messagesDir = .ok top) (htop : tree.holdsDirectory top = true) :
    ((∀ names, tree.holdsDirectory (top ++ names) = true →
        FileTree.accepts (names.foldl FilePath.child messagesDir) = true) →
      ∃ scan, ofDirectory tree messagesDir locales = .ok scan ∧ Partitions tree messagesDir locales top scan) ∧
    ∀ names, tree.holdsDirectory (top ++ names) = true →
      FileTree.accepts (names.foldl FilePath.child messagesDir) = false →
      (∀ earlier, tree.holdsDirectory (top ++ earlier) = true → List.Lex (· < ·) earlier names →
        FileTree.accepts (earlier.foldl FilePath.child messagesDir) = true) →
      ofDirectory tree messagesDir locales = .error (.inaccessible (names.foldl FilePath.child messagesDir)) := by
  rw [ofDirectory_eq locales hlocate htop]
  constructor
  · intro haccepts
    rw [(unreachable?_eq_none_iff htree.nodup hlocate htop).mpr haccepts]
    exact ⟨_, rfl, partitions_contributions htree htop hlocales⟩
  · intro names hdirectory hrefused hearlier
    rw [unreachable?_eq_some_of_first htree.nodup hlocate htop hdirectory hrefused hearlier]

/-- Directories whose names are in another order than their texts. -/
def siblings : FileTree :=
  ⟨[ (["m"], .directory), (["m", "a-b"], .directory), (["m", "a-b", "en.json"], .file .empty),
      (["m", "a"], .directory), (["m", "a", "en.json"], .directory), (["m", "a", "c"], .directory),
      (["m", "a", "c", "fr.json"], .file .empty), (["m", "a", "c", "en.json"], .file .empty) ], []⟩

/-- A directory named like a document is none, and a file of another locale makes a group as well. Spelled with many
points, the directory is followed and the first one below it is not. -/
theorem ofDirectory_partitions_siblings :
    siblings.WellFormed ∧ ["en"].Nodup ∧ siblings.locate ⟨["m"]⟩ = .ok ["m"] ∧
      siblings.holdsDirectory ["m"] = true ∧
      ∃ scan, ofDirectory siblings ⟨["m"]⟩ ["en"] = .ok scan ∧ Partitions siblings ⟨["m"]⟩ ["en"] ["m"] scan ∧
        (∃ group ∈ scan.groups, Script.pathParts group.path = ["a", "c"]) ∧
        ⟨"fr", ⟨["m", "a", "c", "fr.json"]⟩⟩ ∈ scan.ignored ∧
      ofDirectory siblings (FilePath.pointed 2046 ["m"]) ["en"] =
        .error (.inaccessible (FilePath.pointed 2046 ["m", "a"])) := by
  have htree : siblings.WellFormed := ⟨by decide, by decide⟩
  have hlocales : ["en"].Nodup := by decide
  have hlocate : siblings.locate ⟨["m"]⟩ = .ok ["m"] := by decide
  have htop : siblings.holdsDirectory ["m"] = true := by decide
  have hentry {names : List String} (hdirectory : siblings.holdsDirectory (["m"] ++ names) = true) :
      (["m"] ++ names, .directory) ∈ siblings.entries := by
    rw [FileTree.holdsDirectory_iff, FileTree.node?, if_neg (by simp)] at hdirectory
    exact FileTree.mem_of_lookup hdirectory
  have haccepts (names : List String) (hdirectory : siblings.holdsDirectory (["m"] ++ names) = true) :
      FileTree.accepts (names.foldl FilePath.child ⟨["m"]⟩) = true := by
    have hall : ∀ entry ∈ siblings.entries, FileTree.accepts (entry.1.tail.foldl FilePath.child ⟨["m"]⟩) = true := by
      decide
    exact hall _ (hentry hdirectory)
  have hpointed : FileTree.accepts (FilePath.pointed 2046 ["m"]) = true :=
    (Project.accepts_pointed_iff _ _).mpr ⟨by decide, by decide⟩
  have hchild : ["a"].foldl FilePath.child (FilePath.pointed 2046 ["m"]) = FilePath.pointed 2046 ["m", "a"] := by
    rw [List.foldl_cons, List.foldl_nil]
    exact Project.child_pointed (by decide) rfl (by decide)
  have hrefused : FileTree.accepts (FilePath.pointed 2046 ["m", "a"]) = false :=
    Bool.eq_false_iff.mpr fun h => absurd ((Project.accepts_pointed_iff _ _).mp h).1 (by decide)
  have hearlier (earlier : List String) (hdirectory : siblings.holdsDirectory (["m"] ++ earlier) = true)
      (hlex : List.Lex (· < ·) earlier ["a"]) :
      FileTree.accepts (earlier.foldl FilePath.child (FilePath.pointed 2046 ["m"])) = true := by
    have hall : ∀ entry ∈ siblings.entries, entry.1.tail < ["a"] → entry.1.tail = [] := by decide
    rw [show earlier = [] from hall _ (hentry hdirectory) hlex]
    exact hpointed
  have hlocate' := Project.locate_pointed hpointed (by simp) (show siblings.follow [] ["m"] = .ok ["m"] by decide)
  have hstopped := (ofDirectory_partitions htree hlocales hlocate' htop).2 ["a"] (by decide)
    ((congrArg FileTree.accepts hchild).trans hrefused) hearlier
  rw [hchild] at hstopped
  obtain ⟨scan, hscan, hpartitions⟩ := (ofDirectory_partitions htree hlocales hlocate htop).1 haccepts
  have hfrench : FindsDocument siblings ⟨["m"]⟩ ["m"] ["a", "c"] ⟨"fr", ⟨["m", "a", "c", "fr.json"]⟩⟩ :=
    ⟨"fr.json", .empty, rfl, by decide, rfl, by decide⟩
  exact ⟨htree, hlocales, hlocate, htop, scan, hscan, hpartitions,
    (hpartitions.directories ["a", "c"]).mpr ⟨by decide, _, hfrench⟩,
    (hpartitions.ignored _).mpr ⟨⟨["a", "c"], by decide, hfrench⟩, by decide⟩, hstopped⟩

/-- A messages directory whose path is followed, with a document whose path is too long. -/
theorem ofDirectory_misses_document :
    Project.oneDocument.WellFormed ∧ ["en"].Nodup ∧
      Project.oneDocument.locate (FilePath.pointed 2046 ["m"]) = .ok ["m"] ∧
      Project.oneDocument.holdsDirectory ["m"] = true ∧
      Project.oneDocument.node? ["m", "en.json"] = some (.file Project.oneText.toUTF8) ∧
      FilePath.splitName "en.json" = ("en", some "json") ∧
      ofDirectory Project.oneDocument (FilePath.pointed 2046 ["m"]) ["en"] = .ok ⟨[], []⟩ := by
  have haccepts : FileTree.accepts (FilePath.pointed 2046 ["m"]) = true :=
    (Project.accepts_pointed_iff _ _).mpr ⟨by decide, by decide⟩
  have hrefused : ¬FileTree.accepts (FilePath.pointed 2046 ["m", "en.json"]) = true :=
    fun h => absurd ((Project.accepts_pointed_iff _ _).mp h).1 (by decide)
  have hlocate : Project.oneDocument.locate (FilePath.pointed 2046 ["m"]) = .ok ["m"] :=
    Project.locate_pointed haccepts (by simp) (by decide)
  have hchild : (FilePath.pointed 2046 ["m"]).child "en.json" = FilePath.pointed 2046 ["m", "en.json"] :=
    Project.child_pointed (by decide) rfl (by decide)
  have hbelow : Project.oneDocument.directoriesFrom ["m"] = [["m"]] := by decide +kernel
  have hnames : Project.oneDocument.fileNames ["m"] = ["en.json"] := by decide
  have hnone : documentFile? (FilePath.pointed 2046 ["m"]) "en.json" = none := by
    refine Option.eq_none_iff_forall_ne_some.mpr fun file hfile => hrefused ?_
    obtain ⟨-, hpath, hfollowed⟩ := documentFile?_eq_some_iff.mp hfile
    rw [← hchild, ← hpath]
    exact hfollowed
  have hreached : unreachable? Project.oneDocument (FilePath.pointed 2046 ["m"]) = none := by
    rw [unreachable?, hlocate]
    dsimp only
    rw [hbelow, List.find?_eq_none]
    simp [haccepts]
  have hempty : documentFiles (FilePath.pointed 2046 ["m"]) ["en.json"] = [] := by
    rw [documentFiles_eq, List.filterMap_cons, hnone, List.filterMap_nil, List.mergeSort_nil]
  refine ⟨Project.wellFormed_oneDocument, by decide, hlocate, by decide, rfl, by decide, ?_⟩
  rw [ofDirectory_eq _ hlocate (by decide), hreached, contributions, hbelow, List.map_cons, List.map_nil]
  dsimp only
  rw [List.drop_length, hnames, contribution, List.foldl_nil, hempty]
  rfl

end Directories

end Scan

end Phrasebook
