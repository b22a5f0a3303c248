import Phrasebook.Project.Check
import Phrasebook.Project.Compile
import Phrasebook.Proofs.Project.Scanned

/-! # What the runs do with one group

Checking and compiling read the documents of a group and analyze them alike, and ask the same of its catalog.
A group that is not complete is a result for the check and an error for the compilation; anything else that
stops the check stops the compilation with the same error.
-/

namespace Phrasebook

namespace Group

variable {group : Group} {settings : Settings} {analysis : Analysis} {compiled : Compiled} {problem : Problem}

theorem counts_of_assemble (h : group.assemble settings analysis = .ok compiled) :
    compiled.size = analysis.catalog.size ∧ compiled.counts = analysis.counts := by
  rw [assemble, Outcome.bind_eq_ok_iff] at h
  obtain ⟨_, -, h⟩ := h
  obtain ⟨_, -, h⟩ := Outcome.bind_eq_ok_iff.mp h
  cases h
  exact ⟨rfl, rfl⟩

theorem isIncomplete_of_analyze {documents : List (String × Json)} (h : analyze documents = .error problem) :
    problem.isIncomplete = false := by
  rcases Outcome.bind_eq_error_iff.mp h with h | ⟨_, -, h⟩
  · obtain ⟨⟨locale, document⟩, -, h⟩ := Outcome.exists_of_mapM_eq_error h
    rcases Outcome.bind_eq_error_iff.mp h with h | ⟨_, -, h⟩
    · rw [records] at h
      split at h
      · cases h
        rfl
      · cases h
    · cases h
  · cases h

theorem isIncomplete_of_checkNames {claims : List (String × String)} (h : checkNames claims = .error problem) :
    problem.isIncomplete = false := by
  rw [checkNames] at h
  split at h
  · cases h
  · cases h
    rfl

theorem isIncomplete_of_buildNamespace {path defaultLocale : String} {catalog : Message.Catalog}
    (h : buildNamespace path defaultLocale catalog = .error problem) : problem.isIncomplete = false := by
  obtain ⟨failure, -, rfl⟩ := Outcome.mapError_eq_error_iff.mp h
  cases failure <;> rfl

/-- After the check of its catalog, a group is not refused for being incomplete. -/
theorem isIncomplete_of_assemble (h : group.assemble settings analysis = .error problem) :
    problem.isIncomplete = false := by
  rw [assemble, Outcome.bind_eq_error_iff] at h
  rcases h with h | ⟨_, -, h⟩
  · exact isIncomplete_of_checkNames h
  rcases Outcome.bind_eq_error_iff.mp h with h | ⟨_, -, h⟩
  · cases hconst : namespaceConst? settings group.path with
    | none =>
      rw [hconst] at h
      cases h
    | some name =>
      rw [hconst, Option.mapM_some] at h
      cases hroot : buildNamespace group.path settings.defaultLocale analysis.catalog with
      | error cause =>
        rw [hroot] at h
        cases h
        exact isIncomplete_of_buildNamespace hroot
      | ok root =>
        rw [hroot] at h
        cases h
  · cases h

end Group

namespace Project

def atTop (settings : Settings) : Project := ⟨settings, ⟨["", Settings.fileName]⟩⟩

variable {project : Project} {tree : FileTree} {files : GroupFiles} {error : Error}

theorem isIncomplete_of_readDocument {path : FilePath} (h : readDocument tree path = .error error) :
    error.isIncomplete = false := by
  rcases Outcome.bind_eq_error_iff.mp h with h | ⟨text, -, h⟩
  · rw [readText] at h
    split at h
    · cases h
    · cases h
      rfl
  · rw [decodeDocument] at h
    split at h
    · cases h
      rfl
    · cases h
    · cases h
      rfl

theorem isIncomplete_of_readGroup (h : readGroup tree files = .error error) : error.isIncomplete = false := by
  rcases Outcome.bind_eq_error_iff.mp h with h | ⟨_, -, h⟩
  · obtain ⟨file, -, h⟩ := Outcome.exists_of_mapM_eq_error h
    rcases Outcome.bind_eq_error_iff.mp h with h | ⟨_, -, h⟩
    · exact isIncomplete_of_readDocument h
    · cases h
  · cases h

theorem path_of_readGroup {group : Group} (h : readGroup tree files = .ok group) : group.path = files.path := by
  obtain ⟨documents, -, h⟩ := Outcome.bind_eq_ok_iff.mp h
  cases h
  rfl

theorem compileGroup_eq_ok_iff {compiled : Group.Compiled} :
    project.compileGroup tree files = .ok compiled ↔
      ∃ group, readGroup tree files = .ok group ∧ group.compile project.settings = .ok compiled := by
  rw [compileGroup, Outcome.bind_eq_ok_iff]
  exact exists_congr fun group => and_congr_right fun _ => Outcome.mapError_eq_ok_iff

theorem exists_groups_of_compileGroup {found : List GroupFiles} {compiled : List Group.Compiled}
    (h : found.mapM (project.compileGroup tree) = .ok compiled) :
    ∃ groups : List Group, groups.map (fun group => group.path) = found.map GroupFiles.path ∧
      groups.mapM (fun group => group.compile project.settings) = .ok compiled := by
  rw [Outcome.mapM_eq_ok_iff] at h
  induction h with
  | nil => exact ⟨[], rfl, rfl⟩
  | cons hfirst _ ih =>
    obtain ⟨group, hread, hcompile⟩ := compileGroup_eq_ok_iff.mp hfirst
    obtain ⟨groups, hpaths, hrest⟩ := ih
    refine ⟨group :: groups, ?_, ?_⟩
    · rw [List.map_cons, List.map_cons, hpaths, path_of_readGroup hread]
    · rw [Outcome.mapM_eq_ok_iff] at hrest ⊢
      exact .cons hcompile hrest

/-- What comes of compiling a project, by what was prepared and written. -/
inductive Compiles (project : Project) (tree : FileTree) : FileTree × Except Error Compilation → Prop where
  | unprepared {error : Error} (prepare : project.prepare tree = .error error) :
    Compiles project tree (tree, .error error)
  | stopped {groups : List Group.Compiled} {ignored : List LocaleFile} {planned : List OutputFile}
    {after : FileTree} {error : Error} (prepare : project.prepare tree = .ok (groups, ignored, planned))
    (write : writeFiles tree project.outputDir planned = (after, .error error)) :
    Compiles project tree (after, .error error)
  | written {groups : List Group.Compiled} {ignored : List LocaleFile} {planned : List OutputFile}
    {after : FileTree} {written : List FilePath} (prepare : project.prepare tree = .ok (groups, ignored, planned))
    (write : writeFiles tree project.outputDir planned = (after, .ok written)) :
    Compiles project tree (after, .ok ⟨groups, ignored, written⟩)

theorem compiles (project : Project) (tree : FileTree) : project.Compiles tree (project.compile tree) := by
  unfold compile
  split
  · rename_i hprepare
    exact .unprepared hprepare
  · rename_i hprepare
    split
    · rename_i hwrite
      exact .written hprepare hwrite
    · rename_i hwrite
      exact .stopped hprepare hwrite

theorem compile_of_prepare_eq_error (h : project.prepare tree = .error error) :
    project.compile tree = (tree, .error error) := by
  have hcompiles := project.compiles tree
  generalize project.compile tree = run at hcompiles
  cases hcompiles with
  | unprepared hprepare =>
    rw [h] at hprepare
    cases hprepare
    rfl
  | stopped hprepare =>
    rw [h] at hprepare
    cases hprepare
  | written hprepare =>
    rw [h] at hprepare
    cases hprepare

theorem compile_of_writeFiles_eq_ok {groups : List Group.Compiled} {ignored : List LocaleFile}
    {planned : List OutputFile} {after : FileTree} {written : List FilePath}
    (h : project.prepare tree = .ok (groups, ignored, planned))
    (hwrite : writeFiles tree project.outputDir planned = (after, .ok written)) :
    project.compile tree = (after, .ok ⟨groups, ignored, written⟩) := by
  have hcompiles := project.compiles tree
  generalize project.compile tree = run at hcompiles
  cases hcompiles with
  | unprepared hprepare =>
    rw [h] at hprepare
    cases hprepare
  | stopped hprepare hstopped =>
    rw [h] at hprepare
    cases hprepare
    rw [hwrite] at hstopped
    cases hstopped
  | written hprepare hwritten =>
    rw [h] at hprepare
    cases hprepare
    rw [hwrite] at hwritten
    cases hwritten
    rfl

/-- A check and a compilation tell the same of a group. -/
structure Agrees (checked : GroupCheck) (compiled : Group.Compiled) : Prop where
  name : checked.name = compiled.name
  size : checked.size = compiled.size
  counts : checked.counts = compiled.counts

/-- What comes of checking a group and of compiling it. -/
inductive Pair : Except Error GroupCheck → Except Error Group.Compiled → Prop where
  /-- Neither gets to the messages. -/
  | stopped {error : Error} (other : error.isIncomplete = false) : Pair (.error error) (.error error)
  /-- The check reports what the compilation fails with. -/
  | incomplete {checked : GroupCheck} {error : Error} (failure : checked.error? = some error) :
    Pair (.ok checked) (.error error)
  /-- The group is complete, and its names cannot be used. -/
  | refused {checked : GroupCheck} {error : Error} (complete : checked.failure = none)
    (other : error.isIncomplete = false) : Pair (.ok checked) (.error error)
  | compiled {checked : GroupCheck} {compiled : Group.Compiled} (complete : checked.failure = none)
    (agrees : Agrees checked compiled) : Pair (.ok checked) (.ok compiled)

def checked (project : Project) (files : GroupFiles) (analysis : Group.Analysis) : GroupCheck where
  name := files.name
  size := analysis.catalog.size
  counts := analysis.counts
  failure :=
    match Completeness.check project.settings.locales project.settings.defaultLocale analysis.catalog with
    | .ok _ => none
    | .error failure => some failure

theorem checkGroup_eq_bind (project : Project) (tree : FileTree) (files : GroupFiles) :
    project.checkGroup tree files = readGroup tree files >>= fun group =>
      within files.name (Group.analyze group.documents) >>= fun analysis => .ok (project.checked files analysis) :=
  rfl

/-- Once a group is analyzed, checking and compiling go together. -/
theorem pair_analysis (project : Project) {group : Group} (hpath : group.path = files.path)
    (analysis : Group.Analysis) :
    Pair (.ok (project.checked files analysis))
      (within files.name (Group.checkComplete project.settings analysis.catalog >>= fun _ =>
        group.assemble project.settings analysis)) := by
  cases hcheck : Completeness.check project.settings.locales project.settings.defaultLocale analysis.catalog with
  | error failure =>
    rw [Group.checkComplete, hcheck]
    refine .incomplete ?_
    rw [GroupCheck.error?, checked, hcheck]
    rfl
  | ok _ =>
    rw [Group.checkComplete, hcheck]
    have hcomplete : (project.checked files analysis).failure = none := by
      rw [checked, hcheck]
    change Pair _ (within files.name (group.assemble project.settings analysis))
    cases hassemble : group.assemble project.settings analysis with
    | error problem => exact .refused hcomplete (Group.isIncomplete_of_assemble hassemble)
    | ok compiled =>
      obtain ⟨hsize, hcounts⟩ := Group.counts_of_assemble hassemble
      refine .compiled hcomplete ⟨?_, hsize.symm, hcounts.symm⟩
      rw [Group.Compiled.name, (Group.assemble_eq_ok hassemble).2.1, hpath]
      rfl

/-- Checking and compiling go together for every group. -/
theorem pair_group (hrequire : project.settings.requireComplete = true) (tree : FileTree) (files : GroupFiles) :
    Pair (project.checkGroup tree files) (project.compileGroup tree files) := by
  rw [checkGroup_eq_bind, compileGroup]
  cases hread : readGroup tree files with
  | error error => exact .stopped (isIncomplete_of_readGroup hread)
  | ok group =>
    change Pair (within files.name (Group.analyze group.documents) >>= fun analysis =>
      .ok (project.checked files analysis)) (within files.name (group.compile project.settings))
    rw [Group.compile_eq_bind]
    cases hanalysis : Group.analyze group.documents with
    | error problem => exact .stopped (Group.isIncomplete_of_analyze hanalysis)
    | ok analysis =>
      change Pair (.ok (project.checked files analysis)) (within files.name (if _ then _ else _))
      rw [if_pos hrequire]
      exact pair_analysis project (path_of_readGroup hread) analysis

end Project

end Phrasebook
