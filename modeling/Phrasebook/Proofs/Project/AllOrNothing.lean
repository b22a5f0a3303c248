import Phrasebook.CommandLine.Run
import Phrasebook.Proofs.FileTree.Change
import Phrasebook.Proofs.Project.Loaded

/-! # All or nothing

A compilation either fails before it writes, or writes all planned files, unless a file or directory turns out
to be inaccessible on the way. Where it ends well, each planned file holds its text, and nothing else has
changed but that directories around the files have been made.
-/

namespace Phrasebook

namespace Project

open FileTree
open FilePath (IsStep)

section Locations

variable {tree : FileTree} {dir first second : FilePath} {location : Location}

theorem eq_of_locate_join (hfirst : first.IsNamed) (hsecond : second.IsNamed)
    (h : tree.locate (dir.join first) = .ok location) (h' : tree.locate (dir.join second) = .ok location) :
    first = second := by
  obtain ⟨top, htop, -, hplace⟩ := exists_top_of_locate_join hfirst h
  obtain ⟨top', htop', -, hplace'⟩ := exists_top_of_locate_join hsecond h'
  have heq := htop.follow.symm.trans htop'.follow
  cases heq
  rw [hplace] at hplace'
  exact congrArg FilePath.mk (List.append_cancel_left hplace')

end Locations

section Write

variable {tree after : FileTree} {dir : FilePath} {files : List OutputFile} {written : List FilePath}

theorem changes_of_makeDirectories {path : FilePath} {next : FileTree} {done : Bool}
    (h : tree.makeDirectories (path.parent?.getD path) = (next, done)) : tree.Changes next [] path.parents := by
  have hchanges := changes_of_makeAmong h
  cases hparent : path.parent? with
  | none =>
    rw [hparent, Option.getD_none, FilePath.ancestors, List.takeWhile_cons, hparent] at hchanges
    exact hchanges.mono (List.Subset.refl _) (List.nil_subset _)
  | some parent =>
    rw [hparent, Option.getD_some] at hchanges
    refine hchanges.mono (List.Subset.refl _) ?_
    rw [FilePath.parents, hparent]
    simpa using (List.takeWhile_prefix _).subset

theorem exists_of_writeFiles_cons {file : OutputFile}
    (h : writeFiles tree dir (file :: files) = (after, .ok written)) :
    ∃ next rest, tree.Changes next [dir.join file.path] (dir.join file.path).parents ∧
      next.lookup? (dir.join file.path) = some (.file file.text.toUTF8) ∧
      writeFiles next dir files = (after, .ok rest) ∧ written = dir.join file.path :: rest := by
  rw [writeFiles] at h
  split at h
  · cases h
  · rename_i middle hmade
    split at h
    · cases h
    · rename_i next hwrite
      split at h
      · rename_i last rest hrest
        cases h
        obtain ⟨hchanges, hlookup⟩ := changes_of_write? hwrite
        refine ⟨next, rest, ?_, hlookup, hrest, rfl⟩
        simpa using (changes_of_makeDirectories hmade).trans hchanges
      · cases h

/-- A run that ends well has changed nothing but written files and directories around them. -/
theorem changes_of_writeFiles (h : writeFiles tree dir files = (after, .ok written)) :
    tree.Changes after written (written.flatMap FilePath.parents) := by
  induction files generalizing tree written with
  | nil =>
    cases h
    exact Changes.refl _ _ _
  | cons file files ih =>
    obtain ⟨next, rest, hchanges, -, hrest, rfl⟩ := exists_of_writeFiles_cons h
    exact hchanges.trans (ih hrest)

/-- Files at different paths all have their texts in the end. -/
theorem lookup?_of_writeFiles (hnamed : ∀ file ∈ files, file.path.IsNamed)
    (hnodup : (files.map fun file => file.path).Nodup)
    (h : writeFiles tree dir files = (after, .ok written)) :
    ∀ file ∈ files, after.lookup? (dir.join file.path) = some (.file file.text.toUTF8) := by
  induction files generalizing tree written with
  | nil => exact fun _ hmem => absurd hmem List.not_mem_nil
  | cons file files ih =>
    obtain ⟨hfirst, hnamed⟩ := List.forall_mem_cons.mp hnamed
    rw [List.map_cons, List.nodup_cons] at hnodup
    obtain ⟨next, rest, -, hlookup, hrest, -⟩ := exists_of_writeFiles_cons h
    refine List.forall_mem_cons.mpr ⟨?_, ih hnamed hnodup.2 hrest⟩
    have hchanges := changes_of_writeFiles hrest
    obtain ⟨location, hlocate, hfile⟩ := lookup?_eq_some_iff.mp hlookup
    have hstill := hchanges.keeps.locate hlocate
    refine lookup?_eq_some_iff.mpr ⟨location, hstill, ?_⟩
    rcases hchanges.node location with hsame | ⟨path, hpath, hplace⟩ | ⟨hmissing, -⟩
    · exact hsame.trans hfile
    · -- a later file at this location would have the same path
      rw [(written_of_writeFiles hrest).1] at hpath
      obtain ⟨other, hother, rfl⟩ := List.mem_map.mp hpath
      have heq := eq_of_locate_join hfirst (hnamed other hother) hstill hplace
      exact absurd (List.mem_map.mpr ⟨other, hother, heq.symm⟩) hnodup.1
    · rw [hmissing] at hfile
      cases hfile

end Write

/-- What a compilation that ends well has done: all planned files hold their texts, and nothing else has changed
but that directories around them have been made. -/
structure Completed (project : Project) (tree after : FileTree) (compilation : Compilation) : Prop where
  written : ∃ planned, project.prepare tree = .ok (compilation.groups, compilation.ignored, planned) ∧
    compilation.written = planned.map (fun file => project.outputDir.join file.path) ∧
    ∀ file ∈ planned, after.lookup? (project.outputDir.join file.path) = some (.file file.text.toUTF8)
  changes : tree.Changes after compilation.written (compilation.written.flatMap FilePath.parents)

section Compile

variable {project : Project} {tree after : FileTree} {compilation : Compilation} {error : Error}

theorem exists_groups_of_prepare (htree : tree.WellFormed) {groups : List Group.Compiled} {ignored : List LocaleFile}
    {planned : List OutputFile} (h : project.prepare tree = .ok (groups, ignored, planned)) :
    ∃ sources : List Group, planned.map (fun file => file.path) = Plan.paths sources ∧
      (sources.map fun group => group.path).Nodup ∧ ∀ group ∈ sources, Plan.IsRelative group.path := by
  obtain ⟨scan, hscan, h⟩ := Outcome.bind_eq_ok_iff.mp h
  obtain ⟨compiled, hcompiled, h⟩ := Outcome.bind_eq_ok_iff.mp h
  obtain ⟨files, hfiles, h⟩ := Outcome.bind_eq_ok_iff.mp h
  cases h
  obtain ⟨sources, hsources, hcompile⟩ := exists_groups_of_compileGroup hcompiled
  obtain ⟨hnodup, hrelative⟩ := paths_of_scan htree hscan
  have hplan := (Plan.planned_eq hcompile (Outcome.mapError_eq_ok_iff.mp hfiles)).1
  refine ⟨sources, hplan, hsources ▸ hnodup, fun group hgroup => ?_⟩
  obtain ⟨files, hmem, heq⟩ := List.mem_map.mp (hsources ▸ List.mem_map_of_mem hgroup)
  exact heq ▸ hrelative files hmem

theorem paths_of_prepare (htree : tree.WellFormed) {groups : List Group.Compiled} {ignored : List LocaleFile}
    {planned : List OutputFile} (h : project.prepare tree = .ok (groups, ignored, planned)) :
    (∀ file ∈ planned, file.path.IsNamed) ∧ (planned.map fun file => file.path).Nodup := by
  obtain ⟨sources, hplan, hnodup, hrelative⟩ := exists_groups_of_prepare htree h
  refine ⟨fun file hfile => ?_, hplan ▸ Plan.nodup_paths hrelative hnodup⟩
  exact Plan.isNamed_paths hrelative _ (hplan ▸ List.mem_map_of_mem hfile)

/-- A compilation that fails for any other reason than an inaccessible file has changed nothing. -/
theorem unchanged_of_compile (h : project.compile tree = (after, .error error))
    (herror : ∀ path, error ≠ .inaccessible path) : after = tree := by
  cases h ▸ project.compiles tree with
  | unprepared => rfl
  | stopped _ hwrite =>
    obtain ⟨path, rfl⟩ := inaccessible_of_writeFiles hwrite
    exact absurd rfl (herror path)

theorem completed_of_compile (htree : tree.WellFormed) (h : project.compile tree = (after, .ok compilation)) :
    project.Completed tree after compilation := by
  cases h ▸ project.compiles tree with
  | @written groups ignored planned written after hprepare hwrite =>
    obtain ⟨hnamed, hnodup⟩ := paths_of_prepare htree hprepare
    exact ⟨⟨planned, hprepare, (written_of_writeFiles hwrite).1, lookup?_of_writeFiles hnamed hnodup hwrite⟩,
      changes_of_writeFiles hwrite⟩

/-- A compile command that reports groups as not complete has changed nothing. -/
theorem unchanged_of_negative {styled : Bool} {request : CommandLine.CompileRequest}
    {outcome : CommandLine.Outcome} (h : CommandLine.compile styled request tree = (after, .ok outcome))
    (hstatus : outcome.status = .negative) : after = tree := by
  unfold CommandLine.compile at h
  split at h
  · cases h
  · split at h
    · cases h
      cases hstatus
    · rename_i hcompile
      split at h
      · rename_i hincomplete
        cases h
        refine unchanged_of_compile hcompile ?_
        rintro path rfl
        cases hincomplete
      · cases h

/-- A compilation does all or nothing, unless a file or directory is inaccessible. -/
theorem compile_all_or_nothing (project : Project) {tree : FileTree} (htree : tree.WellFormed) :
    (∀ after error, project.compile tree = (after, .error error) → (∀ path, error ≠ .inaccessible path) →
      after = tree) ∧
    (∀ after compilation, project.compile tree = (after, .ok compilation) →
      project.Completed tree after compilation) ∧
    ∀ styled request after outcome, CommandLine.compile styled request tree = (after, .ok outcome) →
      outcome.status = .negative → after = tree :=
  ⟨fun _ _ => unchanged_of_compile, fun _ _ => completed_of_compile htree, fun _ _ _ _ => unchanged_of_negative⟩

/-- A project with two locales and messages in one of them. -/
def halfTranslated : FileTree :=
  ⟨[ (["glider.config.json"], .file "\x7b\"locales\": [\"en\", \"es\"], \"defaultLocale\": \"en\"\x7d".toUTF8),
      (["messages"], .directory), (["messages", "en.json"], .file "\x7b\"a\": \"x\"\x7d".toUTF8) ], []⟩

def asConfigured : CommandLine.CompileRequest := ⟨none, false, none, none, false, false⟩

/-- A project that is written for its first locale alone, and is not complete for both. -/
theorem compile_all_or_nothing_two_locales :
    ∃ after compilation outcome,
      halfTranslated.WellFormed ∧
      (atTop .initial).compile halfTranslated = (after, .ok compilation) ∧ compilation.written.length = 3 ∧
      (atTop .initial).Completed halfTranslated after compilation ∧
      CommandLine.compile false asConfigured halfTranslated = (halfTranslated, .ok outcome) ∧
      outcome.status = .negative := by
  have hwell : halfTranslated.WellFormed := ⟨by decide, by decide⟩
  obtain ⟨after, compilation, hcompile, hlength⟩ : ∃ after compilation,
      (atTop .initial).compile halfTranslated = (after, .ok compilation) ∧
        decide (compilation.written.length = 3) = true :=
    Outcome.exists_run_of_any (by decide +kernel)
  obtain ⟨left, outcome, hrun, hstatus⟩ : ∃ left outcome,
      CommandLine.compile false asConfigured halfTranslated = (left, .ok outcome) ∧
        decide (outcome.status = .negative) = true :=
    Outcome.exists_run_of_any (by decide +kernel)
  obtain ⟨-, hcompleted, hunchanged⟩ := compile_all_or_nothing (atTop .initial) hwell
  have hleft : left = halfTranslated := hunchanged _ _ _ _ hrun (of_decide_eq_true hstatus)
  subst hleft
  exact ⟨after, compilation, outcome, hwell, hcompile, of_decide_eq_true hlength, hcompleted _ _ hcompile, hrun,
    of_decide_eq_true hstatus⟩

end Compile

end Project

end Phrasebook
