import Phrasebook.Proofs.Group.Exports
import Phrasebook.Proofs.Project.Writing

/-! # Planned files

The planned files have different paths when the groups have. One of them is in another's way exactly when a
group's directory goes through another group's module, and then a run stops with a part of the files written.
-/

namespace Phrasebook

theorem Text.parts_injective (separator : Char) : Function.Injective (Text.parts separator) := by
  intro first second h
  have hsplit := List.map_injective_iff.mpr (fun _ _ => String.ofList_injective) h
  have hjoin := congrArg (List.intercalate [separator]) hsplit
  rw [List.intercalate_splitOn, List.intercalate_splitOn] at hjoin
  exact String.toList_injective hjoin

namespace Plan

open FilePath (IsStep)
open Script (pathParts)

def IsRelative (group : String) : Prop := group = "" ∨ ∀ part ∈ Text.parts '/' group, IsStep part

instance (group : String) : Decidable (IsRelative group) := inferInstanceAs (Decidable (_ ∨ _))

/-- The directory of the second group goes through the module of the first. -/
def Obstructs (first second : String) : Prop := pathParts first ++ ["messages.ts"] <+: pathParts second

instance (first second : String) : Decidable (Obstructs first second) := inferInstanceAs (Decidable (_ <+: _))

section Paths

variable {group first second : String}

theorem pathParts_of_steps (h : ∀ part ∈ Text.parts '/' group, IsStep part) :
    pathParts group = Text.parts '/' group := by
  rw [pathParts, List.filter_eq_self]
  intro part hpart
  simpa [String.isEmpty_iff] using (h part hpart).ne_empty

theorem parts_ne_nil (separator : Char) (text : String) : Text.parts separator text ≠ [] := by
  rw [Text.parts, ne_eq, List.map_eq_nil_iff]
  exact List.splitOn_ne_nil separator text.toList

theorem isStep_of_mem_pathParts (h : IsRelative group) : ∀ part ∈ pathParts group, IsStep part := by
  rcases h with rfl | hsteps
  · decide
  · rw [pathParts_of_steps hsteps]
    exact hsteps

theorem pathParts_injective (hfirst : IsRelative first) (hsecond : IsRelative second)
    (h : pathParts first = pathParts second) : first = second := by
  have hroot : pathParts "" = [] := by decide
  rcases hfirst with rfl | hfirst
  · rcases hsecond with rfl | hsecond
    · rfl
    · rw [hroot, pathParts_of_steps hsecond] at h
      exact absurd h.symm (parts_ne_nil _ _)
  · rcases hsecond with rfl | hsecond
    · rw [hroot, pathParts_of_steps hfirst] at h
      exact absurd h (parts_ne_nil _ _)
    · rw [pathParts_of_steps hfirst, pathParts_of_steps hsecond] at h
      exact Text.parts_injective '/' h

theorem modulePath_injective (hfirst : IsRelative first) (hsecond : IsRelative second)
    (h : modulePath first = modulePath second) : first = second := by
  rw [modulePath, modulePath, FilePath.mk.injEq, List.cons.injEq, List.append_cancel_right_eq] at h
  exact pathParts_injective hfirst hsecond h.2

theorem isNamed_modulePath (h : IsRelative group) : (modulePath group).IsNamed := by
  refine ⟨List.cons_ne_nil _ _, List.forall_mem_cons.mpr ⟨by decide, List.forall_mem_append.mpr ⟨?_, by decide⟩⟩⟩
  exact isStep_of_mem_pathParts h

/-- One module's path goes through another one exactly when the directory of its group does. -/
theorem modulePath_prefix_iff (hfirst : IsRelative first) (hsecond : IsRelative second) :
    (modulePath first).parts <+: (modulePath second).parts ↔ first = second ∨ Obstructs first second := by
  rw [modulePath, modulePath, List.cons_prefix_cons, List.prefix_concat_iff]
  constructor
  · rintro ⟨-, heq | hfront⟩
    · exact .inl (pathParts_injective hfirst hsecond (List.append_cancel_right heq))
    · exact .inr hfront
  · rintro (rfl | hfront)
    · exact ⟨rfl, .inl rfl⟩
    · exact ⟨rfl, .inr hfront⟩

theorem ne_of_obstructs (h : Obstructs first second) : first ≠ second := by
  rintro rfl
  have hlength := h.length_le
  rw [List.length_append, List.length_singleton] at hlength
  omega

end Paths

def paths (groups : List Group) : List FilePath :=
  ⟨[Script.runtimeFile]⟩ :: (groups.map (fun group => modulePath group.path) ++ [⟨[Script.indexFile]⟩])

section Planned

variable {groups : List Group}

theorem forall_mem_paths {holds : FilePath → Prop} : (∀ path ∈ paths groups, holds path) ↔
    holds ⟨[Script.runtimeFile]⟩ ∧ (∀ group ∈ groups, holds (modulePath group.path)) ∧
      holds ⟨[Script.indexFile]⟩ := by
  rw [paths, List.forall_mem_cons, List.forall_mem_append, List.forall_mem_map, List.forall_mem_singleton]

theorem isNamed_paths (hrelative : ∀ group ∈ groups, IsRelative group.path) :
    ∀ path ∈ paths groups, path.IsNamed :=
  forall_mem_paths.mpr ⟨⟨by decide, by decide⟩, fun group hgroup => isNamed_modulePath (hrelative group hgroup),
    by decide, by decide⟩

theorem nodup_paths (hrelative : ∀ group ∈ groups, IsRelative group.path)
    (hgroups : (groups.map fun group => group.path).Nodup) : (paths groups).Nodup := by
  have hmodules : (groups.map fun group => modulePath group.path).Nodup := by
    rw [List.Nodup, List.pairwise_map] at hgroups ⊢
    refine hgroups.imp_of_mem fun hfirst hsecond hne heq => hne ?_
    exact modulePath_injective (hrelative _ hfirst) (hrelative _ hsecond) heq
  rw [paths, List.nodup_cons, List.nodup_append]
  refine ⟨?_, hmodules, List.nodup_singleton _, ?_⟩
  · simp [modulePath, Script.runtimeFile, Script.indexFile]
  · simp [modulePath, Script.indexFile]

/-- The first names of the shared module, of groups' modules and of the index are different. -/
theorem prefix_cases {path other : FilePath} (hpath : path ∈ paths groups) (hother : other ∈ paths groups)
    (hfront : path.parts <+: other.parts) : path = other ∨
      ∃ first ∈ groups, ∃ second ∈ groups, path = modulePath first.path ∧ other = modulePath second.path := by
  rw [paths, List.mem_cons, List.mem_append, List.mem_map, List.mem_singleton] at hpath hother
  rcases hpath with rfl | ⟨first, hfirst, rfl⟩ | rfl <;> rcases hother with rfl | ⟨second, hsecond, rfl⟩ | rfl
  case inr.inl.inr.inl => exact .inr ⟨first, hfirst, second, hsecond, rfl, rfl⟩
  all_goals simp_all [modulePath, Script.runtimeFile, Script.indexFile]

theorem clear_paths_iff (hrelative : ∀ group ∈ groups, IsRelative group.path) :
    (∀ path ∈ paths groups, ∀ other ∈ paths groups, path.parts <+: other.parts → path = other) ↔
      ∀ first ∈ groups, ∀ second ∈ groups, ¬Obstructs first.path second.path := by
  constructor
  · intro hclear first hfirst second hsecond hobstructs
    have hmem {group : Group} (hgroup : group ∈ groups) : modulePath group.path ∈ paths groups :=
      List.mem_cons_of_mem _ (List.mem_append_left _ (List.mem_map_of_mem hgroup))
    have hfront := (modulePath_prefix_iff (hrelative first hfirst) (hrelative second hsecond)).mpr (.inr hobstructs)
    have heq := hclear _ (hmem hfirst) _ (hmem hsecond) hfront
    exact ne_of_obstructs hobstructs (modulePath_injective (hrelative first hfirst) (hrelative second hsecond) heq)
  · intro hfree path hpath other hother hfront
    rcases prefix_cases hpath hother hfront with heq | ⟨first, hfirst, second, hsecond, rfl, rfl⟩
    · exact heq
    · have hcases := (modulePath_prefix_iff (hrelative first hfirst) (hrelative second hsecond)).mp hfront
      rcases hcases with heq | hobstructs
      · rw [heq]
      · exact absurd hobstructs (hfree first hfirst second hsecond)

theorem planned_eq {settings : Settings} {compiled : List Group.Compiled} {planned : List OutputFile}
    (hcompiled : groups.mapM (fun group => group.compile settings) = .ok compiled)
    (hplanned : files compiled settings = .ok planned) :
    planned.map (fun file => file.path) = paths groups ∧ ∃ rest, planned =
      ⟨⟨[Script.runtimeFile]⟩, Script.renderRuntime settings.locales settings.defaultLocale⟩ :: rest := by
  rw [files, Outcome.bind_eq_ok_iff] at hplanned
  obtain ⟨_, -, hplanned⟩ := hplanned
  cases hplanned
  refine ⟨?_, _, rfl⟩
  have hpaths := congrArg (List.map modulePath) (Group.paths_of_mapM_compile hcompiled)
  rw [List.map_map, List.map_map] at hpaths
  rw [List.map_cons, List.map_append, List.map_map]
  exact congrArg (fun modules => _ :: (modules ++ _)) hpaths

end Planned

end Plan

namespace Project

open FileTree

/-- Planned files have different paths, and all are written into an empty directory exactly when they fit and no
group's directory goes through another group's module. Where one does, the run stops with the shared module
written. -/
theorem writeFiles_planned_iff {groups : List Group} (hpaths : (groups.map fun group => group.path).Nodup)
    (hrelative : ∀ group ∈ groups, Plan.IsRelative group.path)
    {settings : Settings} {compiled : List Group.Compiled}
    (hcompiled : groups.mapM (fun group => group.compile settings) = .ok compiled)
    {planned : List OutputFile} (hplanned : Plan.files compiled settings = .ok planned)
    {tree : FileTree} {dir : FilePath} {top : Location} (hdir : tree.locate dir = .ok top)
    (hempty : IsEmptyAt tree top) :
    (planned.map fun file => file.path).Nodup ∧
      (IsClear planned ↔ ∀ first ∈ groups, ∀ second ∈ groups, ¬Plan.Obstructs first.path second.path) ∧
      ((∃ after written, writeFiles tree dir planned = (after, .ok written)) ↔
        Fits dir planned ∧ ∀ first ∈ groups, ∀ second ∈ groups, ¬Plan.Obstructs first.path second.path) ∧
      (∀ after written, writeFiles tree dir planned = (after, .ok written) →
        written = planned.map (fun file => dir.join file.path) ∧ Holds tree after top planned) ∧
      (Fits dir planned → (∃ first ∈ groups, ∃ second ∈ groups, Plan.Obstructs first.path second.path) →
        ∃ after error, writeFiles tree dir planned = (after, .error error) ∧
          after.node? (top ++ [Script.runtimeFile]) =
            some (.file (Script.renderRuntime settings.locales settings.defaultLocale).toUTF8)) := by
  obtain ⟨hplan, rest, hfirst⟩ := Plan.planned_eq hcompiled hplanned
  have hnodup : (planned.map fun file => file.path).Nodup := hplan ▸ Plan.nodup_paths hrelative hpaths
  have hnamed : ∀ file ∈ planned, file.path.IsNamed := by
    have hall := Plan.isNamed_paths hrelative
    rw [← hplan] at hall
    exact fun file hfile => hall file.path (List.mem_map_of_mem hfile)
  have hclear : IsClear planned ↔
      ∀ first ∈ groups, ∀ second ∈ groups, ¬Plan.Obstructs first.path second.path := by
    rw [← Plan.clear_paths_iff hrelative, ← hplan]
    simp only [IsClear, List.forall_mem_map]
  have hleads := leadsTo_of_locate hdir hempty.1
  have hwrite (hfits : Fits dir planned) (hfree : IsClear planned) :=
    exists_writeFiles_append hempty hleads (holds_nil tree top) hnamed hfits hnodup hfree
  refine ⟨hnodup, hclear, ⟨?_, ?_⟩, ?_, ?_⟩
  · rintro ⟨after, written, hrun⟩
    rw [← hclear]
    exact fits_of_writeFiles hempty hleads hnamed hrun
  · rintro ⟨hfits, hfree⟩
    obtain ⟨after, hrun, -⟩ := hwrite hfits (hclear.mpr hfree)
    exact ⟨after, _, hrun⟩
  · intro after written hrun
    obtain ⟨hfits, hfree⟩ := fits_of_writeFiles hempty hleads hnamed hrun
    obtain ⟨last, hlast, hholds⟩ := hwrite hfits hfree
    rw [hrun, Prod.mk.injEq, Except.ok.injEq] at hlast
    obtain ⟨rfl, rfl⟩ := hlast
    exact ⟨rfl, hholds⟩
  · rintro hfits ⟨first, hmem, second, hmem', hobstructs⟩
    cases hrun : writeFiles tree dir planned with
    | mk after outcome =>
      cases outcome with
      | ok written =>
        have hfree := hclear.mp (fits_of_writeFiles hempty hleads hnamed hrun).2
        exact absurd hobstructs (hfree first hmem second hmem')
      | error error =>
        subst hfirst
        have hleft := first_of_writeFiles hempty hleads hnamed hfits hnodup
        rw [hrun] at hleft
        exact ⟨after, error, rfl, hleft⟩

theorem isEmptyAt_empty : IsEmptyAt FileTree.empty [] :=
  ⟨rfl, fun names hsome => by rw [List.nil_append, node?, if_neg hsome]; rfl⟩

open Plan (twoGroups) in
theorem writeFiles_planned_two_groups :
    ∃ compiled planned after written,
      twoGroups.mapM (fun group => group.compile .initial) = .ok compiled ∧
      Plan.files compiled .initial = .ok planned ∧
      writeFiles FileTree.empty ⟨["", ""]⟩ planned = (after, .ok written) ∧
      Holds FileTree.empty after [] planned := by
  obtain ⟨planned, hrun⟩ : ∃ planned,
      (twoGroups.mapM (fun group => group.compile .initial) >>= fun compiled => Plan.files compiled .initial) =
        .ok planned :=
    Outcome.exists_eq_ok_of_toOption (by decide +kernel)
  obtain ⟨compiled, hcompiled, hplanned⟩ := Outcome.bind_eq_ok_iff.mp hrun
  have hfits : Fits ⟨["", ""]⟩ planned := by
    have hall : ∀ path ∈ planned.map fun file => file.path,
        accepts (FilePath.join ⟨["", ""]⟩ path) = true ∧ ∀ name ∈ path.parts, isStorable name = true := by
      rw [(Plan.planned_eq hcompiled hplanned).1]
      decide +kernel
    exact fun file hfile => hall file.path (List.mem_map_of_mem hfile)
  obtain ⟨-, -, hwritten, hholds, -⟩ := writeFiles_planned_iff (by decide) (by decide +kernel) hcompiled hplanned
    (show FileTree.empty.locate ⟨["", ""]⟩ = .ok [] by decide +kernel) isEmptyAt_empty
  obtain ⟨after, written, hok⟩ := hwritten.mpr ⟨hfits, by decide +kernel⟩
  exact ⟨compiled, planned, after, written, hcompiled, hplanned, hok, (hholds after written hok).2⟩

/-- A group at the top and one in a directory with the name of a module. -/
def obstructingGroups : List Group :=
  [⟨"", [("en", .object [("a", .string "x")])]⟩, ⟨"messages.ts", [("en", .object [("b", .string "y")])]⟩]

/-- The groups compile, and cannot be written. -/
theorem writeFiles_planned_obstructed :
    (obstructingGroups.map fun group => group.path).Nodup ∧
      (∀ group ∈ obstructingGroups, Plan.IsRelative group.path) ∧
      FileTree.empty.locate ⟨["", ""]⟩ = .ok [] ∧ IsEmptyAt FileTree.empty [] ∧
      ∃ compiled planned after error,
        obstructingGroups.mapM (fun group => group.compile .initial) = .ok compiled ∧
        Plan.files compiled .initial = .ok planned ∧
        writeFiles FileTree.empty ⟨["", ""]⟩ planned = (after, .error error) ∧
        (after.node? [Script.runtimeFile]).isSome = true := by
  refine ⟨by decide, by decide +kernel, by decide +kernel, isEmptyAt_empty, ?_⟩
  obtain ⟨planned, hrun, hwritten⟩ : ∃ planned,
      (obstructingGroups.mapM (fun group => group.compile .initial) >>= fun compiled =>
          Plan.files compiled .initial) = .ok planned ∧
        (match writeFiles FileTree.empty ⟨["", ""]⟩ planned with
          | (after, .error _) => (after.node? [Script.runtimeFile]).isSome
          | (_, .ok _) => false) = true :=
    Outcome.exists_eq_ok_of_any (by decide +kernel)
  obtain ⟨compiled, hcompiled, hplanned⟩ := Outcome.bind_eq_ok_iff.mp hrun
  cases houtcome : writeFiles FileTree.empty ⟨["", ""]⟩ planned with
  | mk after outcome =>
    rw [houtcome] at hwritten
    cases outcome with
    | ok written => cases hwritten
    | error error => exact ⟨compiled, planned, after, error, hcompiled, hplanned, houtcome, hwritten⟩

end Project

end Phrasebook
