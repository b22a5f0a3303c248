import Phrasebook.Proofs.Project.Loaded

/-! # Runs agree

Checking, compiling and loading groups go through the same files with different rules for stopping: a
compilation stops at the first group with a problem, a check goes on over groups that are not complete, and
loading looks at one group only. They agree on every project whose settings ask for complete groups.
-/

namespace Phrasebook.Project

open FileTree

section Lists

variable {α : Type} {check : α → Except Error GroupCheck} {compile : α → Except Error Group.Compiled}
variable {found : List α} {compiled : List Group.Compiled} {checks : List GroupCheck} {error : Error}

theorem exists_checks (hpair : ∀ files, Pair (check files) (compile files)) (h : found.mapM compile = .ok compiled) :
    ∃ checks, found.mapM check = .ok checks ∧ List.Forall₂ Agrees checks compiled ∧
      ∀ checked ∈ checks, checked.failure = none := by
  rw [Outcome.mapM_eq_ok_iff] at h
  induction h with
  | nil => exact ⟨[], rfl, .nil, by simp⟩
  | @cons files result _ _ hfirst _ ih =>
    obtain ⟨checks, hchecks, hagrees, hcomplete⟩ := ih
    have hgroup := hpair files
    rw [hfirst] at hgroup
    cases hresult : check files with
    | error error =>
      rw [hresult] at hgroup
      cases hgroup
    | ok checked =>
      rw [hresult] at hgroup
      cases hgroup with
      | compiled complete agrees =>
        refine ⟨checked :: checks, ?_, .cons agrees hagrees, List.forall_mem_cons.mpr ⟨complete, hcomplete⟩⟩
        rw [Outcome.mapM_eq_ok_iff] at hchecks ⊢
        exact .cons hresult hchecks

/-- A compilation that stops at a group that is not complete stops at the first one that the check reports. -/
theorem exists_failed (hpair : ∀ files, Pair (check files) (compile files)) (hcheck : found.mapM check = .ok checks)
    (h : found.mapM compile = .error error) (herror : error.isIncomplete = true) :
    ∃ group, (checks.filter fun group => group.failure.isSome).head? = some group ∧
      group.error? = some error := by
  rw [Outcome.mapM_eq_ok_iff] at hcheck
  induction hcheck with
  | nil =>
    rw [List.mapM_nil] at h
    cases h
  | @cons files checked _ checks hfirst _ ih =>
    have hgroup := hpair files
    rw [hfirst] at hgroup
    rw [List.mapM_cons, Outcome.bind_eq_error_iff] at h
    rcases h with hhere | ⟨result, hhere, h⟩
    · rw [hhere] at hgroup
      cases hgroup with
      | refused _ other =>
        rw [herror] at other
        cases other
      | incomplete failure =>
        have hsome : checked.failure.isSome = true := by
          rw [GroupCheck.error?] at failure
          exact Option.isSome_map ▸ Option.isSome_of_eq_some failure
        refine ⟨checked, ?_, failure⟩
        rw [List.filter_cons, if_pos hsome, List.head?_cons]
    · rw [hhere] at hgroup
      cases hgroup with
      | compiled complete _ =>
        rw [List.filter_cons_of_neg (by simp [complete])]
        rcases Outcome.bind_eq_error_iff.mp h with hrest | ⟨_, -, h⟩
        · exact ih hrest
        · cases h

end Lists

section Paths

theorem trimSlashes_of_isRelative {path : String} (h : Plan.IsRelative path) : trimSlashes path = path := by
  rcases h with rfl | hsteps
  · decide
  have hempty : [] ∉ path.toList.splitOn '/' := fun hmem =>
    (hsteps "" (List.mem_map.mpr ⟨[], hmem, rfl⟩)).ne_empty rfl
  -- a slash at an end of the path would leave an empty part beside it
  have hends {front back : List Char} (heq : path.toList = front ++ '/' :: back) : front ≠ [] ∧ back ≠ [] := by
    rw [heq, List.splitOn_append_cons_self, List.mem_append, not_or] at hempty
    constructor
    · rintro rfl
      exact hempty.1 List.mem_cons_self
    · rintro rfl
      exact hempty.2 List.mem_cons_self
  have hfront : path.toList.dropWhile (· = '/') = path.toList := by
    cases hchars : path.toList with
    | nil => rfl
    | cons c rest =>
      rw [List.dropWhile_cons_of_neg]
      intro hslash
      rw [of_decide_eq_true hslash] at hchars
      exact (hends hchars).1 rfl
  have hback : path.toList.reverse.dropWhile (· = '/') = path.toList.reverse := by
    rcases List.eq_nil_or_concat path.toList with hchars | ⟨front, c, hchars⟩
    · rw [hchars]
      rfl
    · rw [List.concat_eq_append] at hchars
      rw [hchars, List.reverse_concat, List.dropWhile_cons_of_neg]
      intro hslash
      rw [of_decide_eq_true hslash] at hchars
      exact (hends hchars).2 rfl
  rw [trimSlashes, hfront, hback, List.reverse_reverse, String.ofList_toList]

theorem loadGroup_of_mem {project : Project} {tree : FileTree} (htree : tree.WellFormed) {scan : Scan}
    (hscan : project.scan tree = .ok scan) {files : GroupFiles} (hfiles : files ∈ scan.groups) :
    project.loadGroup tree files.path =
      readGroup tree files >>= fun group => within files.name (Group.analyze group.documents) := by
  obtain ⟨hnodup, hrelative⟩ := paths_of_scan htree hscan
  have hfind : scan.groups.find? (fun group => group.path = files.path) = some files := by
    cases hfound : scan.groups.find? fun group => group.path = files.path with
    | none =>
      have hnone := List.find?_eq_none.mp hfound files hfiles
      simp at hnone
    | some found =>
      have hpath : found.path = files.path := by simpa using List.find?_some hfound
      rw [List.inj_on_of_nodup_map hnodup (List.mem_of_find?_eq_some hfound) hfiles hpath]
  rw [loadGroup, hscan, trimSlashes_of_isRelative (hrelative files hfiles)]
  simp only [bind, Except.bind, hfind]

end Paths

section Runs

variable {project : Project} {tree : FileTree} {compilation : Compilation} {check : Check} {error : Error}

theorem exists_prepare_of_compile (h : (project.compile tree).2 = .ok compilation) :
    ∃ planned, project.prepare tree = .ok (compilation.groups, compilation.ignored, planned) := by
  have hcompiles := project.compiles tree
  generalize project.compile tree = run at h hcompiles
  cases hcompiles with
  | unprepared => cases h
  | stopped => cases h
  | written hprepare =>
    cases h
    exact ⟨_, hprepare⟩

/-- A group that is not complete is found before anything is written. -/
theorem prepare_of_compile_incomplete (h : (project.compile tree).2 = .error error)
    (herror : error.isIncomplete = true) : project.prepare tree = .error error := by
  have hcompiles := project.compiles tree
  generalize project.compile tree = run at h hcompiles
  cases hcompiles with
  | unprepared hprepare =>
    cases h
    exact hprepare
  | stopped _ hwrite =>
    cases h
    obtain ⟨path, rfl⟩ := inaccessible_of_writeFiles hwrite
    cases herror
  | written => cases h

theorem exists_scan_of_prepare {groups : List Group.Compiled} {ignored : List LocaleFile}
    {planned : List OutputFile} (h : project.prepare tree = .ok (groups, ignored, planned)) :
    ∃ scan, project.scan tree = .ok scan ∧ scan.groups.mapM (project.compileGroup tree) = .ok groups ∧
      ignored = scan.ignored := by
  obtain ⟨scan, hscan, h⟩ := Outcome.bind_eq_ok_iff.mp h
  obtain ⟨compiled, hcompiled, h⟩ := Outcome.bind_eq_ok_iff.mp h
  obtain ⟨files, -, h⟩ := Outcome.bind_eq_ok_iff.mp h
  cases h
  exact ⟨scan, hscan, hcompiled, rfl⟩

/-- A group that is not complete stops the preparation, and nothing after it does. -/
theorem mapM_of_prepare_incomplete {scan : Scan} (hscan : project.scan tree = .ok scan)
    (h : project.prepare tree = .error error) (herror : error.isIncomplete = true) :
    scan.groups.mapM (project.compileGroup tree) = .error error := by
  rcases Outcome.bind_eq_error_iff.mp h with h | ⟨found, hfound, h⟩
  · rw [hscan] at h
    cases h
  rw [hscan] at hfound
  cases hfound
  rcases Outcome.bind_eq_error_iff.mp h with h | ⟨compiled, -, h⟩
  · exact h
  rcases Outcome.bind_eq_error_iff.mp h with h | ⟨_, -, h⟩
  · obtain ⟨problem, hproblem, rfl⟩ := Outcome.mapError_eq_error_iff.mp h
    rcases Outcome.bind_eq_error_iff.mp hproblem with hnames | ⟨_, -, hproblem⟩
    · have hother := Group.isIncomplete_of_checkNames hnames
      change problem.isIncomplete = true at herror
      rw [hother] at herror
      cases herror
    · cases hproblem
  · cases h

theorem check_eq_ok_iff :
    project.check tree = .ok check ↔ ∃ scan, project.scan tree = .ok scan ∧
      scan.groups.mapM (project.checkGroup tree) = .ok check.groups ∧ check.ignored = scan.ignored := by
  constructor
  · intro h
    obtain ⟨scan, hscan, h⟩ := Outcome.bind_eq_ok_iff.mp h
    obtain ⟨groups, hgroups, h⟩ := Outcome.bind_eq_ok_iff.mp h
    cases h
    exact ⟨scan, hscan, hgroups, rfl⟩
  · rintro ⟨scan, hscan, hgroups, hignored⟩
    refine Outcome.bind_eq_ok_iff.mpr ⟨scan, hscan, Outcome.bind_eq_ok_iff.mpr ⟨check.groups, hgroups, ?_⟩⟩
    rw [← hignored]
    rfl

theorem isValid_iff : check.isValid = true ↔ ∀ group ∈ check.groups, group.failure = none := by
  rw [Check.isValid, Check.failed, List.isEmpty_iff, List.filter_eq_nil_iff]
  simp

/-- A project that compiles passes its check, with the same groups and warnings. -/
theorem check_of_compile (hrequire : project.settings.requireComplete = true)
    (h : (project.compile tree).2 = .ok compilation) :
    ∃ check, project.check tree = .ok check ∧ check.isValid = true ∧ check.ignored = compilation.ignored ∧
      List.Forall₂ Agrees check.groups compilation.groups := by
  obtain ⟨planned, hprepare⟩ := exists_prepare_of_compile h
  obtain ⟨scan, hscan, hcompiled, hignored⟩ := exists_scan_of_prepare hprepare
  obtain ⟨checks, hchecks, hagrees, hcomplete⟩ := exists_checks (pair_group hrequire tree) hcompiled
  exact ⟨⟨checks, scan.ignored⟩, check_eq_ok_iff.mpr ⟨scan, hscan, hchecks, rfl⟩, isValid_iff.mpr hcomplete,
    hignored.symm, hagrees⟩

theorem loadGroup_of_compile (htree : tree.WellFormed) (h : (project.compile tree).2 = .ok compilation)
    {compiled : Group.Compiled} (hcompiled : compiled ∈ compilation.groups) :
    ∃ analysis, project.loadGroup tree compiled.path = .ok analysis ∧ analysis.catalog.size = compiled.size ∧
      analysis.counts = compiled.counts := by
  obtain ⟨planned, hprepare⟩ := exists_prepare_of_compile h
  obtain ⟨scan, hscan, hgroups, -⟩ := exists_scan_of_prepare hprepare
  obtain ⟨files, hfiles, hfirst⟩ := Outcome.exists_of_mem_mapM hgroups hcompiled
  obtain ⟨group, hread, hcompile⟩ := compileGroup_eq_ok_iff.mp hfirst
  obtain ⟨analysis, hanalysis, -, hassemble⟩ := Group.compile_eq_ok_iff.mp hcompile
  obtain ⟨hsize, hcounts⟩ := Group.counts_of_assemble hassemble
  have hpath : compiled.path = files.path := (Group.path_of_compile hcompile).trans (path_of_readGroup hread)
  refine ⟨analysis, ?_, hsize.symm, hcounts.symm⟩
  rw [hpath, loadGroup_of_mem htree hscan hfiles, hread]
  exact Outcome.mapError_eq_ok_iff.mpr hanalysis

/-- A compilation fails for a group that is not complete with what the check reports of the first such group. -/
theorem failed_of_compile (hrequire : project.settings.requireComplete = true)
    (hcheck : project.check tree = .ok check) (h : (project.compile tree).2 = .error error)
    (herror : error.isIncomplete = true) :
    ∃ group, check.failed.head? = some group ∧ group.error? = some error := by
  obtain ⟨scan, hscan, hchecks, -⟩ := check_eq_ok_iff.mp hcheck
  have hgroups := mapM_of_prepare_incomplete hscan (prepare_of_compile_incomplete h herror) herror
  exact exists_failed (pair_group hrequire tree) hchecks hgroups herror

/-- Compiling, checking and loading agree on every project whose settings ask for complete groups. -/
theorem compile_check_load_agree (project : Project) (hrequire : project.settings.requireComplete = true)
    {tree : FileTree} (htree : tree.WellFormed) :
    (∀ compilation, (project.compile tree).2 = .ok compilation →
      (∃ check, project.check tree = .ok check ∧ check.isValid = true ∧ check.ignored = compilation.ignored ∧
        List.Forall₂ Agrees check.groups compilation.groups) ∧
      ∀ compiled ∈ compilation.groups, ∃ analysis, project.loadGroup tree compiled.path = .ok analysis ∧
        analysis.catalog.size = compiled.size ∧ analysis.counts = compiled.counts) ∧
    (∀ check error, project.check tree = .ok check → (project.compile tree).2 = .error error →
      error.isIncomplete = true → ∃ group, check.failed.head? = some group ∧ group.error? = some error) ∧
    (∀ check error, project.check tree = .ok check → check.isValid = true →
      (project.compile tree).2 = .error error → error.isIncomplete = false) ∧
    ∀ error compilation, project.check tree = .error error → (project.compile tree).2 ≠ .ok compilation := by
  refine ⟨fun compilation h => ⟨check_of_compile hrequire h, fun compiled => loadGroup_of_compile htree h⟩,
    fun check error => failed_of_compile hrequire, ?_, ?_⟩
  · intro check error hcheck hvalid herror
    rw [← Bool.not_eq_true]
    intro hincomplete
    obtain ⟨group, hfailed, -⟩ := failed_of_compile hrequire hcheck herror hincomplete
    rw [List.isEmpty_iff.mp hvalid] at hfailed
    cases hfailed
  · intro error compilation hcheck hcompile
    obtain ⟨check, hok, -⟩ := check_of_compile hrequire hcompile
    rw [hcheck] at hok
    cases hok

def englishOnly : FileTree :=
  ⟨[(["messages"], .directory), (["messages", "en.json"], .file "\x7b\"a\": \"x\"\x7d".toUTF8)], []⟩

def bilingual : Settings := { Settings.initial with locales := ["en", "es"] }

/-- A group that is complete for its only locale, and not for two. -/
theorem compile_check_load_agree_two_locales :
    ∃ compilation check error,
      englishOnly.WellFormed ∧
      ((atTop .initial).compile englishOnly).2 = .ok compilation ∧
      (∃ check, (atTop .initial).check englishOnly = .ok check ∧ check.isValid = true ∧
        check.ignored = compilation.ignored ∧ List.Forall₂ Agrees check.groups compilation.groups) ∧
      ((atTop bilingual).compile englishOnly).2 = .error error ∧
      (atTop bilingual).check englishOnly = .ok check ∧
      ∃ group, check.failed.head? = some group ∧ group.error? = some error := by
  have hwell : englishOnly.WellFormed := ⟨by decide, by decide⟩
  obtain ⟨compilation, hcompiled⟩ : ∃ compilation, ((atTop .initial).compile englishOnly).2 = .ok compilation :=
    Outcome.exists_eq_ok_of_toOption (by decide +kernel)
  obtain ⟨error, herror, hincomplete⟩ :
      ∃ error, ((atTop bilingual).compile englishOnly).2 = .error error ∧ error.isIncomplete = true :=
    Outcome.exists_eq_error_of_match (by decide +kernel)
  obtain ⟨check, hcheck⟩ : ∃ check, (atTop bilingual).check englishOnly = .ok check :=
    Outcome.exists_eq_ok_of_toOption (by decide +kernel)
  obtain ⟨hagree, -⟩ := compile_check_load_agree (atTop .initial) rfl hwell
  obtain ⟨-, hfailed, -⟩ := compile_check_load_agree (atTop bilingual) rfl hwell
  exact ⟨compilation, check, error, hwell, hcompiled, (hagree compilation hcompiled).1, herror, hcheck,
    hfailed check error hcheck herror hincomplete⟩

end Runs

end Phrasebook.Project
