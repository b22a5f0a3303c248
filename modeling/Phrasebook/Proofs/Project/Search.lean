import Mathlib.Data.List.Infix
import Phrasebook.Project.Basic
import Phrasebook.Proofs.FileTree.Contents

/-! # Search for the settings file

The search looks at a directory and at those around it, up to the top, each once. It finds the settings file of
the nearest one that has it, unless it comes to the top of a repository before. A directory can hold both, and
then its settings file is found. What stands at a path that is too long to be followed is not seen, whether it is
a settings file or marks a repository.
-/

namespace Phrasebook

namespace FilePath

variable {names : Location} {name : String}

theorem ofLocation_concat (names : Location) (name : String) :
    ofLocation (names ++ [name]) = ⟨"" :: (names ++ [name])⟩ := by
  simp [ofLocation]

theorem child_ofLocation (hnames : ∀ part ∈ names, IsStep part) (hname : IsStep name) :
    (ofLocation names).child name = ofLocation (names ++ [name]) := by
  rw [child, join_step _ hname, ofLocation_concat]
  rcases List.eq_nil_or_concat names with rfl | ⟨front, last, rfl⟩
  · rfl
  · rw [List.concat_eq_append] at hnames ⊢
    have hlast : last ≠ "" := (hnames last (by simp)).ne_empty
    have hbase : base (ofLocation (front ++ [last])) = "" :: (front ++ [last]) := by
      rw [ofLocation_concat, base, if_neg]
      rw [← List.cons_append, List.getLast?_concat, Option.some_inj]
      exact hlast
    rw [hbase]
    rfl

theorem ancestors_ofLocation_concat (hnames : ∀ part ∈ names, IsStep part) (hname : IsStep name) :
    (ofLocation (names ++ [name])).ancestors = ofLocation (names ++ [name]) :: (ofLocation names).ancestors := by
  rcases List.eq_nil_or_concat names with rfl | ⟨front, last, rfl⟩
  · have hparent : parent? ⟨[""] ++ [name]⟩ = some ⟨["", ""]⟩ := parent?_append_step [""] hname
    have htop : around 1 ⟨["", ""]⟩ = [] := rfl
    change ⟨[""] ++ [name]⟩ :: around 2 ⟨[""] ++ [name]⟩ = _
    rw [around, hparent]
    dsimp only
    rw [htop]
    rfl
  · rw [List.concat_eq_append] at hnames ⊢
    rw [ofLocation_concat, ofLocation_concat]
    exact ancestors_append_step ("" :: front) (hnames last (by simp)) hname

/-- The directories around a directory are those on the way to it, nearest first. -/
theorem ancestors_ofLocation (hnames : ∀ part ∈ names, IsStep part) :
    (ofLocation names).ancestors = names.inits.reverse.map ofLocation := by
  induction names using List.reverseRecOn with
  | nil => rfl
  | append_singleton names name ih =>
    rw [List.forall_mem_append, List.forall_mem_singleton] at hnames
    rw [ancestors_ofLocation_concat hnames.1 hnames.2, ih hnames.1, List.inits_append]
    simp

end FilePath

namespace FileTree

open FilePath (IsStep ofLocation)

variable {tree : FileTree} {here names : Location} {name : String}

theorem Grounded.holdsDirectory (h : tree.Grounded) (hsome : (tree.node? (here ++ [name])).isSome = true) :
    tree.holdsDirectory here = true := by
  by_contra hhere
  rw [Bool.not_eq_true] at hhere
  rw [h.node?_eq_none hhere name] at hsome
  cases hsome

theorem Grounded.follow (h : tree.Grounded) (hnames : ∀ part ∈ names, IsStep part)
    (hsome : (tree.node? names).isSome = true) : tree.follow [] names = .ok names := by
  induction names using List.reverseRecOn with
  | nil => rfl
  | append_singleton names name ih =>
    rw [List.forall_mem_append, List.forall_mem_singleton] at hnames
    have hdirectory := h.holdsDirectory hsome
    have hfront : tree.follow [] names = .ok names :=
      ih hnames.1 (by rw [(holdsDirectory_iff names).mp hdirectory, Option.isSome_some])
    rw [follow_append, hfront]
    change tree.follow names [name] = _
    rw [follow_single, step_name hnames.2 hdirectory, hsome, if_pos rfl]

/-- A directory has an entry of the given name, at a path that is followed. -/
structure Shows (tree : FileTree) (directory : Location) (name : String) : Prop where
  entry : (tree.node? (directory ++ [name])).isSome = true
  followed : accepts (ofLocation (directory ++ [name])) = true

/-- What stands at the absolute path of a location is what stands at the location, if the path is followed. -/
theorem has_child_ofLocation_iff (h : tree.Grounded) (hnames : ∀ part ∈ names, IsStep part) (hname : IsStep name) :
    tree.has ((ofLocation names).child name) = true ↔ tree.Shows names name := by
  have hall : ∀ part ∈ names ++ [name], IsStep part :=
    List.forall_mem_append.mpr ⟨hnames, List.forall_mem_singleton.mpr hname⟩
  have hparts : (ofLocation (names ++ [name])).parts = "" :: (names ++ [name]) :=
    congrArg FilePath.parts (FilePath.ofLocation_concat names name)
  have hstart : tree.startOf (ofLocation (names ++ [name])) = [] := by
    rw [FilePath.ofLocation_concat, ← List.cons_append, startOf_append_step hname []]
    rfl
  have htop : tree.follow [] ("" :: (names ++ [name])) = tree.follow [] (names ++ [name]) := rfl
  rw [FilePath.child_ofLocation hnames hname, has, lookup?]
  constructor
  · intro hhas
    cases hlocate : tree.locate (ofLocation (names ++ [name])) with
    | error obstacle =>
      rw [hlocate] at hhas
      cases hhas
    | ok place =>
      rw [hlocate] at hhas
      obtain ⟨haccepts, -, hfollow⟩ := locate_eq_ok_iff.mp hlocate
      rw [hparts, hstart, htop] at hfollow
      rw [follow_steps hall hfollow, List.nil_append] at hhas
      exact ⟨hhas, haccepts⟩
  · rintro ⟨hentry, haccepts⟩
    have hlocate : tree.locate (ofLocation (names ++ [name])) = .ok (names ++ [name]) := by
      rw [locate_eq_ok_iff, hparts, hstart, htop]
      exact ⟨haccepts, by simp, h.follow hall hentry⟩
    rw [hlocate]
    exact hentry

end FileTree

namespace Project

open FilePath (IsStep ofLocation)

/-- The nearest directory with a settings file, at or around a directory and inside its repository. -/
structure Nearest (tree : FileTree) (start place : Location) : Prop where
  around : place <+: start
  settings : tree.Shows place Settings.fileName
  closest : ∀ closer, closer <+: start → place.length < closer.length → ¬tree.Shows closer Settings.fileName
  inside : ∀ closer, closer <+: start → place.length < closer.length → ¬tree.Shows closer ".git"

variable {tree : FileTree} {start place : Location} {name : String}

theorem nearest_self (h : tree.Shows start Settings.fileName) : Nearest tree start start := by
  have hnone {closer : Location} (hcloser : closer <+: start) (hlonger : start.length < closer.length) : False :=
    absurd hcloser.length_le (by omega)
  exact ⟨List.prefix_refl _, h, fun _ hcloser hlonger => (hnone hcloser hlonger).elim,
    fun _ hcloser hlonger => (hnone hcloser hlonger).elim⟩

theorem Nearest.eq_self (h : Nearest tree start place) (hstart : tree.Shows start Settings.fileName) :
    place = start := by
  by_contra hne
  have hle := h.around.length_le
  have hlength : place.length ≠ start.length := fun heq => hne (h.around.eq_of_length heq)
  exact h.closest start (List.prefix_refl _) (by omega) hstart

/-- A directory that has no settings file and is not the top of a repository leaves the search to those around
it. -/
theorem nearest_concat_iff (hsettings : ¬tree.Shows (start ++ [name]) Settings.fileName) :
    Nearest tree (start ++ [name]) place ↔ ¬tree.Shows (start ++ [name]) ".git" ∧ Nearest tree start place := by
  constructor
  · intro h
    have haround : place <+: start := by
      refine (List.prefix_concat_iff.mp h.around).resolve_left ?_
      rintro rfl
      exact hsettings h.settings
    have hlength := haround.length_le
    refine ⟨h.inside _ (List.prefix_refl _) (by simp; omega), haround, h.settings, ?_, ?_⟩
    · exact fun closer hcloser => h.closest closer (hcloser.trans (List.prefix_append _ _))
    · exact fun closer hcloser => h.inside closer (hcloser.trans (List.prefix_append _ _))
  · rintro ⟨hgit, h⟩
    refine ⟨h.around.trans (List.prefix_append _ _), h.settings, fun closer hcloser hlonger => ?_,
      fun closer hcloser hlonger => ?_⟩
    · rcases List.prefix_concat_iff.mp hcloser with rfl | hcloser
      · exact hsettings
      · exact h.closest closer hcloser hlonger
    · rcases List.prefix_concat_iff.mp hcloser with rfl | hcloser
      · exact hgit
      · exact h.inside closer hcloser hlonger

theorem isStep_fileName : IsStep Settings.fileName := by decide

theorem isStep_git : IsStep ".git" := by decide

theorem findAmong?_cons (htree : tree.Grounded) (hstart : ∀ part ∈ start, IsStep part) (around : List FilePath)
    (path : FilePath) :
    findAmong? tree (ofLocation start :: around) = some path ↔
      tree.Shows start Settings.fileName ∧ path = ofLocation (start ++ [Settings.fileName]) ∨
        ¬tree.Shows start Settings.fileName ∧ ¬tree.Shows start ".git" ∧ findAmong? tree around = some path := by
  rw [findAmong?, ← FileTree.has_child_ofLocation_iff htree hstart isStep_fileName,
    ← FileTree.has_child_ofLocation_iff htree hstart isStep_git, ← FilePath.child_ofLocation hstart isStep_fileName]
  by_cases hsettings : tree.has ((ofLocation start).child Settings.fileName) = true
  · simp [hsettings, eq_comm (a := path)]
  · by_cases hgit : tree.has ((ofLocation start).child ".git") = true
    · simp [hsettings, hgit]
    · simp [hsettings, hgit]

theorem exists_nearest_iff (hstart : tree.Shows start Settings.fileName) (path : FilePath) :
    (∃ place, Nearest tree start place ∧ path = ofLocation (place ++ [Settings.fileName])) ↔
      path = ofLocation (start ++ [Settings.fileName]) := by
  constructor
  · rintro ⟨place, hnearest, heq⟩
    rw [hnearest.eq_self hstart] at heq
    exact heq
  · exact fun heq => ⟨start, nearest_self hstart, heq⟩

theorem findSettings?_eq_some_iff (htree : tree.Grounded) (hstart : ∀ part ∈ start, IsStep part) (path : FilePath) :
    findSettings? tree (ofLocation start) = some path ↔
      ∃ place, Nearest tree start place ∧ path = ofLocation (place ++ [Settings.fileName]) := by
  induction start using List.reverseRecOn with
  | nil =>
    change findAmong? tree (ofLocation [] :: []) = some path ↔ _
    rw [findAmong?_cons htree hstart]
    by_cases hshows : tree.Shows [] Settings.fileName
    · rw [exists_nearest_iff hshows]
      simp [hshows]
    · have hnone : ¬∃ place, Nearest tree [] place ∧ path = ofLocation (place ++ [Settings.fileName]) := by
        rintro ⟨place, hnearest, -⟩
        have hplace : place = [] := List.prefix_nil.mp hnearest.around
        exact hshows (hplace ▸ hnearest.settings)
      simp [hshows, hnone, findAmong?]
  | append_singleton start name ih =>
    have hparts := hstart
    rw [List.forall_mem_append, List.forall_mem_singleton] at hparts
    have hrest : findAmong? tree (ofLocation start).ancestors = some path ↔
        ∃ place, Nearest tree start place ∧ path = ofLocation (place ++ [Settings.fileName]) := ih hparts.1
    rw [findSettings?, FilePath.ancestors_ofLocation_concat hparts.1 hparts.2, findAmong?_cons htree hstart, hrest]
    by_cases hshows : tree.Shows (start ++ [name]) Settings.fileName
    · rw [exists_nearest_iff hshows]
      simp [hshows]
    · simp only [hshows, nearest_concat_iff hshows, false_and, false_or, not_false_eq_true, true_and, and_assoc,
        exists_and_left]

theorem findSettings?_eq_none_iff (htree : tree.Grounded) (hstart : ∀ part ∈ start, IsStep part) :
    findSettings? tree (ofLocation start) = none ↔ ¬∃ place, Nearest tree start place := by
  have hfound := findSettings?_eq_some_iff htree hstart
  rw [Option.eq_none_iff_forall_ne_some]
  constructor
  · rintro hnone ⟨place, h⟩
    exact hnone _ ((hfound _).mpr ⟨place, h, rfl⟩)
  · intro hnone path hpath
    obtain ⟨place, h, -⟩ := (hfound path).mp hpath
    exact hnone ⟨place, h⟩

/-- A project is not found when the search ends without a settings file, and for no other reason. -/
theorem openFrom_eq_settingsNotFound_iff (htree : tree.Grounded) (hstart : ∀ part ∈ start, IsStep part)
    (overrides : Settings.Overrides) :
    openFrom tree (ofLocation start) overrides = .error (.settingsNotFound (ofLocation start)) ↔
      ¬∃ place, Nearest tree start place := by
  rw [← findSettings?_eq_none_iff htree hstart, openFrom]
  cases findSettings? tree (ofLocation start) with
  | none => simp
  | some path =>
    refine iff_of_false (fun h => ?_) (by simp)
    rcases Outcome.bind_eq_error_iff.mp h with hread | ⟨text, -, hparsed⟩
    · rw [readText] at hread
      split at hread <;> cases hread
    · dsimp only at hparsed
      split at hparsed
      · cases hparsed
      · split at hparsed <;> cases hparsed

/-- The search looks at the directory and those around it, each once and nearest first. It finds the settings file
of the nearest one that shows it, also where that one is the top of a repository, and nothing if there is none
before the search leaves the repository. -/
theorem findSettings?_nearest (htree : tree.Grounded) (hstart : ∀ part ∈ start, IsStep part) :
    (ofLocation start).ancestors = start.inits.reverse.map ofLocation ∧
    (∀ path, findSettings? tree (ofLocation start) = some path ↔
      ∃ place, Nearest tree start place ∧ path = ofLocation (place ++ [Settings.fileName])) ∧
    (findSettings? tree (ofLocation start) = none ↔ ¬∃ place, Nearest tree start place) ∧
    ∀ place, Nearest tree start place → tree.Shows place ".git" →
      findSettings? tree (ofLocation start) = some (ofLocation (place ++ [Settings.fileName])) := by
  have hfound := findSettings?_eq_some_iff htree hstart
  exact ⟨FilePath.ancestors_ofLocation hstart, hfound, findSettings?_eq_none_iff htree hstart,
    fun place h _ => (hfound _).mpr ⟨place, h, rfl⟩⟩

/-- A repository with its settings file inside a directory with another one, and a repository without inside. -/
def repositories : FileTree :=
  ⟨[ (["glider.config.json"], .file .empty), (["a"], .directory), (["a", ".git"], .directory),
      (["a", "glider.config.json"], .file .empty), (["a", "b"], .directory), (["a", "b", "c"], .directory),
      (["a", "d"], .directory), (["a", "d", ".git"], .directory), (["a", "d", "e"], .directory) ], []⟩

theorem findSettings?_nearest_repositories :
    repositories.Grounded ∧ (∀ part ∈ ["a", "b", "c"], IsStep part) ∧ (∀ part ∈ ["a", "d", "e"], IsStep part) ∧
      repositories.Shows ["a"] ".git" ∧
      findSettings? repositories (ofLocation ["a", "b", "c"]) = some (ofLocation ["a", "glider.config.json"]) ∧
      findSettings? repositories (ofLocation ["a", "d", "e"]) = none := by
  have htree : repositories.Grounded := by decide
  have hfirst : ∀ part ∈ ["a", "b", "c"], IsStep part := by decide
  have hsecond : ∀ part ∈ ["a", "d", "e"], IsStep part := by decide
  have htop : repositories.Shows ["a"] ".git" := ⟨by decide, by decide⟩
  have hnearest : Nearest repositories ["a", "b", "c"] ["a"] := by
    have hempty : ∀ closer ∈ ["a", "b", "c"].inits, 1 < closer.length →
        (repositories.node? (closer ++ [Settings.fileName])).isSome = false ∧
          (repositories.node? (closer ++ [".git"])).isSome = false := by decide
    refine ⟨by decide, ⟨by decide, by decide⟩, fun closer hcloser hlonger h => ?_, fun closer hcloser hlonger h => ?_⟩
    · exact Bool.eq_false_iff.mp (hempty closer ((List.mem_inits _ _).mpr hcloser) hlonger).1 h.entry
    · exact Bool.eq_false_iff.mp (hempty closer ((List.mem_inits _ _).mpr hcloser) hlonger).2 h.entry
  have houtside : ¬∃ place, Nearest repositories ["a", "d", "e"] place := by
    rintro ⟨place, h⟩
    have hshort : ∀ place ∈ ["a", "d", "e"].inits,
        (repositories.node? (place ++ [Settings.fileName])).isSome = true → place.length < 2 := by decide
    exact h.inside ["a", "d"] (by decide) (hshort place ((List.mem_inits _ _).mpr h.around) h.settings.entry)
      ⟨by decide, by decide⟩
  exact ⟨htree, hfirst, hsecond, htop, (findSettings?_nearest htree hfirst).2.2.2 ["a"] hnearest htop,
    (findSettings?_nearest htree hsecond).2.2.1.mpr houtside⟩

/-- Seventeen directories inside each other, with names that are as long as the path of the innermost one allows. -/
def deepPlace : Location := List.replicate 17 (String.ofList (List.replicate 239 'd'))

def deepTree : FileTree :=
  ⟨deepPlace.inits.tail.map (fun place => (place, .directory)) ++
    [(deepPlace ++ [Settings.fileName], .file .empty)], []⟩

/-- The directory of the search has a settings file, whose path is too long to be followed. -/
theorem findSettings?_deep :
    deepTree.Grounded ∧ (∀ part ∈ deepPlace, IsStep part) ∧
      (deepTree.node? (deepPlace ++ [Settings.fileName])).isSome = true ∧
      FileTree.accepts (ofLocation deepPlace) = true ∧
      findSettings? deepTree (ofLocation deepPlace) = none := by
  have htree : deepTree.Grounded := by decide +kernel
  have hstart : ∀ part ∈ deepPlace, IsStep part := by decide +kernel
  have honly : ∀ place ∈ deepPlace.inits, (deepTree.node? (place ++ [Settings.fileName])).isSome = true →
      place = deepPlace := by decide +kernel
  have hsize : FileTree.slashedSize (deepPlace ++ [Settings.fileName]) = 4099 := by decide +kernel
  refine ⟨htree, hstart, by decide +kernel, ?_, ?_⟩
  · change FileTree.accepts ⟨"" :: deepPlace⟩ = true
    refine (FileTree.accepts_cons_iff _ _).mpr ⟨by decide +kernel, List.forall_mem_cons.mpr ⟨by decide, ?_⟩⟩
    intro part hpart
    rw [List.eq_of_mem_replicate hpart, String.toList_ofList, List.mem_replicate]
    exact fun h => absurd h.2 (by decide)
  · refine (findSettings?_eq_none_iff htree hstart).mpr ?_
    rintro ⟨place, h⟩
    have hfollowed := h.settings.followed
    rw [honly place ((List.mem_inits _ _).mpr h.around) h.settings.entry, FilePath.ofLocation_concat,
      FileTree.accepts_cons_iff, hsize] at hfollowed
    exact absurd hfollowed.1 (by decide)

end Project

end Phrasebook
