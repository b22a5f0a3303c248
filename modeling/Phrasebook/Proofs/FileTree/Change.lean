import Phrasebook.Proofs.FileTree.MakeBelow

/-! # What operations change

Operations on files are given paths, which may hold steps up or go through directories that are yet to be made.
What an operation has changed is found by following its paths afterwards: a written path leads to its file, and
a new directory stands where one of the paths around it leads.
-/

namespace Phrasebook

def FilePath.parents (path : FilePath) : List FilePath := path.parent?.toList.flatMap ancestors

namespace FileTree

open FilePath (IsStep isBlank)

/-- Nothing is changed but where files have been written and where directories have been made that were
missing. -/
structure Changes (tree next : FileTree) (written made : List FilePath) : Prop where
  keeps : tree.Keeps next
  node : ∀ location, next.node? location = tree.node? location ∨
    (∃ path ∈ written, next.locate path = .ok location) ∨
    tree.node? location = none ∧ next.node? location = some .directory ∧
      ∃ path ∈ made, next.locate path = .ok location

section Changes

variable {tree middle next : FileTree} {written made written' made' : List FilePath} {path : FilePath}
variable {location : Location}

theorem Keeps.locate (h : tree.Keeps next) (hlocate : tree.locate path = .ok location) :
    next.locate path = .ok location := by
  obtain ⟨haccepts, hparts, hfollow⟩ := locate_eq_ok_iff.mp hlocate
  have hstart : next.startOf path = tree.startOf path := by
    rw [startOf, startOf, h.workingDir]
  exact locate_eq_ok_iff.mpr ⟨haccepts, hparts, hstart ▸ h.follow hfollow⟩

theorem lookup?_eq_some_iff {node : Node} :
    tree.lookup? path = some node ↔ ∃ location, tree.locate path = .ok location ∧ tree.node? location = some node := by
  rw [lookup?]
  cases tree.locate path with
  | error obstacle =>
    constructor
    · intro h
      cases h
    · rintro ⟨location, h, -⟩
      cases h
  | ok location =>
    constructor
    · exact fun h => ⟨location, rfl, h⟩
    · rintro ⟨location', h, hnode⟩
      cases h
      exact hnode

theorem Changes.refl (tree : FileTree) (written made : List FilePath) : tree.Changes tree written made :=
  ⟨Keeps.refl tree, fun _ => .inl rfl⟩

theorem Changes.trans (first : tree.Changes middle written made) (second : middle.Changes next written' made') :
    tree.Changes next (written ++ written') (made ++ made') := by
  refine ⟨first.keeps.trans second.keeps, fun location => ?_⟩
  rcases second.node location with hsame | ⟨path, hpath, hlocate⟩ | ⟨hmissing, hnew, path, hpath, hlocate⟩
  · rcases first.node location with hsame' | ⟨path, hpath, hlocate⟩ | ⟨hmissing, hnew, path, hpath, hlocate⟩
    · exact .inl (hsame.trans hsame')
    · exact .inr (.inl ⟨path, List.mem_append_left _ hpath, second.keeps.locate hlocate⟩)
    · exact .inr (.inr ⟨hmissing, hsame.trans hnew, path, List.mem_append_left _ hpath,
        second.keeps.locate hlocate⟩)
  · exact .inr (.inl ⟨path, List.mem_append_right _ hpath, hlocate⟩)
  · rcases first.node location with hsame | ⟨path', hpath', hlocate'⟩ | ⟨-, hnew', -⟩
    · exact .inr (.inr ⟨hsame.symm.trans hmissing, hnew, path, List.mem_append_right _ hpath, hlocate⟩)
    · exact .inr (.inl ⟨path', List.mem_append_left _ hpath', second.keeps.locate hlocate'⟩)
    · rw [hmissing] at hnew'
      cases hnew'

theorem Changes.mono (h : tree.Changes next written made) (hwritten : written ⊆ written') (hmade : made ⊆ made') :
    tree.Changes next written' made' := by
  refine ⟨h.keeps, fun location => ?_⟩
  rcases h.node location with hsame | ⟨path, hpath, hlocate⟩ | ⟨hmissing, hnew, path, hpath, hlocate⟩
  · exact .inl hsame
  · exact .inr (.inl ⟨path, hwritten hpath, hlocate⟩)
  · exact .inr (.inr ⟨hmissing, hnew, path, hmade hpath, hlocate⟩)

end Changes

section Site

variable {tree next : FileTree} {path : FilePath} {parts : List String} {parent : Location} {name : String}
variable {content : ByteArray}

theorem siteOf_eq_ok (h : tree.siteOf path parts = .ok (parent, name)) :
    accepts path = true ∧ tree.follow (tree.startOf path) parts.dropLast = .ok parent ∧
      tree.holdsDirectory parent = true ∧ parts.getLast?.getD "" = name := by
  cases haccepts : accepts path with
  | false =>
    rw [siteOf, haccepts] at h
    cases h
  | true =>
    rw [siteOf_eq_bind haccepts, Outcome.bind_eq_ok_iff] at h
    obtain ⟨found, hfollow, h⟩ := h
    split at h
    · rename_i hdirectory
      cases h
      exact ⟨rfl, hfollow, hdirectory, rfl⟩
    · cases h

theorem follow_blanks_of_directory {here : Location} (hdirectory : tree.holdsDirectory here = true)
    {blanks : List String} (hblanks : ∀ part ∈ blanks, isBlank part = true) :
    tree.follow here blanks = .ok here := by
  induction blanks with
  | nil => rfl
  | cons part rest ih =>
    obtain ⟨hpart, hrest⟩ := List.forall_mem_cons.mp hblanks
    rw [follow_cons, (step_blank_eq_ok_iff hpart here here).mpr ⟨hdirectory, rfl⟩]
    exact ih hrest

theorem locate_of_siteOf {slashes : List String} (hparts : path.parts = parts ++ slashes)
    (hsite : tree.siteOf path parts = .ok (parent, name)) (hname : IsStep name) (hkeeps : tree.Keeps next)
    (hsome : (next.node? (parent ++ [name])).isSome = true)
    (hslashes : next.follow (parent ++ [name]) slashes = .ok (parent ++ [name])) :
    next.locate path = .ok (parent ++ [name]) := by
  obtain ⟨haccepts, hfollow, hdirectory, hlast⟩ := siteOf_eq_ok hsite
  rcases List.eq_nil_or_concat parts with rfl | ⟨init, last, rfl⟩
  · exact absurd hlast.symm hname.ne_empty
  rw [List.concat_eq_append] at *
  rw [List.getLast?_concat, Option.getD_some] at hlast
  subst hlast
  rw [List.dropLast_concat] at hfollow
  have hempty : path.parts ≠ [""] := by
    intro heq
    have hmem : last ∈ path.parts := by simp [hparts]
    rw [heq, List.mem_singleton] at hmem
    exact hname.ne_empty hmem
  have hstart : next.startOf path = tree.startOf path := by
    rw [startOf, startOf, hkeeps.workingDir]
  have hstep : next.follow parent [last] = .ok (parent ++ [last]) := by
    rw [follow_single, step_name hname (hkeeps.holdsDirectory hdirectory), if_pos hsome]
  refine locate_eq_ok_iff.mpr ⟨haccepts, hempty, ?_⟩
  rw [hparts, hstart, follow_append, follow_append, hkeeps.follow hfollow]
  change (next.follow parent [last] >>= fun here => next.follow here slashes) = _
  rw [hstep]
  exact hslashes

theorem eq_put_of_makeDirectory (h : tree.makeDirectory path = .fresh next) :
    ∃ parts slashes parent name, path.parts = parts ++ slashes ∧ (∀ part ∈ slashes, isBlank part = true) ∧
      tree.siteOf path parts = .ok (parent, name) ∧ IsStep name ∧ tree.node? (parent ++ [name]) = none ∧
      next = tree.put (parent ++ [name]) .directory := by
  obtain ⟨slashes, hslashes, hblanks⟩ := exists_trimmed_append path.parts
  rw [makeDirectory] at h
  generalize (path.parts.reverse.dropWhile (· = "")).reverse = parts at h hslashes
  split at h
  · cases h
  · cases h
  · rename_i parent name hsite
    split at h
    · cases h
    · rename_i hfree
      split at h
      · cases h
        simp only [Bool.or_eq_true, decide_eq_true_eq, not_or, Bool.not_eq_true, Option.isSome_eq_false_iff,
          Option.isNone_iff_eq_none] at hfree
        obtain ⟨⟨⟨hempty, hpoint⟩, hup⟩, hmissing⟩ := hfree
        have hname : IsStep name := ⟨by simp [isBlank, hempty, hpoint], hup⟩
        exact ⟨parts, slashes, parent, name, hslashes, hblanks, hsite, hname, hmissing, rfl⟩
      · cases h

theorem eq_put_of_write? (h : tree.write? path content = some next) :
    ∃ parent name, tree.siteOf path path.parts = .ok (parent, name) ∧ IsStep name ∧
      tree.node? (parent ++ [name]) ≠ some .directory ∧ next = tree.put (parent ++ [name]) (.file content) := by
  rw [write?] at h
  split at h
  · cases h
  · rename_i parent name hsite
    split at h
    · cases h
    · rename_i husable
      split at h
      · cases h
      · rename_i hfree
        cases h
        simp only [Bool.or_eq_true, decide_eq_true_eq, not_or, Bool.not_eq_true] at husable
        rw [holdsDirectory_iff] at hfree
        exact ⟨parent, name, hsite, ⟨husable.1.1, husable.1.2⟩, hfree, rfl⟩

theorem changes_of_makeDirectory (h : tree.makeDirectory path = .fresh next) : tree.Changes next [] [path] := by
  obtain ⟨parts, slashes, parent, name, hslashes, hblanks, hsite, hname, hmissing, rfl⟩ := eq_put_of_makeDirectory h
  have hplace : parent ++ [name] ≠ [] := by simp
  have hkeeps : tree.Keeps (tree.put (parent ++ [name]) .directory) := (grows_put hplace hmissing).keeps
  have hnew : (tree.put (parent ++ [name]) .directory).node? (parent ++ [name]) = some .directory := by
    rw [node?_put tree hplace, if_pos rfl]
  have hlocate := locate_of_siteOf hslashes hsite hname hkeeps (by rw [hnew, Option.isSome_some])
    (follow_blanks_of_directory ((holdsDirectory_iff _).mpr hnew) hblanks)
  refine ⟨hkeeps, fun location => ?_⟩
  by_cases heq : location = parent ++ [name]
  · subst heq
    exact .inr (.inr ⟨hmissing, hnew, path, List.mem_singleton_self _, hlocate⟩)
  · exact .inl (by rw [node?_put tree hplace, if_neg heq])

/-- Making directories changes nothing but some of them, even when a later one is refused. -/
theorem changes_of_makeAmong {paths : List FilePath} {done : Bool} (h : tree.makeAmong paths = (next, done)) :
    tree.Changes next [] paths := by
  induction paths generalizing tree next done with
  | nil =>
    cases h
    exact Changes.refl _ _ _
  | cons path around ih =>
    have hfirst : [path] ⊆ path :: around := by simp
    rw [makeAmong] at h
    split at h
    · rename_i hmade
      cases h
      exact (changes_of_makeDirectory hmade).mono (List.Subset.refl _) hfirst
    · cases h
      exact Changes.refl _ _ _
    · cases h
      exact Changes.refl _ _ _
    · split at h
      · rename_i middle hmade
        cases h
        exact (ih hmade).mono (List.Subset.refl _) (List.subset_cons_self _ _)
      · rename_i middle hmade
        have hbefore := (ih hmade).mono (List.Subset.refl _) (List.subset_cons_self path around)
        split at h
        · rename_i last hlast
          cases h
          exact (hbefore.trans (changes_of_makeDirectory hlast)).mono (List.Subset.refl _)
            (List.append_subset.mpr ⟨List.Subset.refl _, hfirst⟩)
        · cases h
          exact hbefore
        · cases h
          exact hbefore

theorem changes_of_write? (h : tree.write? path content = some next) :
    tree.Changes next [path] [] ∧ next.lookup? path = some (.file content) := by
  obtain ⟨parent, name, hsite, hname, hfree, rfl⟩ := eq_put_of_write? h
  have hplace : parent ++ [name] ≠ [] := by simp
  have hput := node?_put tree hplace (.file content)
  have hkeeps : tree.Keeps (tree.put (parent ++ [name]) (.file content)) := by
    refine ⟨rfl, fun location hdirectory => ?_, fun location present hfile => ?_⟩
    · rw [hput, if_neg, hdirectory]
      rintro rfl
      exact hfree hdirectory
    · rw [hput]
      split
      · exact ⟨content, rfl⟩
      · exact ⟨present, hfile⟩
  have hnew : (tree.put (parent ++ [name]) (.file content)).node? (parent ++ [name]) = some (.file content) := by
    rw [hput, if_pos rfl]
  have hlocate := locate_of_siteOf (List.append_nil _).symm hsite hname hkeeps
    (by rw [hnew, Option.isSome_some]) rfl
  refine ⟨⟨hkeeps, fun location => ?_⟩, lookup?_eq_some_iff.mpr ⟨_, hlocate, hnew⟩⟩
  by_cases heq : location = parent ++ [name]
  · exact .inr (.inl ⟨path, List.mem_singleton_self _, heq ▸ hlocate⟩)
  · exact .inl (by rw [hput, if_neg heq])

end Site

/-! ## What is kept by setting single entries -/

section Set

variable {tree next : FileTree} {path : FilePath} {content : ByteArray} {holds : FileTree → Prop}
variable (hput : ∀ tree location node, holds tree → holds (tree.put location node))

include hput

theorem holds_makeDirectory (htree : holds tree) (h : tree.makeDirectory path = .fresh next) : holds next := by
  obtain ⟨_, _, _, _, -, -, -, -, -, rfl⟩ := eq_put_of_makeDirectory h
  exact hput _ _ _ htree

theorem holds_makeAmong (htree : holds tree) (paths : List FilePath) : holds (tree.makeAmong paths).1 := by
  induction paths with
  | nil => exact htree
  | cons path around ih =>
    rw [makeAmong]
    split
    · rename_i hmade
      exact holds_makeDirectory hput htree hmade
    · exact htree
    · exact htree
    · split
      · rename_i hmade
        rw [hmade] at ih
        exact ih
      · rename_i hmade
        rw [hmade] at ih
        split
        · rename_i hlast
          exact holds_makeDirectory hput ih hlast
        · exact ih
        · exact ih

theorem holds_makeDirectories (htree : holds tree) (path : FilePath) : holds (tree.makeDirectories path).1 :=
  holds_makeAmong hput htree _

theorem holds_write? (htree : holds tree) (h : tree.write? path content = some next) : holds next := by
  obtain ⟨_, _, -, -, -, rfl⟩ := eq_put_of_write? h
  exact hput _ _ _ htree

end Set

end FileTree

end Phrasebook
