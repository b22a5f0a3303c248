import Phrasebook.Proofs.FileTree.Contents
import Phrasebook.Proofs.FileTree.MakeBelow

/-! # Placing files below a directory

A file is placed below a present directory when its directories can be made and no directory has its place.
Then nothing is changed but its own place and the directories on the way to it.
-/

namespace Phrasebook.FileTree

def place (tree : FileTree) (top : Location) (names : List String) (name : String) (content : ByteArray) :
    FileTree × Bool :=
  match tree.makeBelow top names with
  | (tree, false) => (tree, false)
  | (tree, true) =>
    if isStorable name && !tree.holdsDirectory (top ++ names ++ [name])
    then (tree.put (top ++ names ++ [name]) (.file content), true) else (tree, false)

/-- What a file at the end of its directories has changed. -/
structure Placed (tree next : FileTree) (top : Location) (parts : List String) (content : ByteArray) : Prop where
  workingDir : next.workingDir = tree.workingDir
  file : next.node? (top ++ parts) = some (.file content)
  directory : ∀ taken, taken ≠ [] → taken <+: parts → taken ≠ parts →
    next.node? (top ++ taken) = some .directory
  other : ∀ location, (∀ taken, taken ≠ [] → taken <+: parts → location ≠ top ++ taken) →
    next.node? location = tree.node? location
  free : tree.node? (top ++ parts) ≠ some .directory
  stays : ∀ location node, location ≠ top ++ parts → tree.node? location = some node →
    next.node? location = some node

section Place

variable {tree next : FileTree} {top : Location} {parts names : List String} {name : String}
variable {content : ByteArray}

theorem Placed.keeps (h : tree.Placed next top parts content) : tree.Keeps next where
  workingDir := h.workingDir
  directory location hdirectory := by
    refine h.stays location .directory ?_ hdirectory
    rintro rfl
    exact h.free hdirectory
  file location present hfile := by
    by_cases hplace : location = top ++ parts
    · exact ⟨content, hplace ▸ h.file⟩
    · exact ⟨present, h.stays location _ hplace hfile⟩

theorem placed_of_place (h : tree.place top names name content = (next, true)) :
    tree.Placed next top (names ++ [name]) content := by
  rw [place] at h
  split at h
  · cases h
  · rename_i middle hmade
    split at h
    · rename_i hfree
      cases h
      rw [Bool.and_eq_true, Bool.not_eq_true', ← Bool.not_eq_true, holdsDirectory_iff] at hfree
      have hgrows := grows_of_makeBelow hmade
      have hput := node?_put middle (by simp : top ++ names ++ [name] ≠ []) (.file content)
      rw [List.append_assoc] at hput hfree ⊢
      refine ⟨hgrows.workingDir, ?_, ?_, ?_, ?_, ?_⟩
      · rw [hput, if_pos rfl]
      · intro taken hsome htaken hne
        have hshort := (List.prefix_concat_iff.mp htaken).resolve_left hne
        rw [hput, if_neg (fun heq => hne (List.append_cancel_left heq))]
        exact directory_of_makeBelow hmade hsome hshort
      · intro location hother
        rw [hput, if_neg (hother _ (by simp) (List.prefix_refl _))]
        exact other_of_makeBelow hmade fun taken hsome htaken =>
          hother taken hsome (htaken.trans (List.prefix_append _ _))
      · exact fun hdirectory => hfree.2 (hgrows.node _ _ hdirectory)
      · intro location node hplace hnode
        rw [hput, if_neg hplace]
        exact hgrows.node location node hnode
    · cases h

theorem grows_of_place (h : tree.place top names name content = (next, false)) : tree.Grows next := by
  rw [place] at h
  split at h
  · rename_i middle hmade
    cases h
    exact grows_of_makeBelow hmade
  · rename_i middle hmade
    split at h
    · cases h
    · cases h
      exact grows_of_makeBelow hmade

/-- A file can be placed where nothing stands in its way. -/
theorem exists_place (hstorable : ∀ part ∈ names ++ [name], isStorable part = true)
    (hpassable : ∀ taken, taken <+: names → ∀ present, tree.node? (top ++ taken) ≠ some (.file present))
    (hfree : tree.node? (top ++ (names ++ [name])) ≠ some .directory) (content : ByteArray) :
    ∃ next, tree.place top names name content = (next, true) := by
  obtain ⟨middle, hmade⟩ := exists_makeBelow (fun part hpart => hstorable part (List.mem_append_left _ hpart))
    hpassable
  have hkept : middle.node? (top ++ (names ++ [name])) = tree.node? (top ++ (names ++ [name])) := by
    refine other_of_makeBelow hmade fun taken _ htaken heq => ?_
    rw [List.append_cancel_left_eq] at heq
    have hlength := htaken.length_le
    rw [← heq, List.length_append, List.length_singleton] at hlength
    omega
  have hholds : middle.holdsDirectory (top ++ names ++ [name]) = false := by
    rw [← Bool.not_eq_true, holdsDirectory_iff, List.append_assoc, hkept]
    exact hfree
  rw [place, hmade]
  dsimp only
  rw [hstorable name (by simp), hholds]
  exact ⟨_, rfl⟩

theorem place_of_present (hnames : ∀ part ∈ names, FilePath.IsStep part) (htop : tree.holdsDirectory top = true)
    (hfollow : tree.follow top (names ++ [name]) = .ok (top ++ (names ++ [name])))
    (hstorable : isStorable name = true)
    (hfile : tree.node? (top ++ (names ++ [name])) = some (.file content)) :
    tree.place top names name content = (tree, true) := by
  rw [follow_append, Outcome.bind_eq_ok_iff] at hfollow
  obtain ⟨there, hthere, hstep⟩ := hfollow
  rw [follow_single] at hstep
  have hmade := makeBelow_of_follow hnames htop
  rw [hthere] at hmade
  rw [← List.append_assoc] at hfile
  have hfree : tree.holdsDirectory (top ++ names ++ [name]) = false := by
    rw [holdsDirectory, hfile]
  rw [place, hmade.2, holdsDirectory_of_step hstep]
  dsimp only
  rw [hstorable, hfree, put_of_node? (by simp) hfile]
  rfl

end Place

/-! ## Names that can be held -/

/-- All names below a location can be held by a directory. -/
def Stored (tree : FileTree) (top : Location) : Prop :=
  ∀ names, (tree.node? (top ++ names)).isSome = true → ∀ name ∈ names, isStorable name = true

section Stored

variable {tree next : FileTree} {top : Location} {names : List String} {name : String} {content : ByteArray}

theorem stored_put (h : tree.Stored top) {node : Node} (hsome : names ≠ [])
    (hstorable : ∀ name ∈ names, isStorable name = true) : (tree.put (top ++ names) node).Stored top := by
  intro others hothers
  rw [node?_put tree (by simp [hsome])] at hothers
  split at hothers
  · rename_i heq
    rw [List.append_cancel_left heq]
    exact hstorable
  · exact h others hothers

theorem stored_makeBelow (h : tree.Stored top) {passed : List String}
    (hpassed : ∀ name ∈ passed, isStorable name = true)
    (hmade : tree.makeBelow (top ++ passed) names = (next, true)) :
    next.Stored top ∧ ∀ name ∈ names, isStorable name = true := by
  induction names generalizing tree passed with
  | nil =>
    cases hmade
    exact ⟨h, fun _ hmem => absurd hmem List.not_mem_nil⟩
  | cons name rest ih =>
    rw [makeBelow, List.append_assoc] at hmade
    have hlonger (hname : isStorable name = true) : ∀ part ∈ passed ++ [name], isStorable part = true :=
      List.forall_mem_append.mpr ⟨hpassed, List.forall_mem_singleton.mpr hname⟩
    split at hmade
    · rename_i hnode
      have hall := h (passed ++ [name]) (by rw [hnode, Option.isSome_some])
      obtain ⟨hstored, hrest⟩ := ih h hall hmade
      exact ⟨hstored, List.forall_mem_cons.mpr ⟨hall name (by simp), hrest⟩⟩
    · cases hmade
    · split at hmade
      · rename_i hname
        obtain ⟨hstored, hrest⟩ := ih (stored_put h (by simp) (hlonger hname)) (hlonger hname) hmade
        exact ⟨hstored, List.forall_mem_cons.mpr ⟨hname, hrest⟩⟩
      · cases hmade

theorem stored_place (h : tree.Stored top) (hplace : tree.place top names name content = (next, true)) :
    next.Stored top := by
  rw [place] at hplace
  split at hplace
  · cases hplace
  · rename_i middle hmade
    rw [← List.append_nil top] at hmade
    obtain ⟨hstored, hnames⟩ := stored_makeBelow h (by simp) hmade
    split at hplace
    · rename_i hfree
      rw [Bool.and_eq_true] at hfree
      cases hplace
      rw [List.append_assoc]
      exact stored_put hstored (by simp)
        (List.forall_mem_append.mpr ⟨hnames, List.forall_mem_singleton.mpr hfree.1⟩)
    · cases hplace

end Stored

end Phrasebook.FileTree
