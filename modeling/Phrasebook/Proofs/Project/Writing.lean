import Phrasebook.Project.Compile
import Phrasebook.Proofs.FileTree.Place

/-! # Writing files below a directory

Files are written one after the other. Written files stay unless a later one has the same path, and directories
stay in any case, so the whole list is written exactly when no file's path goes through another file's.
-/

namespace Phrasebook

def FilePath.IsNamed (path : FilePath) : Prop := path.parts ≠ [] ∧ ∀ part ∈ path.parts, FilePath.IsStep part

namespace Project

open FileTree

/-- What files below a directory have changed. -/
structure Holds (tree next : FileTree) (top : Location) (files : List OutputFile) : Prop where
  keeps : tree.Keeps next
  file : ∀ file ∈ files, next.node? (top ++ file.path.parts) = some (.file file.text.toUTF8)
  directory : ∀ file ∈ files, ∀ taken, taken ≠ [] → taken <+: file.path.parts → taken ≠ file.path.parts →
    next.node? (top ++ taken) = some .directory
  other : ∀ location,
    (∀ file ∈ files, ∀ taken, taken ≠ [] → taken <+: file.path.parts → location ≠ top ++ taken) →
    next.node? location = tree.node? location

def withWritten (path : FilePath) (run : FileTree × Except Error (List FilePath)) :
    FileTree × Except Error (List FilePath) :=
  (run.1, run.2.map fun written => path :: written)

section Step

variable {tree next after : FileTree} {dir : FilePath} {top : Location} {file : OutputFile}

theorem exists_concat (h : file.path.IsNamed) :
    ∃ names name, file.path = ⟨names ++ [name]⟩ ∧ (∀ part ∈ names, FilePath.IsStep part) ∧
      FilePath.IsStep name := by
  obtain ⟨⟨parts⟩, text⟩ := file
  obtain ⟨hsome, hsteps⟩ := h
  rcases List.eq_nil_or_concat parts with rfl | ⟨names, name, rfl⟩
  · exact absurd rfl hsome
  · rw [List.concat_eq_append] at hsteps ⊢
    exact ⟨names, name, rfl, fun part hpart => hsteps part (List.mem_append_left _ hpart), hsteps name (by simp)⟩

theorem join_named (dir : FilePath) {path : FilePath} (h : path.IsNamed) :
    dir.join path = ⟨FilePath.base dir ++ path.parts⟩ := by
  obtain ⟨parts⟩ := path
  obtain ⟨hsome, hsteps⟩ := h
  cases parts with
  | nil => exact absurd rfl hsome
  | cons name names => exact FilePath.join_step dir (hsteps name List.mem_cons_self) names

/-- A path of names below a directory leads to the location that they spell from there. -/
theorem exists_top_of_locate_join {path : FilePath} (hpath : path.IsNamed) {location : Location}
    (h : tree.locate (dir.join path) = .ok location) :
    ∃ top, tree.LeadsTo (FilePath.base dir) top ∧ tree.follow top path.parts = .ok location ∧
      location = top ++ path.parts := by
  obtain ⟨-, -, hfollow⟩ := locate_eq_ok_iff.mp h
  rw [join_named dir hpath, startOf_append hpath.2 hpath.1, follow_append, Outcome.bind_eq_ok_iff] at hfollow
  obtain ⟨top, htop, hfollow⟩ := hfollow
  refine ⟨top, ⟨htop, ?_⟩, hfollow, follow_steps hpath.2 hfollow⟩
  obtain ⟨first, rest, hparts⟩ := List.exists_cons_of_ne_nil hpath.1
  rw [hparts, follow_cons, Outcome.bind_eq_ok_iff] at hfollow
  obtain ⟨there, hstep, -⟩ := hfollow
  exact holdsDirectory_of_step hstep

/-- Writing a file places it and goes on, or stops without a loss. -/
theorem writeFiles_cons (h : tree.LeadsTo (FilePath.base dir) top) {names : List String} {name : String}
    (hpath : file.path = ⟨names ++ [name]⟩) (hnames : ∀ part ∈ names, FilePath.IsStep part)
    (hname : FilePath.IsStep name) (haccepts : accepts (dir.join file.path) = true) (rest : List OutputFile) :
    match tree.place top names name file.text.toUTF8 with
    | (next, true) =>
      writeFiles tree dir (file :: rest) = withWritten (dir.join file.path) (writeFiles next dir rest)
    | (next, false) => ∃ error, writeFiles tree dir (file :: rest) = (next, .error error) := by
  have hnamed : file.path.IsNamed := by
    rw [hpath]
    exact ⟨by simp, List.forall_mem_append.mpr ⟨hnames, List.forall_mem_singleton.mpr hname⟩⟩
  have hjoin : dir.join file.path = ⟨FilePath.base dir ++ names ++ [name]⟩ := by
    rw [join_named dir hnamed, hpath, List.append_assoc]
  rw [hjoin] at haccepts
  rw [writeFiles, hjoin, FilePath.parent?_append_step _ hname, Option.getD_some,
    makeDirectories_above h hnames haccepts, place]
  cases hmade : tree.makeBelow top names with
  | mk middle made =>
    cases made with
    | false => exact ⟨_, rfl⟩
    | true =>
      obtain ⟨hleads, hfollow, hdirectory⟩ := h.follow_makeBelow hnames hmade
      dsimp only
      rw [write?_below hleads hnames hname haccepts hfollow hdirectory]
      cases isStorable name && !middle.holdsDirectory (top ++ names ++ [name]) with
      | false => exact ⟨_, rfl⟩
      | true =>
        rw [if_pos rfl, if_pos rfl]
        dsimp only
        cases hrest : writeFiles (middle.put (top ++ names ++ [name]) (.file file.text.toUTF8)) dir rest with
        | mk last outcome => cases outcome <;> rfl

theorem writeFiles_cons_cases (h : tree.LeadsTo (FilePath.base dir) top) (hnamed : file.path.IsNamed)
    (haccepts : accepts (dir.join file.path) = true) (rest : List OutputFile) :
    (∃ next, tree.Placed next top file.path.parts file.text.toUTF8 ∧ (tree.Stored top → next.Stored top) ∧
      writeFiles tree dir (file :: rest) = withWritten (dir.join file.path) (writeFiles next dir rest)) ∨
    ∃ next error, tree.Grows next ∧ writeFiles tree dir (file :: rest) = (next, .error error) := by
  obtain ⟨names, name, hpath, hnames, hname⟩ := exists_concat hnamed
  have hstep := writeFiles_cons h hpath hnames hname haccepts rest
  cases hplace : tree.place top names name file.text.toUTF8 with
  | mk next placed =>
    rw [hplace] at hstep
    cases placed with
    | true =>
      rw [hpath] at hstep ⊢
      exact .inl ⟨next, placed_of_place hplace, fun hstored => stored_place hstored hplace, hstep⟩
    | false =>
      obtain ⟨error, herror⟩ := hstep
      exact .inr ⟨next, error, grows_of_place hplace, herror⟩

theorem exists_writeFiles_cons (h : tree.LeadsTo (FilePath.base dir) top) (hnamed : file.path.IsNamed)
    (haccepts : accepts (dir.join file.path) = true)
    (hstorable : ∀ part ∈ file.path.parts, isStorable part = true)
    (hpassable : ∀ taken, taken <+: file.path.parts → taken ≠ file.path.parts →
      ∀ content, tree.node? (top ++ taken) ≠ some (.file content))
    (hfree : tree.node? (top ++ file.path.parts) ≠ some .directory) (rest : List OutputFile) :
    ∃ next, tree.Placed next top file.path.parts file.text.toUTF8 ∧
      writeFiles tree dir (file :: rest) = withWritten (dir.join file.path) (writeFiles next dir rest) := by
  obtain ⟨names, name, hpath, hnames, hname⟩ := exists_concat hnamed
  have hstep := writeFiles_cons h hpath hnames hname haccepts rest
  rw [hpath] at hstorable hpassable hfree
  obtain ⟨next, hplace⟩ := exists_place hstorable (fun taken htaken =>
    hpassable taken (htaken.trans (List.prefix_append _ _)) fun heq => by
      have hlength := htaken.length_le
      rw [heq, List.length_append, List.length_singleton] at hlength
      omega) hfree file.text.toUTF8
  rw [hplace, hpath] at hstep
  rw [hpath]
  exact ⟨next, placed_of_place hplace, hstep⟩

end Step

section Run

variable {tree next after : FileTree} {dir : FilePath} {top : Location} {files : List OutputFile}

theorem accepts_of_write? {path : FilePath} {content : ByteArray}
    (h : tree.write? path content = some next) : accepts path = true := by
  rw [write?, siteOf] at h
  cases haccepts : accepts path with
  | true => rfl
  | false =>
    rw [haccepts] at h
    cases h

theorem written_of_writeFiles {written : List FilePath} (h : writeFiles tree dir files = (after, .ok written)) :
    written = files.map (fun file => dir.join file.path) ∧
      ∀ file ∈ files, accepts (dir.join file.path) = true := by
  induction files generalizing tree written with
  | nil =>
    cases h
    exact ⟨rfl, fun _ hmem => absurd hmem List.not_mem_nil⟩
  | cons file rest ih =>
    rw [writeFiles] at h
    split at h
    · cases h
    · split at h
      · cases h
      · rename_i placed hwrite
        split at h
        · rename_i last others hrest
          cases h
          obtain ⟨rfl, haccepts⟩ := ih hrest
          exact ⟨rfl, List.forall_mem_cons.mpr ⟨accepts_of_write? hwrite, haccepts⟩⟩
        · cases h

/-- Only inaccessible files and directories stop a run. -/
theorem inaccessible_of_writeFiles {error : Error} (h : writeFiles tree dir files = (after, .error error)) :
    ∃ path, error = .inaccessible path := by
  induction files generalizing tree with
  | nil => cases h
  | cons file files ih =>
    rw [writeFiles] at h
    split at h
    · cases h
      exact ⟨_, rfl⟩
    · split at h
      · cases h
        exact ⟨_, rfl⟩
      · split at h
        · cases h
        · rename_i hrest
          cases h
          exact ih hrest

theorem node?_of_writeFiles (h : tree.LeadsTo (FilePath.base dir) top) (hnamed : ∀ file ∈ files, file.path.IsNamed)
    (haccepts : ∀ file ∈ files, accepts (dir.join file.path) = true) {location : Location} {node : Node}
    (hnode : tree.node? location = some node) (hother : ∀ file ∈ files, location ≠ top ++ file.path.parts) :
    (writeFiles tree dir files).1.node? location = some node := by
  induction files generalizing tree with
  | nil => exact hnode
  | cons file rest ih =>
    obtain ⟨hfirst, hnamed⟩ := List.forall_mem_cons.mp hnamed
    obtain ⟨haccept, haccepts⟩ := List.forall_mem_cons.mp haccepts
    obtain ⟨hplace, hother⟩ := List.forall_mem_cons.mp hother
    rcases writeFiles_cons_cases h hfirst haccept rest with ⟨next, hplaced, -, hrun⟩ | ⟨next, error, hgrows, hrun⟩
    · rw [hrun]
      exact ih (h.keeps hplaced.keeps) hnamed haccepts (hplaced.stays location node hplace hnode) hother
    · rw [hrun]
      exact hgrows.node location node hnode

/-- After a run that ends well there is a file at every path, and a directory at every path to one. -/
theorem kinds_of_writeFiles (h : tree.LeadsTo (FilePath.base dir) top) (hstored : tree.Stored top)
    (hnamed : ∀ file ∈ files, file.path.IsNamed) {written : List FilePath}
    (hrun : writeFiles tree dir files = (after, .ok written)) :
    tree.Keeps after ∧ after.Stored top ∧ ∀ file ∈ files,
      (∃ content, after.node? (top ++ file.path.parts) = some (.file content)) ∧
      ∀ taken, taken ≠ [] → taken <+: file.path.parts → taken ≠ file.path.parts →
        after.node? (top ++ taken) = some .directory := by
  have haccepts := (written_of_writeFiles hrun).2
  induction files generalizing tree written with
  | nil =>
    cases hrun
    exact ⟨Keeps.refl _, hstored, fun _ hmem => absurd hmem List.not_mem_nil⟩
  | cons file rest ih =>
    obtain ⟨hfirst, hnamed⟩ := List.forall_mem_cons.mp hnamed
    obtain ⟨haccept, haccepts⟩ := List.forall_mem_cons.mp haccepts
    rcases writeFiles_cons_cases h hfirst haccept rest with ⟨next, hplaced, hnext, hstep⟩ | ⟨next, error, -, hstep⟩
    · rw [hstep, withWritten, Prod.mk.injEq] at hrun
      obtain ⟨rfl, hwritten⟩ := hrun
      cases hrest : (writeFiles next dir rest).2 with
      | error error =>
        rw [hrest] at hwritten
        cases hwritten
      | ok others =>
        obtain ⟨hkeeps, hlast, hall⟩ := ih (h.keeps hplaced.keeps) (hnext hstored) hnamed
          (Prod.ext rfl hrest) haccepts
        refine ⟨hplaced.keeps.trans hkeeps, hlast, List.forall_mem_cons.mpr ⟨⟨?_, ?_⟩, hall⟩⟩
        · exact hkeeps.file _ _ hplaced.file
        · exact fun taken hsome htaken hne => hkeeps.directory _ (hplaced.directory taken hsome htaken hne)
    · rw [hstep] at hrun
      cases hrun

end Run

/-! ## Writing into an empty directory -/

def IsEmptyAt (tree : FileTree) (top : Location) : Prop :=
  tree.holdsDirectory top = true ∧ ∀ names, names ≠ [] → tree.node? (top ++ names) = none

/-- No file's path goes through another file's. -/
def IsClear (files : List OutputFile) : Prop :=
  ∀ file ∈ files, ∀ other ∈ files, file.path.parts <+: other.path.parts → file.path = other.path

/-- The paths and names of files are no longer than can be followed and held. -/
def Fits (dir : FilePath) (files : List OutputFile) : Prop :=
  ∀ file ∈ files, accepts (dir.join file.path) = true ∧ ∀ name ∈ file.path.parts, isStorable name = true

section Empty

variable {tree next after : FileTree} {dir : FilePath} {top : Location} {file : OutputFile}
variable {done files : List OutputFile}

theorem stored_of_isEmptyAt (h : IsEmptyAt tree top) : tree.Stored top := by
  intro names hsome name hname
  rw [h.2 names (List.ne_nil_of_mem hname)] at hsome
  cases hsome

theorem holds_nil (tree : FileTree) (top : Location) : Holds tree tree top [] :=
  ⟨Keeps.refl tree, fun _ hmem => absurd hmem List.not_mem_nil, fun _ hmem => absurd hmem List.not_mem_nil,
    fun _ _ => rfl⟩

theorem Holds.concat {middle : FileTree} (h : Holds tree middle top done)
    (hplaced : middle.Placed next top file.path.parts file.text.toUTF8)
    (hnew : ∀ other ∈ done, other.path ≠ file.path) : Holds tree next top (done ++ [file]) := by
  refine ⟨h.keeps.trans hplaced.keeps, ?_, ?_, ?_⟩
  · refine List.forall_mem_append.mpr ⟨fun other hother => ?_, List.forall_mem_singleton.mpr hplaced.file⟩
    refine hplaced.stays _ _ (fun heq => hnew other hother ?_) (h.file other hother)
    obtain ⟨⟨parts⟩, text⟩ := other
    exact congrArg FilePath.mk (List.append_cancel_left heq)
  · refine List.forall_mem_append.mpr ⟨fun other hother taken hsome htaken hne => ?_,
      List.forall_mem_singleton.mpr hplaced.directory⟩
    exact hplaced.keeps.directory _ (h.directory other hother taken hsome htaken hne)
  · intro location hlocation
    obtain ⟨hdone, hfile⟩ := List.forall_mem_append.mp hlocation
    rw [hplaced.other location (hfile file List.mem_cons_self), h.other location hdone]

/-- What stands below an empty directory comes from the files. -/
theorem Holds.node?_eq (h : Holds tree after top files) (hempty : IsEmptyAt tree top) {names : List String}
    (hsome : names ≠ []) {node : Node} (hnode : after.node? (top ++ names) = some node) :
    (node = .directory ∧ ∃ file ∈ files, names <+: file.path.parts ∧ names ≠ file.path.parts) ∨
      ∃ file ∈ files, names = file.path.parts ∧ node = .file file.text.toUTF8 := by
  by_cases hfound : ∃ file ∈ files, names <+: file.path.parts
  · obtain ⟨file, hfile, hfront⟩ := hfound
    by_cases hwhole : names = file.path.parts
    · have heq := h.file file hfile
      rw [← hwhole, hnode, Option.some_inj] at heq
      exact .inr ⟨file, hfile, hwhole, heq⟩
    · have heq := h.directory file hfile names hsome hfront hwhole
      rw [hnode, Option.some_inj] at heq
      exact .inl ⟨heq, file, hfile, hfront, hwhole⟩
  · have hother := h.other (top ++ names) fun file hfile taken _ htaken heq =>
      hfound ⟨file, hfile, List.append_cancel_left heq ▸ htaken⟩
    rw [hnode, hempty.2 names hsome] at hother
    cases hother

/-- Files that are in no other's way can all be written. -/
theorem exists_writeFiles_append (hempty : IsEmptyAt tree top) (hleads : tree.LeadsTo (FilePath.base dir) top)
    {middle : FileTree} (hdone : Holds tree middle top done) (hnamed : ∀ file ∈ files, file.path.IsNamed)
    (hfits : Fits dir files) (hnodup : ((done ++ files).map fun file => file.path).Nodup)
    (hclear : IsClear (done ++ files)) :
    ∃ after, writeFiles middle dir files = (after, .ok (files.map fun file => dir.join file.path)) ∧
      Holds tree after top (done ++ files) := by
  induction files generalizing middle done with
  | nil =>
    rw [List.append_nil]
    exact ⟨middle, rfl, hdone⟩
  | cons file rest ih =>
    obtain ⟨hfirst, hnamed⟩ := List.forall_mem_cons.mp hnamed
    obtain ⟨⟨haccepts, hstorable⟩, hfits⟩ := List.forall_mem_cons.mp hfits
    have hnew : ∀ other ∈ done, other.path ≠ file.path := by
      intro other hother
      rw [List.map_append, List.nodup_append] at hnodup
      exact hnodup.2.2 _ (List.mem_map_of_mem hother) _ (by simp)
    have hpassable : ∀ taken, taken <+: file.path.parts → taken ≠ file.path.parts →
        ∀ content, middle.node? (top ++ taken) ≠ some (.file content) := by
      intro taken htaken hne content hnode
      by_cases hsome : taken = []
      · rw [hsome, List.append_nil, hdone.keeps.directory top ((holdsDirectory_iff top).mp hempty.1)] at hnode
        cases hnode
      · rcases hdone.node?_eq hempty hsome hnode with ⟨hkind, -⟩ | ⟨other, hother, rfl, -⟩
        · cases hkind
        · exact hnew other hother (hclear other (by simp [hother]) file (by simp) htaken)
    have hfree : middle.node? (top ++ file.path.parts) ≠ some .directory := by
      intro hnode
      rcases hdone.node?_eq hempty hfirst.1 hnode with ⟨-, other, hother, hfront, -⟩ | ⟨other, -, -, hkind⟩
      · exact hnew other hother (hclear file (by simp) other (by simp [hother]) hfront).symm
      · cases hkind
    obtain ⟨next, hplaced, hrun⟩ := exists_writeFiles_cons (hleads.keeps hdone.keeps) hfirst haccepts hstorable
      hpassable hfree rest
    rw [List.append_cons] at hnodup hclear
    obtain ⟨after, hrest, hholds⟩ := ih (hdone.concat hplaced hnew) hnamed hfits hnodup hclear
    rw [← List.append_cons] at hholds
    exact ⟨after, by rw [hrun, hrest]; rfl, hholds⟩

/-- A run into an empty directory only ends well for files that fit and are in no other's way. -/
theorem fits_of_writeFiles (hempty : IsEmptyAt tree top) (hleads : tree.LeadsTo (FilePath.base dir) top)
    (hnamed : ∀ file ∈ files, file.path.IsNamed) {written : List FilePath}
    (hrun : writeFiles tree dir files = (after, .ok written)) : Fits dir files ∧ IsClear files := by
  have haccepts := (written_of_writeFiles hrun).2
  obtain ⟨-, hstored, hall⟩ := kinds_of_writeFiles hleads (stored_of_isEmptyAt hempty) hnamed hrun
  refine ⟨fun file hfile => ⟨haccepts file hfile, ?_⟩, fun file hfile other hother hfront => ?_⟩
  · obtain ⟨content, hnode⟩ := (hall file hfile).1
    exact hstored file.path.parts (by rw [hnode, Option.isSome_some])
  · obtain ⟨content, hnode⟩ := (hall file hfile).1
    by_cases heq : file.path.parts = other.path.parts
    · exact congrArg FilePath.mk heq
    · rw [(hall other hother).2 file.path.parts (hnamed file hfile).1 hfront heq] at hnode
      cases hnode

/-- The first file is written into an empty directory, however the run ends. -/
theorem first_of_writeFiles (hempty : IsEmptyAt tree top) (hleads : tree.LeadsTo (FilePath.base dir) top)
    (hnamed : ∀ other ∈ file :: files, other.path.IsNamed) (hfits : Fits dir (file :: files))
    (hnodup : ((file :: files).map fun file => file.path).Nodup) :
    (writeFiles tree dir (file :: files)).1.node? (top ++ file.path.parts) = some (.file file.text.toUTF8) := by
  obtain ⟨hfirst, hnamed⟩ := List.forall_mem_cons.mp hnamed
  obtain ⟨⟨haccepts, hstorable⟩, hfits⟩ := List.forall_mem_cons.mp hfits
  obtain ⟨next, hplaced, hrun⟩ := exists_writeFiles_cons hleads hfirst haccepts hstorable
    (fun taken _ _ content hnode => by
      by_cases hsome : taken = []
      · rw [hsome, List.append_nil, (holdsDirectory_iff top).mp hempty.1] at hnode
        cases hnode
      · rw [hempty.2 taken hsome] at hnode
        cases hnode)
    (by
      rw [hempty.2 _ hfirst.1]
      rintro ⟨⟩) files
  rw [hrun]
  refine node?_of_writeFiles (hleads.keeps hplaced.keeps) hnamed (fun other hother => (hfits other hother).1)
    hplaced.file fun other hother heq => ?_
  rw [List.map_cons, List.nodup_cons] at hnodup
  refine hnodup.1 (List.mem_map.mpr ⟨other, hother, ?_⟩)
  exact congrArg FilePath.mk (List.append_cancel_left heq).symm

end Empty

end Project

end Phrasebook
