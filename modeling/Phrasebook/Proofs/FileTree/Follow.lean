import Phrasebook.Proofs.FilePath
import Phrasebook.Proofs.Outcome

/-! # Following paths

A path leads to one place at most, and parts that stand for nothing do not change it. Where directories stay
directories and files stay files, a path that leads somewhere leads there still.
-/

namespace Phrasebook.FileTree

open FilePath (IsStep isBlank above)

section Follow

variable {tree : FileTree} {here there location : Location} {name : String} {names : List String}
variable {path : FilePath}

theorem holdsDirectory_iff (location : Location) :
    tree.holdsDirectory location = true ↔ tree.node? location = some .directory := by
  rw [holdsDirectory]
  split
  · rename_i h
    simp [h]
  · rename_i h
    simpa using h

theorem step_eq_ok_name {here : Location} (h : tree.step here name = .ok there) :
    name = "" ∨ name = "." ∨ name = ".." ∨ (tree.node? (here ++ [name])).isSome = true := by
  rw [step] at h
  split at h
  · cases h
  · split at h
    · rename_i hblank
      rw [FilePath.isBlank, Bool.or_eq_true, decide_eq_true_eq, decide_eq_true_eq] at hblank
      exact hblank.imp_right .inl
    · split at h
      · rename_i hup
        exact .inr (.inr (.inl hup))
      · split at h
        · rename_i hsome
          exact .inr (.inr (.inr hsome))
        · cases h

theorem holdsDirectory_of_step {here : Location} (h : tree.step here name = .ok there) :
    tree.holdsDirectory here = true := by
  rw [step] at h
  split at h
  · cases h
  · rename_i hholds
    rw [Bool.not_eq_true, Bool.not_eq_false'] at hholds
    exact hholds

theorem step_name (hname : IsStep name) (hdirectory : tree.holdsDirectory here = true) :
    tree.step here name =
      if (tree.node? (here ++ [name])).isSome then .ok (here ++ [name]) else .error .missing := by
  rw [step, hdirectory, if_neg (by simp), if_neg (by simp [hname.1]), if_neg hname.2]

theorem follow_append (start : Location) (first second : List String) :
    tree.follow start (first ++ second) = tree.follow start first >>= fun here => tree.follow here second :=
  List.foldlM_append

theorem follow_cons (start : Location) (part : String) (rest : List String) :
    tree.follow start (part :: rest) = tree.step start part >>= fun here => tree.follow here rest :=
  List.foldlM_cons

theorem follow_single (start : Location) (part : String) : tree.follow start [part] = tree.step start part := by
  rw [follow_cons]
  cases tree.step start part <;> rfl

theorem step_blank_eq_ok_iff {part : String} (hpart : isBlank part = true) (here there : Location) :
    tree.step here part = .ok there ↔ tree.holdsDirectory here = true ∧ there = here := by
  rw [step]
  cases tree.holdsDirectory here with
  | true => simp [hpart, eq_comm]
  | false => simp

theorem follow_blanks {blanks : List String} (hblanks : ∀ part ∈ blanks, isBlank part = true)
    {here there : Location} (h : tree.follow here blanks = .ok there) : there = here := by
  induction blanks with
  | nil =>
    cases h
    rfl
  | cons part rest ih =>
    obtain ⟨hpart, hrest⟩ := List.forall_mem_cons.mp hblanks
    rw [follow_cons, Outcome.bind_eq_ok_iff] at h
    obtain ⟨next, hnext, h⟩ := h
    obtain ⟨-, rfl⟩ := (step_blank_eq_ok_iff hpart _ _).mp hnext
    exact ih hrest h

/-- Parts at the end that stand for nothing can be left out. -/
theorem follow_of_append_blanks {parts blanks : List String}
    (hblanks : ∀ part ∈ blanks, isBlank part = true) {start there : Location}
    (h : tree.follow start (parts ++ blanks) = .ok there) : tree.follow start parts = .ok there := by
  rw [follow_append, Outcome.bind_eq_ok_iff] at h
  obtain ⟨here, hhere, h⟩ := h
  rw [follow_blanks hblanks h]
  exact hhere

theorem follow_above {parts : List String} {start there : Location}
    (h : tree.follow start parts = .ok there) (hdirectory : tree.holdsDirectory there = true) :
    tree.follow start (above parts) = .ok there := by
  have hstay : tree.step there "" = .ok there := (step_blank_eq_ok_iff rfl _ _).mpr ⟨hdirectory, rfl⟩
  cases parts with
  | nil =>
    cases h
    rw [above, follow_single, hstay]
  | cons first rest =>
    obtain ⟨blanks, hblanks, hall⟩ := FilePath.exists_settle_append rest
    have hshort : tree.follow start (first :: FilePath.settle rest) = .ok there := by
      rw [hblanks, ← List.cons_append] at h
      exact follow_of_append_blanks hall h
    rw [above]
    split
    · rename_i hempty
      subst hempty
      split
      · rename_i hnil
        rw [hnil, follow_single] at hshort
        rw [follow_cons, hshort]
        exact (follow_single there "").trans hstay
      · exact hshort
    · split
      · rename_i hpoint
        subst hpoint
        exact hshort
      · obtain ⟨blanks, hblanks, hall⟩ := FilePath.exists_settle_append (first :: rest)
        rw [hblanks] at h
        exact follow_of_append_blanks hall h

theorem locate_eq_ok_iff : tree.locate path = .ok location ↔
    accepts path = true ∧ path.parts ≠ [""] ∧ tree.follow (tree.startOf path) path.parts = .ok location := by
  rw [locate]
  cases accepts path with
  | false => simp
  | true => by_cases hparts : path.parts = [""] <;> simp [hparts]

theorem isDirectory_eq_holdsDirectory (haccepts : accepts path = true) (hempty : path.parts ≠ [""])
    (hfollow : tree.follow (tree.startOf path) path.parts = .ok there) :
    tree.isDirectory path = tree.holdsDirectory there := by
  rw [isDirectory, lookup?, locate_eq_ok_iff.mpr ⟨haccepts, hempty, hfollow⟩]
  rfl

theorem follow_steps (hnames : ∀ name ∈ names, IsStep name)
    (h : tree.follow here names = .ok there) : there = here ++ names := by
  induction names generalizing here with
  | nil =>
    cases h
    exact (List.append_nil _).symm
  | cons name rest ih =>
    obtain ⟨hname, hrest⟩ := List.forall_mem_cons.mp hnames
    rw [follow_cons, Outcome.bind_eq_ok_iff] at h
    obtain ⟨next, hstep, h⟩ := h
    rw [step_name hname (holdsDirectory_of_step hstep)] at hstep
    split at hstep
    · cases hstep
      rw [List.append_cons]
      exact ih hrest h
    · cases hstep

theorem follow_directories (hnames : ∀ name ∈ names, IsStep name) (hhere : tree.holdsDirectory here = true)
    (hdirectories : ∀ taken, taken ≠ [] → taken <+: names → tree.node? (here ++ taken) = some .directory) :
    tree.follow here names = .ok (here ++ names) ∧ tree.holdsDirectory (here ++ names) = true := by
  induction names generalizing here with
  | nil =>
    rw [List.append_nil]
    exact ⟨rfl, hhere⟩
  | cons name rest ih =>
    obtain ⟨hname, hrest⟩ := List.forall_mem_cons.mp hnames
    have hfirst := hdirectories [name] (List.cons_ne_nil _ _) (List.prefix_cons_inj name |>.mpr List.nil_prefix)
    rw [follow_cons, step_name hname hhere, hfirst, List.append_cons here name rest]
    refine ih hrest ((holdsDirectory_iff _).mpr hfirst) fun taken _ htaken => ?_
    rw [← List.append_cons]
    exact hdirectories (name :: taken) (List.cons_ne_nil _ _) (List.prefix_cons_inj name |>.mpr htaken)

end Follow

section Accepts

theorem text_cons_cons (part next : String) (rest : List String) :
    FilePath.text ⟨part :: next :: rest⟩ = part ++ "/" ++ FilePath.text ⟨next :: rest⟩ :=
  String.intercalate_cons_cons

/-- The bytes of parts with a slash before each of them. -/
def slashedSize : List String → Nat
  | [] => 0
  | part :: rest => 1 + part.utf8ByteSize + slashedSize rest

theorem slashedSize_append (first second : List String) :
    slashedSize (first ++ second) = slashedSize first + slashedSize second := by
  induction first with
  | nil => rw [List.nil_append, slashedSize, Nat.zero_add]
  | cons part rest ih =>
    rw [List.cons_append, slashedSize, slashedSize, ih]
    omega

theorem utf8ByteSize_text (part : String) (rest : List String) :
    (FilePath.text ⟨part :: rest⟩).utf8ByteSize = part.utf8ByteSize + slashedSize rest := by
  induction rest generalizing part with
  | nil => rw [FilePath.text, String.intercalate_singleton, slashedSize, Nat.add_zero]
  | cons next rest ih =>
    have hslash : "/".utf8ByteSize = 1 := rfl
    rw [text_cons_cons, String.utf8ByteSize_append, String.utf8ByteSize_append, ih, hslash, slashedSize]
    omega

theorem mem_text_iff {c : Char} (hc : c ≠ '/') (parts : List String) :
    c ∈ (FilePath.text ⟨parts⟩).toList ↔ ∃ part ∈ parts, c ∈ part.toList := by
  rcases parts with _ | ⟨part, rest⟩
  · simp [FilePath.text]
  induction rest generalizing part with
  | nil => simp [FilePath.text]
  | cons next rest ih =>
    rw [text_cons_cons, String.toList_append, String.toList_append, List.mem_append, List.mem_append, ih]
    simp [hc]

/-- Whether a path is followed at all is told by its parts. -/
theorem accepts_cons_iff (first : String) (rest : List String) :
    accepts ⟨first :: rest⟩ = true ↔
      first.utf8ByteSize + slashedSize rest ≤ maximalPathSize ∧ ∀ part ∈ first :: rest, '\x00' ∉ part.toList := by
  rw [accepts, Bool.and_eq_true, decide_eq_true_eq, utf8ByteSize_text, Bool.not_eq_true', ← Bool.not_eq_true,
    List.contains_iff_mem, mem_text_iff (by decide)]
  refine and_congr_right fun _ => ?_
  rw [not_exists]
  exact forall_congr' fun part => not_and

/-- A path that is not followed at all cannot be at the front of one that is. -/
theorem accepts_of_append {first more : List String} (h : accepts ⟨first ++ more⟩ = true) :
    accepts ⟨first⟩ = true := by
  cases first with
  | nil => decide
  | cons part parts =>
    rw [List.cons_append, accepts_cons_iff, slashedSize_append] at h
    rw [accepts_cons_iff]
    exact ⟨by omega, fun part hpart => h.2 part (List.mem_append_left more hpart)⟩

theorem accepts_above {parts : List String} {name : String} (h : accepts ⟨parts ++ [name]⟩ = true) :
    accepts ⟨above parts⟩ = true := by
  cases parts with
  | nil => decide
  | cons first rest =>
    have hparts := accepts_of_append h
    obtain ⟨blanks, hblanks, -⟩ := FilePath.exists_settle_append rest
    have hshort : accepts ⟨first :: FilePath.settle rest⟩ = true := by
      rw [hblanks, ← List.cons_append] at hparts
      exact accepts_of_append hparts
    rw [above]
    split
    · rename_i hempty
      split
      · decide
      · exact hempty ▸ hshort
    · split
      · rename_i hpoint
        exact hpoint ▸ hshort
      · obtain ⟨blanks, hblanks, -⟩ := FilePath.exists_settle_append (first :: rest)
        rw [hblanks] at hparts
        exact accepts_of_append hparts

end Accepts

/-! ## What stays -/

/-- Directories stay directories, and files stay files, with any content. -/
structure Keeps (tree next : FileTree) : Prop where
  workingDir : next.workingDir = tree.workingDir
  directory : ∀ location, tree.node? location = some .directory → next.node? location = some .directory
  file : ∀ location content, tree.node? location = some (.file content) →
    ∃ content, next.node? location = some (.file content)

/-- Everything stays as it is; there may be more. -/
structure Grows (tree next : FileTree) : Prop where
  workingDir : next.workingDir = tree.workingDir
  node : ∀ location node, tree.node? location = some node → next.node? location = some node

section Keeps

variable {tree next last : FileTree} {here there : Location} {parts names : List String}

theorem Grows.keeps (h : tree.Grows next) : tree.Keeps next :=
  ⟨h.workingDir, fun location hnode => h.node location _ hnode,
    fun location content hnode => ⟨content, h.node location _ hnode⟩⟩

theorem Grows.refl (tree : FileTree) : tree.Grows tree := ⟨rfl, fun _ _ h => h⟩

theorem Grows.trans (first : tree.Grows next) (second : next.Grows last) : tree.Grows last :=
  ⟨second.workingDir.trans first.workingDir,
    fun location node h => second.node location node (first.node location node h)⟩

theorem Keeps.refl (tree : FileTree) : tree.Keeps tree := (Grows.refl tree).keeps

theorem Keeps.trans (first : tree.Keeps next) (second : next.Keeps last) : tree.Keeps last where
  workingDir := second.workingDir.trans first.workingDir
  directory location h := second.directory location (first.directory location h)
  file location content h := by
    obtain ⟨content, hnext⟩ := first.file location content h
    exact second.file location content hnext

theorem Keeps.holdsDirectory (h : tree.Keeps next) (hdirectory : tree.holdsDirectory here = true) :
    next.holdsDirectory here = true :=
  (holdsDirectory_iff here).mpr (h.directory here ((holdsDirectory_iff here).mp hdirectory))

theorem Keeps.isSome (h : tree.Keeps next) (hsome : (tree.node? here).isSome = true) :
    (next.node? here).isSome = true := by
  obtain ⟨node, hnode⟩ := Option.isSome_iff_exists.mp hsome
  cases node with
  | directory => rw [h.directory here hnode, Option.isSome_some]
  | file content =>
    obtain ⟨content, hnext⟩ := h.file here content hnode
    rw [hnext, Option.isSome_some]

theorem Keeps.step (h : tree.Keeps next) {part : String} (hstep : tree.step here part = .ok there) :
    next.step here part = .ok there := by
  have hdirectory := holdsDirectory_of_step hstep
  rw [FileTree.step, hdirectory, Bool.not_true, if_neg Bool.false_ne_true] at hstep
  rw [FileTree.step, h.holdsDirectory hdirectory, Bool.not_true, if_neg Bool.false_ne_true]
  split
  · rename_i hblank
    rw [if_pos hblank] at hstep
    exact hstep
  · rename_i hblank
    rw [if_neg hblank] at hstep
    split
    · rename_i hup
      rw [if_pos hup] at hstep
      exact hstep
    · rename_i hup
      rw [if_neg hup] at hstep
      split at hstep
      · rename_i hsome
        rw [if_pos (h.isSome hsome)]
        exact hstep
      · cases hstep

/-- A path that leads somewhere leads there still. -/
theorem Keeps.follow (h : tree.Keeps next) (hfollow : tree.follow here parts = .ok there) :
    next.follow here parts = .ok there := by
  induction parts generalizing here with
  | nil => exact hfollow
  | cons part rest ih =>
    rw [follow_cons, Outcome.bind_eq_ok_iff] at hfollow
    obtain ⟨middle, hstep, hrest⟩ := hfollow
    rw [follow_cons, h.step hstep]
    exact ih hrest

theorem grows_put {node : Node} (hplace : here ≠ []) (hmissing : tree.node? here = none) :
    tree.Grows (tree.put here node) := by
  refine ⟨rfl, fun location present hpresent => ?_⟩
  rw [node?_put tree hplace, if_neg, hpresent]
  rintro rfl
  rw [hmissing] at hpresent
  cases hpresent

end Keeps

/-! ## Paths below a directory -/

def startAt (tree : FileTree) (base : List String) : Location :=
  if base.head? = some "" then [] else tree.workingDir

/-- Parts at the front of a path that lead to a directory. -/
structure LeadsTo (tree : FileTree) (base : List String) (top : Location) : Prop where
  follow : tree.follow (tree.startAt base) base = .ok top
  directory : tree.holdsDirectory top = true

section LeadsTo

variable {tree next : FileTree} {base : List String} {top : Location} {names : List String} {name : String}

theorem startOf_append_step (hname : IsStep name) (rest : List String) :
    tree.startOf ⟨base ++ name :: rest⟩ = tree.startAt base := by
  rw [startOf, startAt, FilePath.isAbsolute_append_step base hname]
  simp only [decide_eq_true_eq]

theorem startOf_append {parts : List String} (hparts : ∀ part ∈ parts, IsStep part) (hsome : parts ≠ []) :
    tree.startOf ⟨base ++ parts⟩ = tree.startAt base := by
  cases parts with
  | nil => exact absurd rfl hsome
  | cons name rest => exact startOf_append_step (hparts name List.mem_cons_self) rest

theorem startOf_above (tree : FileTree) (base : List String) :
    tree.startOf ⟨above base⟩ = tree.startAt base := by
  have hname : IsStep "a" := by decide
  rw [← startOf_append_step hname [], startOf, startOf, FilePath.isAbsolute_above base hname]

theorem LeadsTo.keeps (h : tree.LeadsTo base top) (hkeeps : tree.Keeps next) : next.LeadsTo base top := by
  refine ⟨?_, hkeeps.holdsDirectory h.directory⟩
  rw [startAt, hkeeps.workingDir]
  exact hkeeps.follow h.follow

theorem leadsTo_of_locate {dir : FilePath} (h : tree.locate dir = .ok top)
    (hdirectory : tree.holdsDirectory top = true) : tree.LeadsTo (FilePath.base dir) top := by
  obtain ⟨parts⟩ := dir
  obtain ⟨-, hparts, h⟩ := locate_eq_ok_iff.mp h
  refine ⟨?_, hdirectory⟩
  rw [FilePath.base]
  split
  · -- the slash at the end of the path is taken away
    rename_i hlast
    obtain ⟨init, rfl⟩ := List.getLast?_eq_some_iff.mp hlast
    rw [List.dropLast_concat]
    have hstart : tree.startOf ⟨init ++ [""]⟩ = tree.startAt init := by
      cases init with
      | nil => exact absurd rfl hparts
      | cons first more =>
        cases more <;> by_cases hfirst : first = "" <;> simp [startOf, startAt, FilePath.isAbsolute, hfirst]
    rw [← hstart]
    exact follow_of_append_blanks (by simp [FilePath.isBlank]) h
  · rename_i hlast
    have hstart : tree.startOf ⟨parts⟩ = tree.startAt parts := by
      rcases parts with _ | ⟨first, _ | ⟨second, more⟩⟩
      · rfl
      · simp_all [startOf, startAt, FilePath.isAbsolute]
      · by_cases hfirst : first = "" <;> simp [startOf, startAt, FilePath.isAbsolute, hfirst]
    rw [← hstart]
    exact h

end LeadsTo

end Phrasebook.FileTree
