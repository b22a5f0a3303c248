import Phrasebook.Proofs.FileTree.Follow

/-! # Making directories below a directory

Below a present directory, making a directory goes down name by name: directories on the way are passed,
missing ones are made, and a file on the way stops it.
-/

namespace Phrasebook.FileTree

open FilePath (IsStep isBlank above)

section Site

variable {tree : FileTree} {path : FilePath} {parts : List String} {name : String} {there : Location}

theorem siteOf_eq_bind (haccepts : accepts path = true) (parts : List String) :
    tree.siteOf path parts =
      tree.follow (tree.startOf path) parts.dropLast >>= fun parent =>
        if tree.holdsDirectory parent then .ok (parent, parts.getLast?.getD "") else .error .notDirectory := by
  rw [siteOf, haccepts]
  rfl

theorem siteOf_append (haccepts : accepts path = true) (parts : List String) (name : String) :
    tree.siteOf path (parts ++ [name]) =
      tree.follow (tree.startOf path) parts >>= fun parent =>
        if tree.holdsDirectory parent then .ok (parent, name) else .error .notDirectory := by
  rw [siteOf_eq_bind haccepts, List.dropLast_concat, List.getLast?_concat]
  rfl

theorem siteOf_append_eq_ok (haccepts : accepts path = true)
    (hfollow : tree.follow (tree.startOf path) parts = .ok there) (hdirectory : tree.holdsDirectory there = true) :
    tree.siteOf path (parts ++ [name]) = .ok (there, name) := by
  rw [siteOf_append haccepts, hfollow]
  exact if_pos hdirectory

/-- Only slashes at the end of a directory's path do not count. -/
theorem exists_trimmed_append (parts : List String) :
    ∃ slashes, parts = (parts.reverse.dropWhile (· = "")).reverse ++ slashes ∧
      ∀ part ∈ slashes, isBlank part = true := by
  refine ⟨parts.rtakeWhile (· = ""), List.rdropWhile_append_rtakeWhile.symm, fun part hpart => ?_⟩
  have := List.mem_rtakeWhile_imp hpart
  simp [isBlank, of_decide_eq_true this]

theorem makeDirectory_present (haccepts : accepts path = true)
    (hfollow : tree.follow (tree.startOf path) path.parts = .ok there)
    (hdirectory : tree.holdsDirectory there = true) :
    tree.makeDirectory path = .present := by
  obtain ⟨slashes, hslashes, hall⟩ := exists_trimmed_append path.parts
  rw [makeDirectory]
  generalize (path.parts.reverse.dropWhile (· = "")).reverse = parts at hslashes
  rw [hslashes] at hfollow
  have hparts := follow_of_append_blanks hall hfollow
  rcases List.eq_nil_or_concat parts with rfl | ⟨init, name, rfl⟩
  · cases hparts
    have hsite : tree.siteOf path [] = .ok (tree.startOf path, "") := by
      rw [siteOf_eq_bind haccepts]
      exact if_pos hdirectory
    simp [hsite]
  · rw [List.concat_eq_append, follow_append, Outcome.bind_eq_ok_iff] at hparts
    obtain ⟨parent, hparent, hstep⟩ := hparts
    rw [follow_single] at hstep
    rw [List.concat_eq_append, siteOf_append_eq_ok haccepts hparent (holdsDirectory_of_step hstep)]
    dsimp only
    rw [if_pos]
    rcases step_eq_ok_name hstep with h | h | h | h <;> simp [h]

theorem makeDirectories_present (haccepts : accepts path = true)
    (hfollow : tree.follow (tree.startOf path) path.parts = .ok there)
    (hdirectory : tree.holdsDirectory there = true) : tree.makeDirectories path = (tree, true) := by
  rw [makeDirectories, FilePath.ancestors, List.takeWhile_cons]
  split
  · rename_i hparent
    have hlocate : path.parts ≠ [""] := by
      intro hempty
      rw [FilePath.parent?, hempty] at hparent
      cases hparent
    rw [makeAmong, makeDirectory_present haccepts hfollow hdirectory]
    dsimp only
    rw [isDirectory_eq_holdsDirectory haccepts hlocate hfollow, hdirectory]
  · rfl

end Site

/-! ## Going down name by name -/

/-- Makes the directories of names, each inside the one before it. -/
def makeBelow (tree : FileTree) (here : Location) : List String → FileTree × Bool
  | [] => (tree, true)
  | name :: rest =>
    match tree.node? (here ++ [name]) with
    | some .directory => tree.makeBelow (here ++ [name]) rest
    | some (.file _) => (tree, false)
    | none =>
      if isStorable name then (tree.put (here ++ [name]) .directory).makeBelow (here ++ [name]) rest
      else (tree, false)

section Below

variable {tree : FileTree} {here : Location} {parts names : List String} {name : String}

theorem makeBelow_append (tree : FileTree) (here : Location) (first second : List String) :
    tree.makeBelow here (first ++ second) =
      match tree.makeBelow here first with
      | (tree, true) => tree.makeBelow (here ++ first) second
      | (tree, false) => (tree, false) := by
  induction first generalizing tree here with
  | nil => rw [List.nil_append, makeBelow, List.append_nil]
  | cons name rest ih =>
    have hplace : here ++ name :: rest = (here ++ [name]) ++ rest := List.append_cons here name rest
    rw [List.cons_append, makeBelow, makeBelow, hplace]
    split
    · exact ih tree (here ++ [name])
    · rfl
    · split
      · exact ih (tree.put (here ++ [name]) .directory) (here ++ [name])
      · rfl

theorem makeDirectory_below (haccepts : accepts ⟨parts ++ [name]⟩ = true) (hname : IsStep name)
    (hfollow : tree.follow (tree.startOf ⟨parts ++ [name]⟩) parts = .ok here)
    (hdirectory : tree.holdsDirectory here = true) :
    tree.makeDirectory ⟨parts ++ [name]⟩ =
      if (tree.node? (here ++ [name])).isSome then .present
      else if isStorable name then .fresh (tree.put (here ++ [name]) .directory)
      else .refused := by
  have hparts : ((parts ++ [name]).reverse.dropWhile (· = "")).reverse = parts ++ [name] :=
    List.rdropWhile_concat_neg _ _ _ (by simpa using hname.ne_empty)
  rw [makeDirectory, hparts, siteOf_append_eq_ok haccepts hfollow hdirectory]
  simp [hname.ne_empty, hname.ne_point, hname.2]

theorem makeDirectory_astray (hname : IsStep name)
    {obstacle : Obstacle}
    (hsite : tree.siteOf ⟨parts ++ [name]⟩ (parts ++ [name]) = .error obstacle) :
    tree.makeDirectory ⟨parts ++ [name]⟩ = if obstacle = .missing then .orphan else .refused := by
  have hparts : ((parts ++ [name]).reverse.dropWhile (· = "")).reverse = parts ++ [name] :=
    List.rdropWhile_concat_neg _ _ _ (by simpa using hname.ne_empty)
  rw [makeDirectory, hparts, hsite]
  cases obstacle <;> rfl

theorem isDirectory_below (haccepts : accepts ⟨parts ++ [name]⟩ = true) (hname : IsStep name)
    (hfollow : tree.follow (tree.startOf ⟨parts ++ [name]⟩) parts = .ok here)
    (hdirectory : tree.holdsDirectory here = true) (hsome : (tree.node? (here ++ [name])).isSome = true) :
    tree.isDirectory ⟨parts ++ [name]⟩ = tree.holdsDirectory (here ++ [name]) := by
  have hempty : parts ++ [name] ≠ [""] := by
    cases parts with
    | nil => simpa using hname.ne_empty
    | cons first rest => simp
  refine isDirectory_eq_holdsDirectory haccepts hempty ?_
  rw [follow_append, hfollow]
  change tree.follow here [name] = _
  rw [follow_single, step_name hname hdirectory, if_pos hsome]

theorem makeBelow_single (haccepts : accepts ⟨parts ++ [name]⟩ = true) (hname : IsStep name)
    (hfollow : tree.follow (tree.startOf ⟨parts ++ [name]⟩) parts = .ok here)
    (hdirectory : tree.holdsDirectory here = true) :
    tree.makeBelow here [name] =
      match tree.makeDirectory ⟨parts ++ [name]⟩ with
      | .fresh tree => (tree, true)
      | .present => (tree, tree.isDirectory ⟨parts ++ [name]⟩)
      | _ => (tree, false) := by
  have hpresent := isDirectory_below haccepts hname hfollow hdirectory
  rw [makeDirectory_below haccepts hname hfollow hdirectory, makeBelow]
  cases hnode : tree.node? (here ++ [name]) with
  | none =>
    cases isStorable name <;> rfl
  | some node =>
    rw [hnode] at hpresent
    rw [Option.isSome_some, if_pos rfl]
    dsimp only
    rw [hpresent rfl, holdsDirectory, hnode]
    cases node <;> rfl

/-- What following names tells about making their directories. -/
theorem makeBelow_of_follow (hnames : ∀ name ∈ names, IsStep name) (hdirectory : tree.holdsDirectory here = true) :
    match tree.follow here names with
    | .ok there => there = here ++ names ∧ tree.makeBelow here names = (tree, tree.holdsDirectory there)
    | .error obstacle => obstacle ≠ .missing → tree.makeBelow here names = (tree, false) := by
  induction names generalizing here with
  | nil =>
    rw [makeBelow, ← hdirectory]
    exact ⟨(List.append_nil here).symm, rfl⟩
  | cons name rest ih =>
    obtain ⟨hname, hrest⟩ := List.forall_mem_cons.mp hnames
    have hfollow : tree.follow here (name :: rest) = tree.step here name >>= fun here => tree.follow here rest :=
      follow_cons here name rest
    rw [step_name hname hdirectory] at hfollow
    rw [makeBelow]
    cases hnode : tree.node? (here ++ [name]) with
    | none =>
      rw [hfollow, hnode]
      exact fun hmissing => absurd rfl hmissing
    | some node =>
      rw [hnode] at hfollow
      replace hfollow : tree.follow here (name :: rest) = tree.follow (here ++ [name]) rest := hfollow
      rw [hfollow, List.append_cons here name rest]
      cases node with
      | directory => exact ih hrest ((holdsDirectory_iff _).mpr hnode)
      | file content =>
        have hfile : tree.holdsDirectory (here ++ [name]) = false := by
          rw [holdsDirectory, hnode]
        cases rest with
        | nil => exact ⟨(List.append_nil _).symm, by rw [hfile]⟩
        | cons next more =>
          rw [follow_cons, step, hfile, Bool.not_false, if_pos rfl]
          exact fun _ => rfl

theorem grows_makeBelow (tree : FileTree) (here : Location) (names : List String) :
    tree.Grows (tree.makeBelow here names).1 := by
  induction names generalizing tree here with
  | nil => exact Grows.refl tree
  | cons name rest ih =>
    rw [makeBelow]
    split
    · exact ih tree (here ++ [name])
    · exact Grows.refl tree
    · rename_i hmissing
      split
      · exact (grows_put (by simp) hmissing).trans (ih _ _)
      · exact Grows.refl tree

theorem grows_of_makeBelow {next : FileTree} {made : Bool} (h : tree.makeBelow here names = (next, made)) :
    tree.Grows next := by
  have hgrows := grows_makeBelow tree here names
  rw [h] at hgrows
  exact hgrows

end Below

/-! ## What is made -/

section Made

variable {tree next : FileTree} {here : Location} {names : List String}

theorem directory_of_makeBelow (h : tree.makeBelow here names = (next, true)) {taken : List String}
    (hsome : taken ≠ []) (htaken : taken <+: names) : next.node? (here ++ taken) = some .directory := by
  induction names generalizing tree here taken with
  | nil => exact absurd (List.prefix_nil.mp htaken) hsome
  | cons name rest ih =>
    obtain hnil | ⟨more, rfl, hmore⟩ := List.prefix_cons_iff.mp htaken
    · exact absurd hnil hsome
    -- the first name is a directory before the others are made, and stays one
    have hdown {middle : FileTree} (hfirst : middle.node? (here ++ [name]) = some .directory)
        (hrest : middle.makeBelow (here ++ [name]) rest = (next, true)) :
        next.node? (here ++ name :: more) = some .directory := by
      cases more with
      | nil => exact (grows_of_makeBelow hrest).node _ _ hfirst
      | cons second more =>
        rw [List.append_cons here name]
        exact ih hrest (List.cons_ne_nil _ _) hmore
    rw [makeBelow] at h
    split at h
    · rename_i hnode
      exact hdown hnode h
    · cases h
    · split at h
      · exact hdown (by rw [node?_put tree (by simp), if_pos rfl]) h
      · cases h

theorem other_of_makeBelow (h : tree.makeBelow here names = (next, true)) {location : Location}
    (hother : ∀ taken, taken ≠ [] → taken <+: names → location ≠ here ++ taken) :
    next.node? location = tree.node? location := by
  induction names generalizing tree here with
  | nil =>
    cases h
    rfl
  | cons name rest ih =>
    have hdeeper : ∀ taken, taken ≠ [] → taken <+: rest → location ≠ here ++ [name] ++ taken := by
      intro taken _ htaken
      rw [← List.append_cons]
      exact hother (name :: taken) (List.cons_ne_nil _ _) (List.prefix_cons_inj name |>.mpr htaken)
    have hfirst : location ≠ here ++ [name] :=
      hother [name] (List.cons_ne_nil _ _) (List.prefix_cons_inj name |>.mpr List.nil_prefix)
    rw [makeBelow] at h
    split at h
    · exact ih h hdeeper
    · cases h
    · split at h
      · rw [ih h hdeeper, node?_put tree (by simp), if_neg hfirst]
      · cases h

theorem exists_makeBelow (hstorable : ∀ name ∈ names, isStorable name = true)
    (hfree : ∀ taken, taken <+: names → ∀ content, tree.node? (here ++ taken) ≠ some (.file content)) :
    ∃ next, tree.makeBelow here names = (next, true) := by
  induction names generalizing tree here with
  | nil => exact ⟨tree, rfl⟩
  | cons name rest ih =>
    obtain ⟨hname, hrest⟩ := List.forall_mem_cons.mp hstorable
    have hdeeper : ∀ taken, taken <+: rest → ∀ content,
        tree.node? (here ++ [name] ++ taken) ≠ some (.file content) := by
      intro taken htaken
      rw [← List.append_cons]
      exact hfree (name :: taken) (List.prefix_cons_inj name |>.mpr htaken)
    rw [makeBelow]
    split
    · exact ih hrest hdeeper
    · rename_i content hnode
      exact absurd hnode (hfree [name] (List.prefix_cons_inj name |>.mpr List.nil_prefix) content)
    · rw [if_pos hname]
      refine ih hrest fun taken htaken content => ?_
      rw [node?_put tree (by simp)]
      split
      · rintro ⟨⟩
      · exact hdeeper taken htaken content

end Made

/-! ## Paths below a directory -/

section LeadsTo

variable {tree next : FileTree} {base : List String} {top : Location} {names : List String} {name : String}

theorem makeAmong_reached {parts : List String} {here : Location} (haccepts : accepts ⟨parts ++ [name]⟩ = true)
    (hname : IsStep name) (hfollow : tree.follow (tree.startOf ⟨parts ++ [name]⟩) parts = .ok here)
    (hdirectory : tree.holdsDirectory here = true) (around : List FilePath) :
    tree.makeAmong (⟨parts ++ [name]⟩ :: around) = tree.makeBelow here [name] := by
  rw [makeBelow_single haccepts hname hfollow hdirectory, makeAmong,
    makeDirectory_below haccepts hname hfollow hdirectory]
  cases (tree.node? (here ++ [name])).isSome with
  | true => rfl
  | false => cases isStorable name <;> rfl

theorem exists_makeDirectories_eq (tree : FileTree) (parts : List String) (hname : IsStep name) :
    ∃ around, tree.makeDirectories ⟨parts ++ [name]⟩ = tree.makeAmong (⟨parts ++ [name]⟩ :: around) := by
  have hparent : (FilePath.parent? ⟨parts ++ [name]⟩).isSome = true := by
    rw [FilePath.parent?_append_step parts hname, Option.isSome_some]
  rw [makeDirectories, FilePath.ancestors, List.takeWhile_cons, hparent]
  exact ⟨_, rfl⟩

/-- The directories around a second name are those that the first one asks for. -/
theorem makeDirectories_orphan (parts : List String) {first : String} (hfirst : IsStep first)
    (hname : IsStep name) (horphan : tree.makeDirectory ⟨parts ++ [first] ++ [name]⟩ = .orphan) :
    tree.makeDirectories ⟨parts ++ [first] ++ [name]⟩ =
      match tree.makeDirectories ⟨parts ++ [first]⟩ with
      | (tree, false) => (tree, false)
      | (tree, true) =>
        match tree.makeDirectory ⟨parts ++ [first] ++ [name]⟩ with
        | .fresh tree => (tree, true)
        | .present => (tree, tree.isDirectory ⟨parts ++ [first] ++ [name]⟩)
        | _ => (tree, false) := by
  have hparent : (FilePath.parent? ⟨parts ++ [first] ++ [name]⟩).isSome = true := by
    rw [FilePath.parent?_append_step _ hname, Option.isSome_some]
  rw [makeDirectories, FilePath.ancestors_append_step parts hfirst hname, List.takeWhile_cons, hparent, if_pos rfl,
    makeAmong, horphan]
  rfl

theorem LeadsTo.follow_makeBelow (h : tree.LeadsTo base top) (hnames : ∀ name ∈ names, IsStep name)
    (hmade : tree.makeBelow top names = (next, true)) :
    next.LeadsTo base top ∧ next.follow top names = .ok (top ++ names) ∧
      next.holdsDirectory (top ++ names) = true := by
  have hleads := h.keeps (grows_of_makeBelow hmade).keeps
  exact ⟨hleads, follow_directories hnames hleads.directory fun taken => directory_of_makeBelow hmade⟩

/-- Where the directory of a name is missing, it is asked for first, and then the name is tried again. -/
theorem makeDirectories_below_orphan (h : tree.LeadsTo base top) {front : List String} {first : String}
    (hfront : ∀ name ∈ front ++ [first], IsStep name) (hname : IsStep name)
    (haccepts : accepts ⟨base ++ (front ++ [first]) ++ [name]⟩ = true)
    (hbefore : tree.makeDirectories ⟨base ++ (front ++ [first])⟩ = tree.makeBelow top (front ++ [first]))
    (horphan : tree.makeDirectory ⟨base ++ (front ++ [first]) ++ [name]⟩ = .orphan) :
    tree.makeDirectories ⟨base ++ (front ++ [first]) ++ [name]⟩ =
      tree.makeBelow top (front ++ [first] ++ [name]) := by
  rw [← List.append_assoc base front] at horphan ⊢
  rw [makeDirectories_orphan (base ++ front) (hfront first (by simp)) hname horphan,
    List.append_assoc base front, hbefore, makeBelow_append tree top (front ++ [first])]
  cases hmade : tree.makeBelow top (front ++ [first]) with
  | mk middle made =>
    cases made with
    | false => rfl
    | true =>
      obtain ⟨hleads, hthere, hdirectory⟩ := h.follow_makeBelow hfront hmade
      refine (makeBelow_single haccepts hname ?_ hdirectory).symm
      rw [List.append_assoc base, startOf_append
        (List.forall_mem_append.mpr ⟨hfront, List.forall_mem_singleton.mpr hname⟩) (by simp), follow_append, hleads.follow]
      exact hthere

/-- Making directories below a present one goes down name by name. -/
theorem makeDirectories_below (h : tree.LeadsTo base top) (hnames : ∀ name ∈ names, IsStep name)
    (hsome : names ≠ []) (haccepts : accepts ⟨base ++ names⟩ = true) :
    tree.makeDirectories ⟨base ++ names⟩ = tree.makeBelow top names := by
  induction names using List.reverseRecOn with
  | nil => exact absurd rfl hsome
  | append_singleton init name ih =>
    have hname : IsStep name := hnames name (by simp)
    have hinit : ∀ name ∈ init, IsStep name := fun name hmem => hnames name (List.mem_append_left _ hmem)
    have hstart : tree.startOf ⟨base ++ init ++ [name]⟩ = tree.startAt base := by
      rw [List.append_assoc]
      exact startOf_append hnames hsome
    rw [← List.append_assoc] at haccepts
    obtain ⟨around, haround⟩ := exists_makeDirectories_eq tree (base ++ init) hname
    have hsite : tree.siteOf ⟨base ++ init ++ [name]⟩ (base ++ init ++ [name]) =
        tree.follow top init >>= fun parent =>
          if tree.holdsDirectory parent then .ok (parent, name) else .error .notDirectory := by
      rw [siteOf_append haccepts, hstart, follow_append, h.follow]
      rfl
    have hfound := makeBelow_of_follow hinit h.directory
    rw [← List.append_assoc]
    cases hfollow : tree.follow top init with
    | ok there =>
      rw [hfollow] at hfound hsite
      obtain ⟨rfl, hmade⟩ := hfound
      rw [haround, makeBelow_append, hmade]
      cases hdirectory : tree.holdsDirectory (top ++ init) with
      | true =>
        refine makeAmong_reached haccepts hname ?_ hdirectory _
        rw [hstart, follow_append, h.follow]
        exact hfollow
      | false =>
        replace hsite := hsite.trans (if_neg (by simp [hdirectory]))
        rw [makeAmong, makeDirectory_astray hname hsite]
        rfl
    | error obstacle =>
      rw [hfollow] at hfound hsite
      by_cases hmissing : obstacle = .missing
      · rcases List.eq_nil_or_concat init with rfl | ⟨front, first, rfl⟩
        · cases hfollow
        rw [List.concat_eq_append] at *
        exact makeDirectories_below_orphan h hinit hname haccepts
          (ih hinit (by simp) (accepts_of_append haccepts)) ((makeDirectory_astray hname hsite).trans (if_pos hmissing))
      · rw [haround, makeAmong, makeDirectory_astray hname hsite, if_neg hmissing, makeBelow_append, hfound hmissing]

theorem makeDirectories_above (h : tree.LeadsTo base top) (hnames : ∀ name ∈ names, IsStep name)
    (haccepts : accepts ⟨base ++ names ++ [name]⟩ = true) :
    tree.makeDirectories ⟨above (base ++ names)⟩ = tree.makeBelow top names := by
  rcases List.eq_nil_or_concat names with rfl | ⟨init, last, rfl⟩
  · rw [List.append_nil] at haccepts ⊢
    refine makeDirectories_present (accepts_above haccepts) ?_ h.directory
    rw [startOf_above]
    exact follow_above h.follow h.directory
  · rw [List.concat_eq_append] at *
    rw [← List.append_assoc, FilePath.above_append_step _ (hnames last (by simp)), List.append_assoc]
    exact makeDirectories_below h hnames (by simp) (accepts_of_append haccepts)

theorem write?_below (h : tree.LeadsTo base top) (hnames : ∀ name ∈ names, IsStep name) (hname : IsStep name)
    (haccepts : accepts ⟨base ++ names ++ [name]⟩ = true) (hfollow : tree.follow top names = .ok (top ++ names))
    (hdirectory : tree.holdsDirectory (top ++ names) = true) (content : ByteArray) :
    tree.write? ⟨base ++ names ++ [name]⟩ content =
      if isStorable name && !tree.holdsDirectory (top ++ names ++ [name])
      then some (tree.put (top ++ names ++ [name]) (.file content)) else none := by
  have hstart : tree.startOf ⟨base ++ names ++ [name]⟩ = tree.startAt base := by
    rw [List.append_assoc]
    exact startOf_append (List.forall_mem_append.mpr ⟨hnames, List.forall_mem_singleton.mpr hname⟩) (by simp)
  have hreached : tree.follow (tree.startOf ⟨base ++ names ++ [name]⟩) (base ++ names) = .ok (top ++ names) := by
    rw [hstart, follow_append, h.follow]
    exact hfollow
  have hrefused : (isBlank name || decide (name = "..") || !isStorable name) = !isStorable name := by
    simp [hname.1, hname.2]
  rw [write?, siteOf_append_eq_ok haccepts hreached hdirectory]
  dsimp only
  rw [hrefused]
  cases isStorable name <;> cases tree.holdsDirectory (top ++ names ++ [name]) <;> rfl

end LeadsTo

end Phrasebook.FileTree
