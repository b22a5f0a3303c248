import Phrasebook.Proofs.Project.AllOrNothing
import Phrasebook.Proofs.Project.Rescanned

/-! # Compiling again

A run writes no documents, so that the next run finds the same groups in the same order, plans the same files and
writes what is there already. Only a directory that the first run has made below the messages directory can stop
it, when the path of that directory is too long to be followed.
-/

namespace Phrasebook

/-! ## Names of planned files -/

namespace Plan

def outputNames : List String := [Script.runtimeFile, "messages.ts", Script.indexFile]

theorem exists_name_of_mem_paths (groups : List Group) :
    ∀ path ∈ paths groups, ∃ front name, path.parts = front ++ [name] ∧ name ∈ outputNames := by
  refine forall_mem_paths.mpr ⟨?_, fun group _ => ?_, ?_⟩
  · exact ⟨[], Script.runtimeFile, rfl, by simp [outputNames]⟩
  · exact ⟨"messages" :: Script.pathParts group.path, "messages.ts", rfl, by simp [outputNames]⟩
  · exact ⟨[], Script.indexFile, rfl, by simp [outputNames]⟩

theorem storable_outputNames :
    ∀ name ∈ outputNames, FileTree.isStorable name = true ∧ ¬FilePath.IsDocument name := by
  decide +kernel

end Plan

/-- The path of names below the top, with points before the names. -/
def FilePath.pointed (count : Nat) (names : List String) : FilePath :=
  ⟨"" :: (List.replicate count "." ++ names)⟩

namespace Project

open FileTree
open FilePath (IsDocument IsStep pointed)

/-! ## What a run leaves -/

section Run

variable {tree after : FileTree} {dir : FilePath} {files : List OutputFile} {written : List FilePath}

/-- What setting single entries keeps is kept by a run, however it ends. -/
theorem holds_writeFiles (holds : FileTree → Prop)
    (hput : ∀ tree location node, holds tree → holds (tree.put location node)) (htree : holds tree)
    (dir : FilePath) (files : List OutputFile) : holds (writeFiles tree dir files).1 := by
  induction files generalizing tree with
  | nil => exact htree
  | cons file files ih =>
    have hmade := holds_makeDirectories hput htree ((dir.join file.path).parent?.getD (dir.join file.path))
    rw [writeFiles]
    split
    · rename_i hdirectories
      rw [hdirectories] at hmade
      exact hmade
    · rename_i hdirectories
      rw [hdirectories] at hmade
      split
      · exact hmade
      · rename_i hwrite
        have hrest := ih (holds_write? hput hmade hwrite)
        split
        · rename_i hfiles
          rw [hfiles] at hrest
          exact hrest
        · rename_i hfiles
          rw [hfiles] at hrest
          exact hrest

/-- A run that writes no documents makes none and takes none away. -/
theorem keepsDocuments_of_writeFiles (hnamed : ∀ file ∈ files, file.path.IsNamed)
    (hother : ∀ file ∈ files, ∃ front name, file.path.parts = front ++ [name] ∧ ¬IsDocument name)
    (h : writeFiles tree dir files = (after, .ok written)) : tree.KeepsDocuments after := by
  have hchanges := changes_of_writeFiles h
  refine ⟨hchanges.keeps, fun here name content hname => ?_⟩
  rcases hchanges.node (here ++ [name]) with hsame | ⟨path, hpath, hlocate⟩ | ⟨hmissing, hmade, -⟩
  · rw [hsame]
  · rw [(written_of_writeFiles h).1] at hpath
    obtain ⟨file, hfile, rfl⟩ := List.mem_map.mp hpath
    obtain ⟨top, -, -, hplace⟩ := exists_top_of_locate_join (hnamed file hfile) hlocate
    obtain ⟨front, last, hparts, hlast⟩ := hother file hfile
    -- a file was written here, and its name would be that of a document
    rw [hparts, ← List.append_assoc, List.append_singleton_inj] at hplace
    exact absurd (hplace.2 ▸ hname) hlast
  · simp [hmissing, hmade]

/-- Files that hold their texts already are written without a change. -/
theorem writeFiles_of_present (hnamed : ∀ file ∈ files, file.path.IsNamed)
    (hstorable : ∀ file ∈ files, ∃ front name, file.path.parts = front ++ [name] ∧ isStorable name = true)
    (hpresent : ∀ file ∈ files, tree.lookup? (dir.join file.path) = some (.file file.text.toUTF8)) :
    writeFiles tree dir files = (tree, .ok (files.map fun file => dir.join file.path)) := by
  induction files with
  | nil => rfl
  | cons file files ih =>
    obtain ⟨hfirst, hnamed⟩ := List.forall_mem_cons.mp hnamed
    obtain ⟨⟨names, name, hparts, hname⟩, hstorable⟩ := List.forall_mem_cons.mp hstorable
    obtain ⟨hfile, hpresent⟩ := List.forall_mem_cons.mp hpresent
    obtain ⟨location, hlocate, hnode⟩ := lookup?_eq_some_iff.mp hfile
    obtain ⟨top, hleads, hfollow, rfl⟩ := exists_top_of_locate_join hfirst hlocate
    have hsteps := hfirst.2
    rw [hparts] at hfollow hnode hsteps
    obtain ⟨hnames, hlast⟩ := List.forall_mem_append.mp hsteps
    have hstep := writeFiles_cons hleads (congrArg FilePath.mk hparts) hnames
      (List.forall_mem_singleton.mp hlast) (locate_eq_ok_iff.mp hlocate).1 files
    rw [place_of_present hnames hleads.directory hfollow hname hnode] at hstep
    rw [hstep, ih hnamed hstorable hpresent]
    rfl

end Run

/-! ## Reading again -/

section Read

variable {project : Project} {tree next : FileTree} {group : GroupFiles}

theorem readText_of_keepsDocuments (h : tree.KeepsDocuments next) {dir : FilePath} {name text : String}
    (hname : IsDocument name) (htext : readText tree (dir.child name) = .ok text) :
    readText next (dir.child name) = .ok text := by
  rw [readText, text?] at htext
  rw [readText, text?]
  cases hlookup : tree.lookup? (dir.child name) with
  | none =>
    rw [hlookup] at htext
    cases htext
  | some node =>
    rw [hlookup] at htext
    cases node with
    | directory => cases htext
    | file content =>
      obtain ⟨location, hlocate, hnode⟩ := lookup?_eq_some_iff.mp hlookup
      have hnamed : FilePath.IsNamed ⟨[name]⟩ :=
        ⟨List.cons_ne_nil _ _, List.forall_mem_singleton.mpr hname.isStep⟩
      obtain ⟨top, -, -, rfl⟩ := exists_top_of_locate_join hnamed hlocate
      have hsame := (h.document top name content hname).mpr hnode
      rw [lookup?_eq_some_iff.mpr ⟨_, h.keeps.locate hlocate, hsame⟩]
      exact htext

theorem readGroup_of_keepsDocuments (h : tree.KeepsDocuments next)
    (hdocuments : ∀ file ∈ group.files, ∃ dir name, file.path = FilePath.child dir name ∧ IsDocument name)
    {documents : Group} (hread : readGroup tree group = .ok documents) :
    readGroup next group = .ok documents := by
  obtain ⟨found, hfound, hread⟩ := Outcome.bind_eq_ok_iff.mp hread
  refine Outcome.bind_eq_ok_iff.mpr ⟨found, ?_, hread⟩
  refine Outcome.mapM_eq_ok_of_forall hfound fun file hfile document hdocument => ?_
  obtain ⟨json, hjson, hdocument⟩ := Outcome.bind_eq_ok_iff.mp hdocument
  obtain ⟨text, htext, hjson⟩ := Outcome.bind_eq_ok_iff.mp hjson
  obtain ⟨dir, name, hpath, hname⟩ := hdocuments file hfile
  refine Outcome.bind_eq_ok_iff.mpr ⟨json, Outcome.bind_eq_ok_iff.mpr ⟨text, ?_, hjson⟩, hdocument⟩
  rw [hpath] at htext ⊢
  exact readText_of_keepsDocuments h hname htext

/-- Where documents have neither come nor gone, the same files are planned again. -/
theorem prepare_of_keepsDocuments (h : tree.KeepsDocuments next) (htree : (tree.entries.map (·.1)).Nodup)
    (hnext : (next.entries.map (·.1)).Nodup) (hgrounded : tree.Grounded)
    {plan : List Group.Compiled × List LocaleFile × List OutputFile} (hprepare : project.prepare tree = .ok plan) :
    project.prepare next =
      match Scan.unreachable? next project.messagesDir with
      | some dir => .error (.inaccessible dir)
      | none => .ok plan := by
  obtain ⟨scan, hscan, hprepare⟩ := Outcome.bind_eq_ok_iff.mp hprepare
  have hagain := Scan.ofDirectory_of_keepsDocuments htree hnext h hgrounded hscan
  rw [prepare, Project.scan, hagain]
  cases Scan.unreachable? next project.messagesDir with
  | some dir => rfl
  | none =>
    obtain ⟨compiled, hcompiled, hprepare⟩ := Outcome.bind_eq_ok_iff.mp hprepare
    refine Outcome.bind_eq_ok_iff.mpr ⟨scan, rfl, Outcome.bind_eq_ok_iff.mpr ⟨compiled, ?_, hprepare⟩⟩
    refine Outcome.mapM_eq_ok_of_forall hcompiled fun files hfiles compiled hcompile => ?_
    obtain ⟨group, hread, hcompile⟩ := compileGroup_eq_ok_iff.mp hcompile
    have hdocuments := Scan.exists_name_of_mem_groups hscan hfiles
    exact compileGroup_eq_ok_iff.mpr ⟨group, readGroup_of_keepsDocuments h hdocuments hread, hcompile⟩

end Read

section Compile

variable {project : Project} {tree after : FileTree} {compilation : Compilation}

/-- A compilation that ends well keeps documents, and what it has written can be written again. -/
theorem exists_plan_of_compile (htree : tree.WellFormed) (h : project.compile tree = (after, .ok compilation)) :
    tree.KeepsDocuments after ∧ (after.entries.map (·.1)).Nodup ∧
      ∃ planned, project.prepare tree = .ok (compilation.groups, compilation.ignored, planned) ∧
        writeFiles after project.outputDir planned = (after, .ok compilation.written) := by
  cases h ▸ project.compiles tree with
  | @written groups ignored planned written after hprepare hwrite =>
    obtain ⟨sources, hplan, hnodup, hrelative⟩ := exists_groups_of_prepare htree hprepare
    obtain ⟨hnamed, hdistinct⟩ := paths_of_prepare htree hprepare
    have hname : ∀ file ∈ planned, ∃ front name, file.path.parts = front ++ [name] ∧ name ∈ Plan.outputNames :=
      fun file hfile => Plan.exists_name_of_mem_paths sources _ (hplan ▸ List.mem_map_of_mem hfile)
    have hentries := holds_writeFiles (fun tree => (tree.entries.map (·.1)).Nodup)
      (fun _ location node hkept => nodup_put hkept location node) htree.nodup project.outputDir planned
    rw [hwrite] at hentries
    refine ⟨keepsDocuments_of_writeFiles hnamed (fun file hfile => ?_) hwrite, hentries, planned, hprepare, ?_⟩
    · obtain ⟨front, name, hparts, hmem⟩ := hname file hfile
      exact ⟨front, name, hparts, (Plan.storable_outputNames name hmem).2⟩
    · rw [(written_of_writeFiles hwrite).1]
      refine writeFiles_of_present hnamed (fun file hfile => ?_) (lookup?_of_writeFiles hnamed hdistinct hwrite)
      obtain ⟨front, name, hparts, hmem⟩ := hname file hfile
      exact ⟨front, name, hparts, (Plan.storable_outputNames name hmem).1⟩

theorem Completed.node?_of_holdsDirectory (h : project.Completed tree after compilation) {location : Location}
    (hafter : after.holdsDirectory location = true) (hbefore : tree.holdsDirectory location = false) :
    tree.node? location = none ∧ after.node? location = some .directory := by
  obtain ⟨planned, -, hwritten, hfiles⟩ := h.written
  have hdirectory := (holdsDirectory_iff location).mp hafter
  rcases h.changes.node location with hsame | ⟨path, hpath, hlocate⟩ | ⟨hmissing, -⟩
  · rw [holdsDirectory, ← hsame, hdirectory] at hbefore
    cases hbefore
  · rw [hwritten] at hpath
    obtain ⟨file, hfile, rfl⟩ := List.mem_map.mp hpath
    obtain ⟨place, hplace, hnode⟩ := lookup?_eq_some_iff.mp (hfiles file hfile)
    rw [hlocate] at hplace
    cases hplace
    rw [hdirectory] at hnode
    cases hnode
  · exact ⟨hmissing, hdirectory⟩

/-- Compiling twice is compiling once: the second run leaves the tree as it is and ends like the first, unless the
first one has made a directory below the messages directory whose path is too long to be followed from there. -/
theorem compile_again (htree : tree.WellFormed) (hgrounded : tree.Grounded)
    (h : project.compile tree = (after, .ok compilation)) :
    (project.compile after =
      match Scan.unreachable? after project.messagesDir with
      | none => (after, .ok compilation)
      | some dir => (after, .error (.inaccessible dir))) ∧
    ∀ dir, Scan.unreachable? after project.messagesDir = some dir →
      accepts dir = false ∧ ∃ top names, tree.locate project.messagesDir = .ok top ∧
        dir = names.foldl FilePath.child project.messagesDir ∧ tree.node? (top ++ names) = none ∧
        after.node? (top ++ names) = some .directory := by
  obtain ⟨hkeeps, hnodup, planned, hprepare, hwrite⟩ := exists_plan_of_compile htree h
  constructor
  · have hagain := prepare_of_keepsDocuments hkeeps htree.nodup hnodup hgrounded hprepare
    cases hreached : Scan.unreachable? after project.messagesDir with
    | some dir =>
      rw [hreached] at hagain
      exact compile_of_prepare_eq_error hagain
    | none =>
      rw [hreached] at hagain
      exact compile_of_writeFiles_eq_ok hagain hwrite
  · intro dir hdir
    obtain ⟨scan, hscan, -⟩ := Outcome.bind_eq_ok_iff.mp hprepare
    obtain ⟨hrefused, top, names, hlocate, hpath, hafter, hbefore⟩ :=
      Scan.exists_missing_of_unreachable? htree.nodup hnodup hkeeps hscan hdir
    have hmade := (completed_of_compile htree h).node?_of_holdsDirectory hafter hbefore
    exact ⟨hrefused, top, names, hlocate, hpath, hmade⟩

def oneText : String := "\x7b\"a\": \"x\"\x7d"

def oneDocument : FileTree :=
  ⟨[(["m"], .directory), (["m", "en.json"], .file oneText.toUTF8)], []⟩

theorem wellFormed_oneDocument : oneDocument.WellFormed := ⟨by decide, by decide⟩

theorem grounded_oneDocument : oneDocument.Grounded := by decide

/-- A project whose modules are written into the messages directory itself. -/
def inPlace : Project := atTop { Settings.initial with messagesDir := "m", outputDir := "m" }

theorem compile_again_same_directory :
    ∃ after compilation,
      oneDocument.WellFormed ∧ oneDocument.Grounded ∧ inPlace.compile oneDocument = (after, .ok compilation) ∧
      after.holdsDirectory ["m", "messages"] = true ∧ inPlace.compile after = (after, .ok compilation) := by
  obtain ⟨after, compilation, hcompile, hfound⟩ : ∃ after compilation,
      inPlace.compile oneDocument = (after, .ok compilation) ∧
        decide (after.locate inPlace.messagesDir = .ok ["m"] ∧ after.holdsDirectory ["m", "messages"] = true ∧
          ∀ entry ∈ after.entries, accepts (entry.1.tail.foldl FilePath.child inPlace.messagesDir) = true) = true :=
    Outcome.exists_of_endsIn (by decide +kernel)
  obtain ⟨hlocate, hmade, haccepts⟩ := of_decide_eq_true hfound
  obtain ⟨hkeeps, hnodup, -⟩ := exists_plan_of_compile wellFormed_oneDocument hcompile
  have htop : after.holdsDirectory ["m"] = true := hkeeps.keeps.holdsDirectory (by decide)
  have hreached : Scan.unreachable? after inPlace.messagesDir = none := by
    refine (Scan.unreachable?_eq_none_iff hnodup hlocate htop).mpr fun names hdirectory => ?_
    rw [holdsDirectory_iff, node?, if_neg (by simp)] at hdirectory
    exact haccepts _ (mem_of_lookup hdirectory)
  obtain ⟨hagain, -⟩ := compile_again wellFormed_oneDocument grounded_oneDocument hcompile
  rw [hreached] at hagain
  exact ⟨after, compilation, wellFormed_oneDocument, grounded_oneDocument, hcompile, hmade, hagain⟩

end Compile

/-! ## Paths with points -/

section Pointed

variable {tree : FileTree} {count : Nat} {names : List String} {name : String} {location : Location}

theorem slashedSize_points (count : Nat) : slashedSize (List.replicate count ".") = 2 * count := by
  induction count with
  | zero => rfl
  | succ count ih =>
    have hpoint : ".".utf8ByteSize = 1 := rfl
    rw [List.replicate_succ, slashedSize, ih, hpoint]
    omega

theorem accepts_pointed_iff (count : Nat) (names : List String) :
    accepts (pointed count names) = true ↔
      2 * count + slashedSize names ≤ maximalPathSize ∧ ∀ name ∈ names, '\x00' ∉ name.toList := by
  rw [pointed, accepts_cons_iff, slashedSize_append, slashedSize_points, List.forall_mem_cons,
    List.forall_mem_append, String.utf8ByteSize_empty, Nat.zero_add]
  refine and_congr_right fun _ => ⟨fun h => h.2.2, fun h => ⟨by decide, fun part hpart => ?_, h⟩⟩
  rw [List.eq_of_mem_replicate hpart]
  decide

theorem child_pointed (hname : IsStep name) {last : String} (hlast : names.getLast? = some last)
    (hsome : last ≠ "") : (pointed count names).child name = pointed count (names ++ [name]) := by
  have hbase : FilePath.base (pointed count names) = (pointed count names).parts := by
    obtain ⟨front, rfl⟩ := List.getLast?_eq_some_iff.mp hlast
    rw [FilePath.base, if_neg]
    rw [pointed, ← List.append_assoc, ← List.cons_append, List.getLast?_concat, Option.some_inj]
    exact hsome
  rw [FilePath.child, FilePath.join_step _ hname, hbase, pointed, pointed, List.cons_append, List.append_assoc]

/-- Points do not change where a path leads. -/
theorem locate_pointed (haccepts : accepts (pointed count names) = true) (hsome : names ≠ [])
    (hfollow : tree.follow [] names = .ok location) : tree.locate (pointed count names) = .ok location := by
  have hstart : tree.startOf (pointed count names) = [] := by
    have hparts : List.replicate count "." ++ names ≠ [] := by simp [hsome]
    obtain ⟨first, rest, hcons⟩ := List.exists_cons_of_ne_nil hparts
    rw [pointed, hcons]
    rfl
  have hblanks : ∀ part ∈ "" :: List.replicate count ".", FilePath.isBlank part = true := by
    refine List.forall_mem_cons.mpr ⟨rfl, fun part hpart => ?_⟩
    rw [List.eq_of_mem_replicate hpart]
    rfl
  refine locate_eq_ok_iff.mpr ⟨haccepts, by simp [pointed, hsome], ?_⟩
  rw [hstart, pointed, ← List.cons_append, follow_append,
    follow_blanks_of_directory ((holdsDirectory_iff []).mpr rfl) hblanks]
  exact hfollow

end Pointed

/-- A project that spells its messages directory with points, and writes its modules below it. -/
def roundabout (count : Nat) : Project where
  settings :=
    { Settings.initial with
      messagesDir := "/".intercalate (List.replicate count "." ++ ["m"])
      outputDir := "m/out" }
  path := ⟨["", Settings.fileName]⟩

theorem messagesDir_roundabout (count : Nat) : (roundabout count).messagesDir = pointed count ["m"] := by
  have hbase : (roundabout count).baseDir = ⟨["", ""]⟩ := by
    change (FilePath.parent? ⟨["", Settings.fileName]⟩).getD ⟨["."]⟩ = _
    decide
  have hparts : FilePath.ofText (roundabout count).settings.messagesDir = ⟨List.replicate count "." ++ ["m"]⟩ := by
    refine congrArg FilePath.mk (Text.parts_intercalate (by simp) fun name hname => ?_)
    rcases List.mem_append.mp hname with hpoint | hlast
    · rw [List.eq_of_mem_replicate hpoint]
      decide
    · rw [List.mem_singleton.mp hlast]
      decide
  have hrelative : FilePath.isAbsolute ⟨List.replicate count "." ++ ["m"]⟩ = false := by
    cases count with
    | zero => decide
    | succ count => simp [FilePath.isAbsolute, List.replicate_succ]
  rw [messagesDir, hbase, hparts, FilePath.join, hrelative]
  rfl

theorem scan_roundabout {count : Nat} (haccepts : accepts (pointed count ["m", "en.json"]) = true) :
    (roundabout count).scan oneDocument =
      .ok ⟨[⟨"", [⟨"en", pointed count ["m", "en.json"]⟩]⟩], []⟩ := by
  have hdir : accepts (pointed count ["m"]) = true := by
    rw [accepts_pointed_iff] at haccepts ⊢
    exact ⟨(Nat.add_le_add_left (by decide) _).trans haccepts.1, by decide⟩
  have hlocate : oneDocument.locate (pointed count ["m"]) = .ok ["m"] :=
    locate_pointed hdir (by simp) (by decide)
  have htop : oneDocument.directoriesFrom ["m"] = [["m"]] := by decide +kernel
  have hnames : oneDocument.fileNames ["m"] = ["en.json"] := by decide
  have hchild : (pointed count ["m"]).child "en.json" = pointed count ["m", "en.json"] :=
    child_pointed (by decide) rfl (by decide)
  have hfile : Scan.documentFile? (pointed count ["m"]) "en.json" = some ⟨"en", pointed count ["m", "en.json"]⟩ := by
    have hsplit : FilePath.splitName "en.json" = ("en", some "json") := by decide
    rw [Scan.documentFile?, hsplit, hchild, haccepts]
    rfl
  have hfound : Scan.documentFiles (pointed count ["m"]) ["en.json"] = [⟨"en", pointed count ["m", "en.json"]⟩] := by
    rw [Scan.documentFiles_eq, List.filterMap_cons, hfile, List.filterMap_nil, List.mergeSort_singleton]
  have hdirectory : Scan.directory ["en"] (pointed count ["m"]) [] (oneDocument.fileNames ["m"]) =
      .ok ⟨[⟨"", [⟨"en", pointed count ["m", "en.json"]⟩]⟩], []⟩ := by
    rw [hnames, Scan.directory_eq, List.foldl_nil, hdir, Scan.contribution, List.foldl_nil, hfound]
    rfl
  rw [scan, messagesDir_roundabout, Scan.ofDirectory, hlocate]
  dsimp only
  rw [if_pos (by decide), htop]
  exact Outcome.bind_eq_ok_iff.mpr ⟨_, Outcome.mapM_eq_ok_iff.mpr (.cons hdirectory .nil), rfl⟩

theorem readGroup_roundabout {count : Nat} (haccepts : accepts (pointed count ["m", "en.json"]) = true)
    {document : Json} (hparse : Json.parse? oneText = some document) (hkind : document.kind = .object) :
    readGroup oneDocument ⟨"", [⟨"en", pointed count ["m", "en.json"]⟩]⟩ = .ok ⟨"", [("en", document)]⟩ := by
  have hlocate : oneDocument.locate (pointed count ["m", "en.json"]) = .ok ["m", "en.json"] :=
    locate_pointed haccepts (by simp) (by decide)
  have hlookup := lookup?_eq_some_iff.mpr ⟨_, hlocate, rfl⟩
  have htext : String.fromUTF8? oneText.toUTF8 = some oneText := by decide +kernel
  have hread : readText oneDocument (pointed count ["m", "en.json"]) = .ok oneText := by
    rw [readText, text?, hlookup]
    dsimp only
    rw [htext]
  have hdocument : readDocument oneDocument (pointed count ["m", "en.json"]) = .ok document := by
    refine Outcome.bind_eq_ok_iff.mpr ⟨_, hread, ?_⟩
    rw [decodeDocument, hparse]
    cases document with
    | object members => rfl
    | _ => cases hkind
  refine Outcome.bind_eq_ok_iff.mpr ⟨[("en", document)], ?_, rfl⟩
  exact Outcome.mapM_eq_ok_iff.mpr (.cons (Outcome.bind_eq_ok_iff.mpr ⟨_, hdocument, rfl⟩) .nil)

/-- The first run makes a directory whose path is too long for the second run. -/
theorem compile_again_roundabout :
    (roundabout 2042).settings.problem? = none ∧ oneDocument.WellFormed ∧ oneDocument.Grounded ∧
      ∃ after compilation dir,
        (roundabout 2042).compile oneDocument = (after, .ok compilation) ∧
        (roundabout 2042).compile after = (after, .error (.inaccessible dir)) := by
  have haccepts : accepts (pointed 2042 ["m", "en.json"]) = true :=
    (accepts_pointed_iff _ _).mpr ⟨by decide, by decide⟩
  have hrefused : ¬accepts (pointed 2042 ["m", "out", "messages"]) = true :=
    fun h => absurd ((accepts_pointed_iff _ _).mp h).1 (by decide)
  -- only the scan and the reading see the long path, so the rest of the run can be evaluated
  obtain ⟨document, hparse, hevaluated⟩ : ∃ document, Json.parse? oneText = some document ∧
      (document.kind = .object &&
        ((Group.mk "" [("en", document)]).compile (roundabout 2042).settings >>= fun compiled =>
          Plan.files [compiled] (roundabout 2042).settings).toOption.any fun planned =>
            Outcome.endsIn (writeFiles oneDocument (roundabout 2042).outputDir planned) fun after =>
              after.holdsDirectory ["m", "out", "messages"]) = true :=
    (Option.any_eq_true _ _).mp (by decide +kernel)
  rw [Bool.and_eq_true, decide_eq_true_eq] at hevaluated
  obtain ⟨planned, hrun, hwritten⟩ := Outcome.exists_eq_ok_of_any hevaluated.2
  obtain ⟨compiled, hcompiled, hplanned⟩ := Outcome.bind_eq_ok_iff.mp hrun
  obtain ⟨after, written, hwrite, hmade⟩ := Outcome.exists_of_endsIn hwritten
  have hgroups := compileGroup_eq_ok_iff.mpr ⟨_, readGroup_roundabout haccepts hparse hevaluated.1, hcompiled⟩
  have hprepare : (roundabout 2042).prepare oneDocument = .ok ([compiled], [], planned) :=
    Outcome.bind_eq_ok_iff.mpr ⟨_, scan_roundabout haccepts,
      Outcome.bind_eq_ok_iff.mpr ⟨_, Outcome.mapM_eq_ok_iff.mpr (.cons hgroups .nil),
        Outcome.bind_eq_ok_iff.mpr ⟨planned, Outcome.mapError_eq_ok_iff.mpr hplanned, rfl⟩⟩⟩
  have hcompile := compile_of_writeFiles_eq_ok hprepare hwrite
  obtain ⟨hkeeps, hnodup, -⟩ := exists_plan_of_compile wellFormed_oneDocument hcompile
  have hagain := prepare_of_keepsDocuments hkeeps wellFormed_oneDocument.nodup hnodup grounded_oneDocument hprepare
  cases hreached : Scan.unreachable? after (roundabout 2042).messagesDir with
  | none =>
    have hlocate : oneDocument.locate (roundabout 2042).messagesDir = .ok ["m"] := by
      rw [messagesDir_roundabout]
      exact locate_pointed ((accepts_pointed_iff _ _).mpr ⟨by decide, by decide⟩) (by simp) (by decide)
    have hall := (Scan.unreachable?_eq_none_iff hnodup (hkeeps.keeps.locate hlocate)
      (hkeeps.keeps.holdsDirectory (by decide))).mp hreached ["out", "messages"] hmade
    rw [messagesDir_roundabout, List.foldl_cons, List.foldl_cons, List.foldl_nil,
      child_pointed (by decide) rfl (by decide), child_pointed (by decide) rfl (by decide)] at hall
    exact absurd hall hrefused
  | some dir =>
    rw [hreached] at hagain
    exact ⟨by decide, wellFormed_oneDocument, grounded_oneDocument, after, _, dir, hcompile,
      compile_of_prepare_eq_error hagain⟩

end Project

end Phrasebook
