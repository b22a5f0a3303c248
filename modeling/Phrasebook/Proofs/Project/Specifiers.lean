import Phrasebook.Proofs.Group.Closed
import Phrasebook.Proofs.Project.Planned
import Phrasebook.Proofs.Script.GroupModule

/-! # Where generated specifiers lead

The index names each group's module by a specifier, and each group's module the shared one. A compiled group has
names, so its path holds nothing but characters of names and separators. The path stands in the specifier as it is:
it leads to the group's module as long as the path has no backslash, and elsewhere when it has one.
-/

namespace Phrasebook

/-! ## Paths of compiled groups -/

namespace Identifier

theorem isPart_of_isStart {c : Char} (h : isStart c = true) : isPart c = true := by
  simp only [isStart, isPart, Char.isAlphanum, Bool.or_eq_true] at *
  tauto

theorem isPart_of_isValid {name : String} (h : isValid name = true) : ∀ c ∈ name.toList, isPart c = true := by
  rw [isValid, Bool.and_eq_true, Bool.and_eq_true, isName] at h
  cases hname : name.toList with
  | nil => simp
  | cons c cs =>
    rw [hname] at h
    obtain ⟨hstart, hrest⟩ := Bool.and_eq_true_iff.mp h.1.1
    exact List.forall_mem_cons.mpr ⟨isPart_of_isStart hstart, List.all_eq_true.mp hrest⟩

/-- A group with a usable name has a path of characters of names and separators. -/
theorem isPart_or_isSeparator_of_isValid {group name : String} (h : isValid (qualify group name) = true) :
    ∀ c ∈ group.toList, isSeparator c = true ∨ isPart c = true := by
  intro c hc
  have hmem : (if isSeparator c then '_' else c) ∈ (stem group).toList := by
    rw [stem, String.toList_ofList]
    exact List.mem_map_of_mem hc
  have hne : (stem group).isEmpty = false := by
    rw [Bool.eq_false_iff, ne_eq, String.isEmpty_iff]
    intro hempty
    rw [hempty] at hmem
    cases hmem
  rw [qualify, hne, if_neg Bool.false_ne_true] at h
  by_cases hseparator : isSeparator c = true
  · exact .inl hseparator
  · rw [if_neg hseparator] at hmem
    refine .inr (isPart_of_isValid h c ?_)
    rw [String.toList_append, String.toList_append]
    exact List.mem_append_left _ (List.mem_append_left _ hmem)

theorem ne_of_isPart_or_isSeparator {c : Char} (h : isSeparator c = true ∨ isPart c = true) :
    c ≠ '\x7d' ∧ c ≠ '"' ∧ c ≠ '\n' ∧ c ≠ '\r' := by
  refine ⟨?_, ?_, ?_, ?_⟩ <;>
    · rintro rfl
      exact absurd h (by decide)

end Identifier

namespace Group

open Identifier (isSeparator isPart)

variable {group : Group} {settings : Settings} {compiled : Compiled}

theorem exists_qualify_of_compile (h : group.compile settings = .ok compiled)
    (hsome : compiled.exports.isEmpty = false) :
    ∃ name, Identifier.isValid (Identifier.qualify compiled.path name) = true := by
  have hvalid : ∀ name ∈ compiled.exports.names, Identifier.isValid name = true :=
    fun _ hname => isValid_of_compile h hname
  obtain ⟨analysis, -, -, hassemble⟩ := compile_eq_ok_iff.mp h
  obtain ⟨-, hpath, hexports⟩ := assemble_eq_ok hassemble
  rw [hpath]
  rw [hexports] at hsome hvalid
  cases hfunctions : functions group.path analysis.catalog with
  | cons function rest =>
    have hfunction : function ∈ functions group.path analysis.catalog := hfunctions ▸ List.mem_cons_self
    have hname := hvalid function.identifier
      (List.mem_append_left _ (List.mem_append_left _ (List.mem_map_of_mem hfunction)))
    obtain ⟨⟨key, entry⟩, -, rfl⟩ := List.mem_map.mp hfunction
    exact ⟨_, hname⟩
  | nil =>
    rw [hfunctions] at hsome hvalid
    cases hconstant : namespaceConst? settings group.path with
    | none =>
      rw [hconstant] at hsome
      cases hsome
    | some name =>
      have hname := hvalid name (by rw [hconstant]; exact List.mem_singleton_self _)
      obtain rfl : name = Identifier.namespaceConst group.path := by
        rw [namespaceConst?] at hconstant
        split at hconstant
        · exact (Option.some.inj hconstant).symm
        · cases hconstant
      exact ⟨_, hname⟩

theorem ne_of_mem_path (h : group.compile settings = .ok compiled) (hsome : compiled.exports.isEmpty = false) :
    ∀ c ∈ compiled.path.toList, c ≠ '\x7d' ∧ c ≠ '"' ∧ c ≠ '\n' ∧ c ≠ '\r' := by
  obtain ⟨name, hname⟩ := exists_qualify_of_compile h hsome
  intro c hc
  exact Identifier.ne_of_isPart_or_isSeparator (Identifier.isPart_or_isSeparator_of_isValid hname c hc)

theorem exists_render_of_compile (h : group.compile settings = .ok compiled) :
    ∃ groupModule : Script.GroupModule, groupModule.group = compiled.path ∧
      compiled.source = groupModule.render settings.defaultLocale ∧
      compiled.exports.accessors = groupModule.functions.map Script.Function.identifier := by
  obtain ⟨analysis, -, -, hassemble⟩ := compile_eq_ok_iff.mp h
  obtain ⟨groupModule, hmodule, hsource, haccessors⟩ := exists_scriptModule_of_assemble hassemble
  obtain ⟨namespaceObject, -, hgroup⟩ := Outcome.bind_eq_ok_iff.mp hmodule
  cases hgroup
  exact ⟨_, (assemble_eq_ok hassemble).2.1.symm, hsource, haccessors⟩

end Group

/-! ## Specifiers of the index -/

namespace Script

section Index

variable {entries : List Exports} {entry : Exports} {group : String}

def Exports.front (entry : Exports) : List String :=
  ["", "// " ++ entry.group, "export \x7b"] ++
    entry.accessors.map (fun name => "  " ++ name ++ ",") ++
    entry.paramsTypes.map (fun name => "  type " ++ name ++ ",") ++
    entry.namespaceConst.toList.map (fun name => "  " ++ name ++ ",")

def Exports.specifier (entry : Exports) : String := entry.modulePath ++ ".js"

theorem Exports.lines_eq (entry : Exports) : entry.lines = entry.front ++ [clauseLine entry.specifier] := by
  have hline : clauseLine entry.specifier = "\x7d from \"" ++ entry.modulePath ++ ".js\";" := by
    rw [clauseLine, specifier, ← String.append_assoc, String.append_assoc]
    rfl
  rw [hline]
  rfl

/-- No closing brace stands in the texts of an entry, other than the one of its clause. -/
structure Exports.IsBraceless (entry : Exports) : Prop where
  group : '\x7d' ∉ entry.group.toList
  names : ∀ name ∈ entry.names, '\x7d' ∉ name.toList
  specifier : '\x7d' ∉ entry.specifier.toList

theorem Exports.IsBraceless.front (h : entry.IsBraceless) : ∀ line ∈ entry.front, '\x7d' ∉ line.toList := by
  have hgroup := h.group
  have hnames := h.names
  rw [Exports.names] at hnames
  simp only [List.forall_mem_append] at hnames
  have haround (before after : String) (hbefore : '\x7d' ∉ before.toList) (hafter : '\x7d' ∉ after.toList)
      {name : String} (hname : '\x7d' ∉ name.toList) : '\x7d' ∉ (before ++ name ++ after).toList := by
    simp [hbefore, hafter, hname]
  simp only [Exports.front, List.forall_mem_append, List.forall_mem_map]
  refine ⟨⟨⟨?_, ?_⟩, ?_⟩, ?_⟩
  · simp [hgroup]
  · exact fun name hname => haround "  " "," (by decide) (by decide) (hnames.1.1 name hname)
  · exact fun name hname => haround "  type " "," (by decide) (by decide) (hnames.1.2 name hname)
  · exact fun name hname => haround "  " "," (by decide) (by decide) (hnames.2 name hname)

theorem renderIndex_eq (entries : List Exports) :
    renderIndex entries = layOut "" (
      [generatedHeader, "", "export \x7b", "  type Locale,", "  type LocaleResolver,", "  locales,", "  defaultLocale,",
        "  setLocale,", "  getLocale,"] ++
      clauseLine "./_runtime.js" :: (entries.filter fun entry => !entry.isEmpty).flatMap Exports.lines) := rfl

/-- A specifier is read from an entry, whatever stands after it. -/
def Exports.Requests (entry : Exports) (request : Option String) : Prop :=
  ∃ rest, request = StringLiteral.text? (entry.specifier.toList ++ '"' :: rest)

theorem requests_lines (h : ∀ entry ∈ entries, entry.IsBraceless) :
    List.Forall₂ Exports.Requests entries (specifiers (layOut "" (entries.flatMap Exports.lines))) := by
  induction entries with
  | nil => exact .nil
  | cons entry rest ih =>
    obtain ⟨hentry, hrest⟩ := List.forall_mem_cons.mp h
    obtain ⟨after, hafter⟩ := exists_specifiers_layOut_cons hentry.specifier (rest.flatMap Exports.lines)
    rw [List.flatMap_cons, entry.lines_eq, List.append_assoc, List.singleton_append,
      specifiers_layOut_append hentry.front, hafter]
    exact .cons ⟨after, rfl⟩ (ih hrest)

/-- The index has one specifier for the shared module, and then one for each group that exports anything. -/
theorem exists_specifiers_renderIndex (h : ∀ entry ∈ entries, entry.isEmpty = false → entry.IsBraceless) :
    ∃ requests, specifiers (renderIndex entries) = some "./_runtime.js" :: requests ∧
      List.Forall₂ Exports.Requests (entries.filter fun entry => !entry.isEmpty) requests := by
  obtain ⟨after, hafter⟩ := exists_specifiers_layOut_cons (show '\x7d' ∉ "./_runtime.js".toList by decide)
    ((entries.filter fun entry => !entry.isEmpty).flatMap Exports.lines)
  refine ⟨_, ?_, requests_lines fun entry hentry => ?_⟩
  · rw [renderIndex_eq, specifiers_layOut_append (by decide), hafter,
      StringLiteral.text?_plain (by decide) (by decide) (by decide) (by decide), String.ofList_toList]
  · obtain ⟨hmem, hsome⟩ := List.mem_filter.mp hentry
    exact h entry hmem (by simpa using hsome)

end Index

/-! ## Where the specifiers lead -/

section Leads

variable {group : String} {out : Location}

def moduleSpecifier (group : String) : String := moduleImport group ++ ".js"

theorem moduleSpecifier_of_ne (h : group ≠ "") :
    moduleSpecifier group = "./messages" ++ "/" ++ (group ++ "/" ++ "messages.js") := by
  rw [moduleSpecifier, moduleImport, if_neg (by simpa [String.isEmpty_iff] using h), ← String.toList_inj]
  simp

theorem parts_moduleSpecifier (h : Plan.IsRelative group) :
    Text.parts '/' (moduleSpecifier group) = "." :: (("messages" :: pathParts group) ++ ["messages.js"]) := by
  by_cases hroot : group = ""
  · subst hroot
    decide
  · have hfirst : Text.parts '/' "./messages" = [".", "messages"] := by decide
    have hlast : Text.parts '/' "messages.js" = ["messages.js"] := by decide
    rw [moduleSpecifier_of_ne hroot, parts_slash, parts_slash, hfirst, hlast,
      Plan.pathParts_of_steps (h.resolve_left hroot)]
    rfl

/-- The specifier of a group leads to the source of its module. -/
theorem sourceFile?_moduleSpecifier (h : Plan.IsRelative group) (out : Location) :
    sourceFile? out (moduleSpecifier group) = some (out ++ (Plan.modulePath group).parts) := by
  have hsteps : ∀ part ∈ "messages" :: pathParts group, FilePath.IsStep part :=
    List.forall_mem_cons.mpr ⟨by decide, Plan.isStep_of_mem_pathParts h⟩
  have hplace : ("." :: "messages" :: pathParts group).foldl enter out = out ++ "messages" :: pathParts group :=
    foldl_enter_steps hsteps out
  have hsource : sourceName? "messages.js" = some "messages.ts" := by decide
  rw [sourceFile?_of_parts (parts_moduleSpecifier h) (.inl rfl) hplace (by decide) hsource, Plan.modulePath,
    List.append_assoc, List.cons_append]

/-- No shorter specifier leads to the source of a group's module. -/
theorem length_moduleSpecifier_le (h : Plan.IsRelative group) {text : String}
    (htext : sourceFile? out text = some (out ++ (Plan.modulePath group).parts)) :
    (moduleSpecifier group).length ≤ text.length := by
  have hlength := span_parts '/' (moduleSpecifier group)
  have hle := span_sourceFile?_le htext
  have hsource : "messages.ts".length = 11 ∧ "messages.js".length = 11 ∧ ".".length = 1 := by decide
  rw [parts_moduleSpecifier h, span_cons, span_append, span_cons] at hlength
  rw [span_append, Plan.modulePath, span_cons, span_append] at hle
  simp only [span_cons] at hlength hle
  omega

theorem mem_moduleSpecifier {c : Char} (hc : c ∈ (moduleSpecifier group).toList) :
    c ∈ group.toList ∨ c ∈ "./messages.js".toList := by
  by_cases hroot : group = ""
  · have hsub : (moduleSpecifier "").toList ⊆ "./messages.js".toList := by decide +kernel
    exact .inr (hsub (hroot ▸ hc))
  · have hdir : "./messages".toList ⊆ "./messages.js".toList := by decide +kernel
    have hslash : "/".toList ⊆ "./messages.js".toList := by decide +kernel
    have hname : "messages.js".toList ⊆ "./messages.js".toList := by decide +kernel
    rw [moduleSpecifier_of_ne hroot] at hc
    simp only [String.toList_append, List.mem_append] at hc
    rcases hc with (hc | hc) | (hc | hc) | hc
    · exact .inr (hdir hc)
    · exact .inr (hslash hc)
    · exact .inl hc
    · exact .inr (hslash hc)
    · exact .inr (hname hc)

theorem backslash_mem_moduleSpecifier_iff : '\\' ∈ (moduleSpecifier group).toList ↔ '\\' ∈ group.toList := by
  constructor
  · exact fun hmem => (mem_moduleSpecifier hmem).resolve_right (by decide)
  · intro hmem
    have hroot : group ≠ "" := by
      rintro rfl
      cases hmem
    rw [moduleSpecifier_of_ne hroot]
    simp [hmem]

/-- Between quotes, the specifier of a group leads to the source of its module unless it has a backslash. -/
theorem bind_text?_moduleSpecifier_iff (h : Plan.IsRelative group)
    (hpath : ∀ c ∈ group.toList, c ≠ '\x7d' ∧ c ≠ '"' ∧ c ≠ '\n' ∧ c ≠ '\r') (rest : List Char) :
    (StringLiteral.text? ((moduleSpecifier group).toList ++ '"' :: rest)).bind (sourceFile? out) =
        some (out ++ (Plan.modulePath group).parts) ↔ '\\' ∉ group.toList := by
  have habsent {c : Char} (hc : c ∉ group.toList) (hname : c ∉ "./messages.js".toList) :
      c ∉ (moduleSpecifier group).toList := fun hmem => (mem_moduleSpecifier hmem).elim hc hname
  have hquote : '"' ∉ (moduleSpecifier group).toList := habsent (fun hmem => (hpath _ hmem).2.1 rfl) (by decide)
  constructor
  · intro hleads hbackslash
    obtain ⟨text, htext, hfile⟩ := Option.bind_eq_some_iff.mp hleads
    have hlast : (moduleSpecifier group).toList.getLast? ≠ some '\\' := by
      have hend : (moduleSpecifier group).toList = (moduleImport group ++ ".j").toList ++ ['s'] := by
        rw [moduleSpecifier]
        simp
      rw [hend, List.getLast?_concat]
      decide
    have hlt := StringLiteral.length_text?_lt hquote hlast (backslash_mem_moduleSpecifier_iff.mpr hbackslash) htext
    have hle := length_moduleSpecifier_le h hfile
    rw [String.length_toList, String.length_toList] at hlt
    omega
  · intro hbackslash
    rw [StringLiteral.text?_plain hquote (mt backslash_mem_moduleSpecifier_iff.mp hbackslash)
      (habsent (fun hmem => (hpath _ hmem).2.2.1 rfl) (by decide))
      (habsent (fun hmem => (hpath _ hmem).2.2.2 rfl) (by decide)), Option.bind_some, String.ofList_toList]
    exact sourceFile?_moduleSpecifier h out

/-- The specifier of the shared module goes up as often as the module of the group is deep. -/
theorem parts_runtimeImport (group : String) :
    Text.parts '/' (runtimeImport group) =
      ".." :: (List.replicate (pathParts group).length ".." ++ ["_runtime.js"]) := by
  have hup (depth : Nat) : Text.parts '/' (String.join (List.replicate depth "../") ++ "_runtime.js") =
      List.replicate depth ".." ++ ["_runtime.js"] := by
    induction depth with
    | zero => decide
    | succ depth ih =>
      have hstep : String.join (List.replicate (depth + 1) "../") ++ "_runtime.js" =
          ".." ++ "/" ++ (String.join (List.replicate depth "../") ++ "_runtime.js") := by
        rw [List.replicate_succ, String.join_cons, ← String.toList_inj]
        simp
      have hdots : Text.parts '/' ".." = [".."] := by decide
      rw [hstep, parts_slash, hdots, ih, List.replicate_succ]
      rfl
  rw [runtimeImport, hup, List.replicate_succ]
  rfl

theorem sourceFile?_runtimeImport (group : String) (out : Location) :
    sourceFile? (out ++ (Plan.modulePath group).parts.dropLast) (runtimeImport group) =
      some (out ++ [runtimeFile]) := by
  have hdir : (Plan.modulePath group).parts.dropLast = "messages" :: pathParts group := by
    rw [Plan.modulePath, ← List.cons_append, List.dropLast_concat]
  have hplace : (".." :: List.replicate (pathParts group).length "..").foldl enter
      (out ++ "messages" :: pathParts group) = out := by
    rw [← List.replicate_succ, ← List.length_cons (a := "messages"), foldl_enter_up]
  have hsource : sourceName? "_runtime.js" = some runtimeFile := by decide
  rw [hdir, sourceFile?_of_parts (parts_runtimeImport group) (.inr rfl) hplace (by decide) hsource]

theorem mem_runtimeImport {c : Char} (hc : c ∈ (runtimeImport group).toList) : c ∈ "../_runtime.js".toList := by
  rw [runtimeImport, String.toList_append, List.mem_append, String.toList_join, List.mem_flatMap] at hc
  rcases hc with ⟨up, hup, hc⟩ | hc
  · rw [List.eq_of_mem_replicate hup] at hc
    have hsub : "../".toList ⊆ "../_runtime.js".toList := by decide +kernel
    exact hsub hc
  · have hsub : "_runtime.js".toList ⊆ "../_runtime.js".toList := by decide +kernel
    exact hsub hc

theorem text?_runtimeImport (group : String) (rest : List Char) :
    StringLiteral.text? ((runtimeImport group).toList ++ '"' :: rest) = some (runtimeImport group) := by
  have habsent {c : Char} (hc : c ∉ "../_runtime.js".toList) : c ∉ (runtimeImport group).toList :=
    mt mem_runtimeImport hc
  rw [StringLiteral.text?_plain (habsent (by decide)) (habsent (by decide)) (habsent (by decide)) (habsent (by decide)),
    String.ofList_toList]

theorem GroupModule.brace_not_mem_front {groupModule : GroupModule} (h : '\x7d' ∉ groupModule.group.toList) :
    '\x7d' ∉ groupModule.front.toList := by
  have hsource :
      '\x7d' ∉ (if groupModule.group.isEmpty then "messages" else "messages/" ++ groupModule.group).toList := by
    split
    · decide
    · simp [h]
  have himports : '\x7d' ∉ (", ".intercalate groupModule.imports).toList := by
    rw [imports]
    split <;> split <;> decide +kernel
  unfold front
  simp only [String.toList_append, List.mem_append, not_or]
  exact ⟨⟨⟨⟨by decide, hsource⟩, by decide⟩, himports⟩, by decide⟩

theorem exists_specifiers_render {groupModule : GroupModule} (hgroup : '\x7d' ∉ groupModule.group.toList)
    (hsome : groupModule.functions ≠ []) (defaultLocale : String) :
    ∃ rest, specifiers (groupModule.render defaultLocale) = some (runtimeImport groupModule.group) :: rest := by
  obtain ⟨rest, hrender⟩ := GroupModule.exists_toList_render hsome defaultLocale
  have hspecifier : '\x7d' ∉ (runtimeImport groupModule.group).toList := mt mem_runtimeImport (by decide)
  refine ⟨rest.tails.filterMap clause?, ?_⟩
  rw [specifiers, hrender, filterMap_clause?_append (GroupModule.brace_not_mem_front hgroup),
    filterMap_clause?_clause hspecifier, text?_runtimeImport]

end Leads

end Script

namespace Plan

section Leading

variable {groups : List Group} {settings : Settings} {group : Group} {compiled : Group.Compiled}

theorem isBraceless_of_compile (h : group.compile settings = .ok compiled) (hsome : compiled.exports.isEmpty = false) :
    compiled.exports.IsBraceless := by
  have hpath : '\x7d' ∉ compiled.path.toList := fun hmem => (Group.ne_of_mem_path h hsome _ hmem).1 rfl
  constructor
  · rw [Group.group_of_compile h, Group.displayName]
    split
    · decide
    · exact hpath
  · intro name hname hmem
    have hpart := Identifier.isPart_of_isValid (Group.isValid_of_compile h hname) _ hmem
    exact absurd hpart (by decide)
  · rw [Script.Exports.specifier, Group.modulePath_of_compile h]
    exact fun hmem => (Script.mem_moduleSpecifier hmem).elim hpath (by decide)

/-- The specifier by which a group's module names the shared module leads to it. -/
theorem runtime_specifier_of_compile (h : group.compile settings = .ok compiled)
    (hsome : compiled.exports.accessors ≠ []) (out : Location) :
    ∃ specifier rest, Script.specifiers compiled.source = some specifier :: rest ∧
      Script.sourceFile? (out ++ (modulePath compiled.path).parts.dropLast) specifier =
        some (out ++ [Script.runtimeFile]) := by
  obtain ⟨groupModule, hgroup, hsource, haccessors⟩ := Group.exists_render_of_compile h
  have hexports : compiled.exports.isEmpty = false := by
    rw [Script.Exports.isEmpty, Script.Exports.names, List.isEmpty_eq_false_iff]
    exact List.append_ne_nil_of_left_ne_nil (List.append_ne_nil_of_left_ne_nil hsome _) _
  have hbrace : '\x7d' ∉ groupModule.group.toList := by
    rw [hgroup]
    exact fun hmem => (Group.ne_of_mem_path h hexports _ hmem).1 rfl
  have hfunctions : groupModule.functions ≠ [] := by
    intro hnil
    exact hsome (by rw [haccessors, hnil, List.map_nil])
  obtain ⟨rest, hspecifiers⟩ := Script.exists_specifiers_render hbrace hfunctions settings.defaultLocale
  rw [hgroup] at hspecifiers
  exact ⟨_, rest, hsource ▸ hspecifiers, Script.sourceFile?_runtimeImport compiled.path out⟩

/-- In the index of compiled groups, the specifier of each group that exports anything leads to the group's module
exactly when there is no backslash in the path of the group. In the modules, the specifier of the shared module leads
there. -/
theorem specifiers_lead_to_modules {compiled : List Group.Compiled}
    (hrelative : ∀ group ∈ groups, IsRelative group.path)
    (hcompiled : groups.mapM (fun group => group.compile settings) = .ok compiled) (out : Location) :
    (∃ requests,
      Script.specifiers (Script.renderIndex (compiled.map fun group => group.exports)) =
        some "./_runtime.js" :: requests ∧
      List.Forall₂ (fun group request =>
          request.bind (Script.sourceFile? out) = some (out ++ (modulePath group.path).parts) ↔
            '\\' ∉ group.path.toList)
        (compiled.filter fun group => !group.exports.isEmpty) requests) ∧
    ∀ group ∈ compiled, group.exports.accessors ≠ [] →
      ∃ specifier rest, Script.specifiers group.source = some specifier :: rest ∧
        Script.sourceFile? (out ++ (modulePath group.path).parts.dropLast) specifier =
          some (out ++ [Script.runtimeFile]) := by
  constructor
  · have hbraceless : ∀ entry ∈ compiled.map fun group => group.exports,
        entry.isEmpty = false → entry.IsBraceless := by
      rw [List.forall_mem_map]
      intro result hresult hsome
      obtain ⟨group, -, hcompile⟩ := Group.exists_of_mem_compiled hcompiled hresult
      exact isBraceless_of_compile hcompile hsome
    obtain ⟨requests, hspecifiers, hrequests⟩ := Script.exists_specifiers_renderIndex hbraceless
    refine ⟨requests, hspecifiers, ?_⟩
    have hgroups : ∀ result ∈ compiled.filter fun group => !group.exports.isEmpty,
        ∃ group ∈ groups, group.compile settings = .ok result ∧ result.exports.isEmpty = false := by
      intro result hresult
      rw [List.mem_filter, Bool.not_eq_true'] at hresult
      obtain ⟨group, hgroup, hcompile⟩ := Group.exists_of_mem_compiled hcompiled hresult.1
      exact ⟨group, hgroup, hcompile, hresult.2⟩
    rw [List.filter_map, List.forall₂_map_left_iff] at hrequests
    refine ((List.forall₂_and_left _ _).mpr ⟨hgroups, hrequests⟩).imp ?_
    rintro result request ⟨⟨group, hgroup, hcompile, hsome⟩, rest, rfl⟩
    have hpath : result.path = group.path := Group.path_of_compile hcompile
    rw [Script.Exports.specifier, Group.modulePath_of_compile hcompile]
    exact Script.bind_text?_moduleSpecifier_iff (hpath ▸ hrelative group hgroup)
      (Group.ne_of_mem_path hcompile hsome) rest
  · intro result hresult hsome
    obtain ⟨group, -, hcompile⟩ := Group.exists_of_mem_compiled hcompiled hresult
    exact runtime_specifier_of_compile hcompile hsome out

/-- Two groups, one at the top and one in directories with other characters than letters in their names. -/
def nestedGroups : List Group :=
  [⟨"", [("en", .object [("a", .string "x")])]⟩, ⟨"shop/a-b.c", [("en", .object [("a", .string "y")])]⟩]

theorem specifiers_lead_to_modules_nested :
    (∀ group ∈ nestedGroups, IsRelative group.path) ∧
    ∃ compiled requests, nestedGroups.mapM (fun group => group.compile .initial) = .ok compiled ∧
      Script.specifiers (Script.renderIndex (compiled.map fun group => group.exports)) =
        some "./_runtime.js" :: requests ∧
      List.Forall₂ (fun group request =>
          request.bind (Script.sourceFile? ["out"]) = some ("out" :: (modulePath group.path).parts))
        compiled requests ∧
      ∀ group ∈ compiled, ∃ specifier rest, Script.specifiers group.source = some specifier :: rest ∧
        Script.sourceFile? ("out" :: (modulePath group.path).parts.dropLast) specifier =
          some ["out", Script.runtimeFile] := by
  have hrelative : ∀ group ∈ nestedGroups, IsRelative group.path := by decide +kernel
  obtain ⟨compiled, hcompiled, hexports⟩ : ∃ compiled,
      nestedGroups.mapM (fun group : Group => group.compile .initial) = .ok compiled ∧
        (compiled.all fun group => !group.exports.isEmpty && !group.exports.accessors.isEmpty) = true :=
    Outcome.exists_eq_ok_of_any (by decide +kernel)
  have hall := List.all_eq_true.mp hexports
  obtain ⟨⟨requests, hspecifiers, hrequests⟩, hruntime⟩ := specifiers_lead_to_modules hrelative hcompiled ["out"]
  rw [List.filter_eq_self.mpr fun group hgroup => (Bool.and_eq_true_iff.mp (hall group hgroup)).1] at hrequests
  have hplain : ∀ group ∈ compiled, '\\' ∉ group.path.toList := by
    have hpaths : ∀ path ∈ nestedGroups.map fun group => group.path, '\\' ∉ path.toList := by decide
    rw [← Group.paths_of_mapM_compile hcompiled] at hpaths
    exact fun group hgroup => hpaths group.path (List.mem_map_of_mem hgroup)
  refine ⟨hrelative, compiled, requests, hcompiled, hspecifiers, ?_, fun group hgroup => ?_⟩
  · exact ((List.forall₂_and_left _ _).mpr ⟨hplain, hrequests⟩).imp fun group request h => h.2.mpr h.1
  · exact hruntime group hgroup (by simpa using (Bool.and_eq_true_iff.mp (hall group hgroup)).2)

def backslashGroup : Group := ⟨"a\\b", [("en", .object [("x", .string "X")])]⟩

/-- A backslash in a directory's name leads the specifier to another directory. -/
theorem specifiers_lead_elsewhere :
    IsRelative backslashGroup.path ∧
    ∃ compiled, backslashGroup.compile .initial = .ok compiled ∧ compiled.exports.isEmpty = false ∧
      Script.specifiers (Script.renderIndex [compiled.exports]) =
        [some "./_runtime.js", some "./messages/a\x08/messages.js"] ∧
      Script.sourceFile? ["out"] "./messages/a\x08/messages.js" ≠
        some ("out" :: (modulePath backslashGroup.path).parts) := by
  obtain ⟨compiled, hcompiled, hexports⟩ : ∃ compiled,
      backslashGroup.compile .initial = .ok compiled ∧
        decide (compiled.exports = ⟨"a\\b", "./messages/a\\b/messages", ["a_b_x"], [], some "a_b_messages"⟩) = true :=
    Outcome.exists_eq_ok_of_any (by decide +kernel)
  refine ⟨by decide +kernel, compiled, hcompiled, ?_⟩
  rw [of_decide_eq_true hexports]
  refine ⟨rfl, ?_, by decide +kernel⟩
  rw [Script.renderIndex_eq, Script.specifiers_layOut_append (by decide)]
  decide +kernel

end Leading

end Plan

end Phrasebook
