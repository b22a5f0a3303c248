import Phrasebook.Plan
import Phrasebook.Proofs.Group.Analysis
import Phrasebook.Proofs.Identifier
import Phrasebook.Proofs.Registry

/-! # Exported names are distinct

The registry lets an owner claim one name twice. That never happens: an accessor, its interface and the
namespace constant are called differently even when a message has the path of another owner, and the one
displayed name that two groups can share leaves one of them without any usable name.
-/

namespace Phrasebook

namespace Group

theorem checkNames_eq_ok_iff (claims : List (String × String)) :
    checkNames claims = .ok () ↔ ∃ registry, Registry.registerAll [] claims = .ok registry := by
  rw [checkNames]
  cases Registry.registerAll [] claims with
  | ok registry => simp
  | error failure => simp

/-- The constant that a group's namespace has, if namespaces are wanted. -/
def namespaceConst? (settings : Settings) (path : String) : Option String :=
  if settings.generateNamespaces then some (Identifier.namespaceConst path) else none

/-- Compiling after the catalog is known and accepted. -/
def assemble (group : Group) (settings : Settings) (analysis : Analysis) : Except Problem Compiled := do
  let accessors := functions group.path analysis.catalog
  let namespaceConst := namespaceConst? settings group.path
  checkNames (claims accessors namespaceConst)
  let namespaceObject ← namespaceConst.mapM fun name => do
    return (name, ← buildNamespace group.path settings.defaultLocale analysis.catalog)
  return {
    path := group.path
    size := analysis.catalog.size
    counts := analysis.counts
    source := Script.GroupModule.render
      { group := group.path, functions := accessors, namespaceObject } settings.defaultLocale
    exports := {
      group := displayName group.path
      modulePath := Script.moduleImport group.path
      accessors := accessors.map fun function => function.identifier
      paramsTypes := accessors.filterMap fun function => function.paramsType
      namespaceConst } }

theorem compile_eq_bind (group : Group) (settings : Settings) :
    group.compile settings = analyze group.documents >>= fun analysis =>
      if settings.requireComplete = true then
        checkComplete settings analysis.catalog >>= fun _ => group.assemble settings analysis
      else group.assemble settings analysis := rfl

theorem compile_eq_ok_iff {group : Group} {settings : Settings} {compiled : Compiled} :
    group.compile settings = .ok compiled ↔
      ∃ analysis, analyze group.documents = .ok analysis ∧
        (settings.requireComplete = true → checkComplete settings analysis.catalog = .ok ()) ∧
        group.assemble settings analysis = .ok compiled := by
  rw [compile_eq_bind, Outcome.bind_eq_ok_iff]
  refine exists_congr fun analysis => and_congr_right fun _ => ?_
  by_cases hrequire : settings.requireComplete = true
  · rw [if_pos hrequire, Outcome.bind_eq_ok_iff]
    exact ⟨fun ⟨_, hcheck, hassemble⟩ => ⟨fun _ => hcheck, hassemble⟩,
      fun ⟨hcheck, hassemble⟩ => ⟨(), hcheck hrequire, hassemble⟩⟩
  · rw [if_neg hrequire]
    simp [hrequire]

theorem assemble_eq_ok {group : Group} {settings : Settings} {analysis : Analysis} {compiled : Compiled}
    (h : group.assemble settings analysis = .ok compiled) :
    checkNames (claims (functions group.path analysis.catalog) (namespaceConst? settings group.path)) =
        .ok () ∧
      compiled.path = group.path ∧
      compiled.exports =
        { group := displayName group.path
          modulePath := Script.moduleImport group.path
          accessors := (functions group.path analysis.catalog).map fun function => function.identifier
          paramsTypes := (functions group.path analysis.catalog).filterMap fun function => function.paramsType
          namespaceConst := namespaceConst? settings group.path } := by
  rw [assemble, Outcome.bind_eq_ok_iff] at h
  obtain ⟨_, hnames, h⟩ := h
  rw [Outcome.bind_eq_ok_iff] at h
  obtain ⟨namespaceObject, -, h⟩ := h
  cases h
  exact ⟨hnames, rfl, rfl⟩

theorem accessorClaims_ofEntry (key group : String) (entry : Message.Entry) (claim : String × String)
    (h : claim ∈ accessorClaims (.ofEntry key entry group)) :
    claim.2 = key ∧ (claim.1 = Identifier.ofPath key group ∨
      claim.1 = Identifier.paramsType (Identifier.ofPath key group)) := by
  obtain ⟨name, hname, rfl⟩ := List.mem_map.mp h
  refine ⟨rfl, ?_⟩
  rcases List.mem_cons.mp hname with rfl | hname
  · exact .inl rfl
  · rw [Script.Function.ofEntry] at hname
    dsimp only at hname
    split at hname
    · cases hname
    · exact .inr (List.mem_singleton.mp hname)

theorem underscore_not_mem_runtimeClaims {claim : String × String} (h : claim ∈ runtimeClaims) :
    '_' ∉ claim.1.toList ∧ claim.2 = Script.runtimeFile := by
  have hall : ∀ claim ∈ runtimeClaims, '_' ∉ claim.1.toList ∧ claim.2 = Script.runtimeFile := by decide
  exact hall claim h

/-- The claims of the accessors of a catalog, by the displayed paths of their messages. -/
theorem mem_claims_functions {group : String} {catalog : Message.Catalog} {claim : String × String}
    (h : claim ∈ (functions group catalog).flatMap accessorClaims) :
    claim.1 = Identifier.ofPath claim.2 group ∨
      claim.1 = Identifier.paramsType (Identifier.ofPath claim.2 group) := by
  obtain ⟨function, hfunction, hclaim⟩ := List.mem_flatMap.mp h
  obtain ⟨⟨key, entry⟩, -, rfl⟩ := List.mem_map.mp hfunction
  obtain ⟨rfl, hname⟩ := accessorClaims_ofEntry key group entry claim hclaim
  exact hname

theorem pairwise_accessorClaims (key group : String) (entry : Message.Entry) :
    (accessorClaims (.ofEntry key entry group)).Pairwise
      fun first second => first.2 = second.2 → first.1 ≠ second.1 := by
  rw [accessorClaims, Script.Function.ofEntry]
  dsimp only
  split
  · exact List.pairwise_singleton _ _
  · simpa using (Identifier.paramsType_ne_self (Identifier.ofPath key group)).symm

theorem mem_namespaceClaims {settings : Settings} {group : String} {claim : String × String}
    (h : claim ∈ (namespaceConst? settings group).toList.map fun name => (name, "namespace")) :
    claim = (Identifier.namespaceConst group, "namespace") := by
  rw [namespaceConst?] at h
  split at h
  · exact List.mem_singleton.mp h
  · cases h

/-- No owner claims one name twice. -/
theorem pairwise_claims (group : String) {catalog : Message.Catalog}
    (hkeys : (Keyed.keys catalog.entries).Nodup) (settings : Settings) :
    (claims (functions group catalog) (namespaceConst? settings group)).Pairwise
      fun first second => first.2 = second.2 → first.1 ≠ second.1 := by
  rw [claims, List.pairwise_append, List.pairwise_append, List.pairwise_flatMap]
  refine ⟨⟨by decide, ⟨?single, ?several⟩, ?runtime⟩, ?constant, ?apart⟩
  case single =>
    intro function hfunction
    obtain ⟨⟨key, entry⟩, -, rfl⟩ := List.mem_map.mp hfunction
    exact pairwise_accessorClaims key group entry
  case several =>
    rw [functions, List.pairwise_map]
    rw [Keyed.keys, List.Nodup, List.pairwise_map] at hkeys
    refine hkeys.imp ?_
    rintro ⟨key, entry⟩ ⟨key', entry'⟩ hne first hfirst second hsecond howner
    rw [(accessorClaims_ofEntry key group entry first hfirst).1,
      (accessorClaims_ofEntry key' group entry' second hsecond).1] at howner
    exact absurd howner hne
  case runtime =>
    intro runtime hruntime claim hclaim howner heq
    obtain ⟨hplain, hfile⟩ := underscore_not_mem_runtimeClaims hruntime
    have hunderscore := Identifier.underscore_mem_of_runtimeFile group
    rw [hfile] at howner
    apply hplain
    rcases mem_claims_functions hclaim with hname | hname
    · rw [heq, hname, ← howner]
      exact hunderscore.1
    · rw [heq, hname, ← howner]
      exact hunderscore.2
  case constant =>
    cases namespaceConst? settings group with
    | none => exact List.Pairwise.nil
    | some name => exact List.pairwise_singleton _ _
  case apart =>
    intro claim hclaim constant hconstant howner heq
    obtain rfl := mem_namespaceClaims hconstant
    change claim.2 = "namespace" at howner
    rcases List.mem_append.mp hclaim with hruntime | haccessor
    · rw [(underscore_not_mem_runtimeClaims hruntime).2] at howner
      exact absurd howner (by decide)
    · rcases mem_claims_functions haccessor with hname | hname
      · rw [heq, howner] at hname
        exact Identifier.ofPath_namespace_ne_namespaceConst group hname.symm
      · rw [heq] at hname
        exact Identifier.paramsType_ne_namespaceConst _ group hname.symm

theorem names_accessorClaims (function : Script.Function) :
    (accessorClaims function).map (·.1) = function.identifier :: function.paramsType.toList := by
  rw [accessorClaims, List.map_map]
  exact List.map_id _

theorem names_accessorClaims_perm (functions : List Script.Function) :
    ((functions.flatMap accessorClaims).map (·.1)).Perm
      (functions.map (fun function => function.identifier) ++
        functions.filterMap fun function => function.paramsType) := by
  induction functions with
  | nil => exact List.Perm.refl _
  | cons function rest ih =>
    have hfilter : (function :: rest).filterMap (fun function => function.paramsType) =
        function.paramsType.toList ++ rest.filterMap fun function => function.paramsType := by
      rw [List.filterMap_cons]
      cases function.paramsType <;> rfl
    rw [List.flatMap_cons, List.map_append, names_accessorClaims, hfilter, List.map_cons, List.cons_append,
      List.cons_append]
    refine List.Perm.cons _ ((ih.append_left _).trans ?_)
    rw [← List.append_assoc, ← List.append_assoc]
    exact List.perm_append_comm.append_right _

theorem names_claims_perm (functions : List Script.Function) (constant : Option String) :
    ((claims functions constant).map (·.1)).Perm
      (Script.runtimeExports ++ (functions.map (fun function => function.identifier) ++
        functions.filterMap (fun function => function.paramsType) ++ constant.toList)) := by
  have hruntime : runtimeClaims.map (·.1) = Script.runtimeExports := by decide
  have hconstant : (constant.toList.map fun name => (name, "namespace")).map (·.1) = constant.toList := by
    rw [List.map_map]
    exact List.map_id _
  rw [claims, List.map_append, List.map_append, hruntime, hconstant, List.append_assoc]
  exact ((names_accessorClaims_perm functions).append_right _).append_left _

section Compiled

variable {group : Group} {settings : Settings} {compiled : Compiled}

/-- A compiled group exports distinct names, none of them one of the shared module. -/
theorem nodup_names_of_compile (h : group.compile settings = .ok compiled) :
    (Script.runtimeExports ++ compiled.exports.names).Nodup := by
  obtain ⟨analysis, hanalysis, -, hassemble⟩ := compile_eq_ok_iff.mp h
  obtain ⟨hnames, -, hexports⟩ := assemble_eq_ok hassemble
  obtain ⟨registry, hregistry⟩ := (checkNames_eq_ok_iff _).mp hnames
  have hpairwise := pairwise_claims group.path (nodup_keys_of_analyze hanalysis) settings
  rw [hexports]
  exact (names_claims_perm _ _).nodup_iff.mp (Registry.nodup_names hregistry hpairwise)

theorem isValid_of_compile (h : group.compile settings = .ok compiled) {name : String}
    (hname : name ∈ compiled.exports.names) : Identifier.isValid name = true := by
  obtain ⟨analysis, -, -, hassemble⟩ := compile_eq_ok_iff.mp h
  obtain ⟨hnames, -, hexports⟩ := assemble_eq_ok hassemble
  obtain ⟨registry, hregistry⟩ := (checkNames_eq_ok_iff _).mp hnames
  rw [hexports] at hname
  have hclaimed := (names_claims_perm _ _).mem_iff.mpr (List.mem_append_right Script.runtimeExports hname)
  obtain ⟨claim, hclaim, heq⟩ := List.mem_map.mp hclaimed
  rw [← heq]
  exact ((Registry.get?_registerAll hregistry).2 claim hclaim).1

/-- A group whose path is the displayed name of the group without a path exports nothing. -/
theorem names_eq_nil_of_root (h : group.compile settings = .ok compiled)
    (hroot : compiled.path = "(root)") : compiled.exports.names = [] := by
  obtain ⟨analysis, -, -, hassemble⟩ := compile_eq_ok_iff.mp h
  obtain ⟨-, hpath, hexports⟩ := assemble_eq_ok hassemble
  rw [hroot] at hpath
  rw [List.eq_nil_iff_forall_not_mem]
  intro name hname
  have hvalid := isValid_of_compile h hname
  rw [hexports, ← hpath, Script.Exports.names, List.mem_append, List.mem_append] at hname
  rcases hname with (haccessor | hparams) | hconstant
  · obtain ⟨function, hfunction, rfl⟩ := List.mem_map.mp haccessor
    obtain ⟨⟨key, entry⟩, -, rfl⟩ := List.mem_map.mp hfunction
    change Identifier.isValid (Identifier.ofPath key "(root)") = true at hvalid
    rw [Identifier.ofPath, Identifier.isValid_qualify_root] at hvalid
    cases hvalid
  · obtain ⟨function, hfunction, hparams⟩ := List.mem_filterMap.mp hparams
    obtain ⟨⟨key, entry⟩, -, rfl⟩ := List.mem_map.mp hfunction
    change (if entry.params.isEmpty then none else some (Identifier.paramsType
      (Identifier.ofPath key "(root)"))) = some name at hparams
    split at hparams
    · cases hparams
    · cases hparams
      rw [Identifier.ofPath, Identifier.isValid_paramsType_root] at hvalid
      cases hvalid
  · rw [namespaceConst?] at hconstant
    split at hconstant
    · rw [List.mem_singleton.mp hconstant, Identifier.namespaceConst, Identifier.isValid_qualify_root] at hvalid
      cases hvalid
    · cases hconstant

theorem path_of_compile (h : group.compile settings = .ok compiled) : compiled.path = group.path := by
  obtain ⟨analysis, -, -, hassemble⟩ := compile_eq_ok_iff.mp h
  exact (assemble_eq_ok hassemble).2.1

theorem modulePath_of_compile (h : group.compile settings = .ok compiled) :
    compiled.exports.modulePath = Script.moduleImport compiled.path := by
  obtain ⟨analysis, -, -, hassemble⟩ := compile_eq_ok_iff.mp h
  obtain ⟨-, hpath, hexports⟩ := assemble_eq_ok hassemble
  rw [hexports, hpath]

theorem group_of_compile (h : group.compile settings = .ok compiled) :
    compiled.exports.group = displayName compiled.path := by
  obtain ⟨analysis, -, -, hassemble⟩ := compile_eq_ok_iff.mp h
  obtain ⟨-, hpath, hexports⟩ := assemble_eq_ok hassemble
  rw [hexports, hpath]

end Compiled

theorem eq_or_root_of_displayName_eq {first second : String} (h : displayName first = displayName second) :
    first = second ∨ first = "(root)" ∨ second = "(root)" := by
  rw [displayName, displayName] at h
  split at h
  · rename_i hfirst
    split at h
    · rename_i hsecond
      rw [String.isEmpty_iff] at hfirst hsecond
      exact .inl (hfirst.trans hsecond.symm)
    · exact .inr (.inr h.symm)
  · split at h
    · exact .inr (.inl h)
    · exact .inl h

theorem paths_of_mapM_compile {groups : List Group} {settings : Settings} {compiled : List Compiled}
    (h : groups.mapM (fun group => group.compile settings) = .ok compiled) :
    compiled.map (fun compiled => compiled.path) = groups.map fun group => group.path := by
  rw [Outcome.mapM_eq_ok_iff] at h
  induction h with
  | nil => rfl
  | cons hcompile _ ih => rw [List.map_cons, List.map_cons, ih, path_of_compile hcompile]

theorem exists_of_mem_compiled {groups : List Group} {settings : Settings} {compiled : List Compiled}
    (h : groups.mapM (fun group => group.compile settings) = .ok compiled) {result : Compiled}
    (hresult : result ∈ compiled) : ∃ group ∈ groups, group.compile settings = .ok result :=
  Outcome.exists_of_mem_mapM h hresult

end Group

namespace Plan

open Phrasebook.Group

theorem files_eq_ok {groups : List Compiled} {settings : Settings} {planned : List OutputFile}
    (h : files groups settings = .ok planned) :
    checkIndex (groups.map fun group => group.exports) = .ok () := by
  rw [files, Outcome.bind_eq_ok_iff] at h
  obtain ⟨_, hcheck, -⟩ := h
  exact hcheck

/-- Groups that share an exported name have one displayed name. -/
theorem displayName_eq_of_checkIndex {entries : List Script.Exports} (h : checkIndex entries = .ok ())
    {first second : Script.Exports} (hfirst : first ∈ entries) (hsecond : second ∈ entries) {name : String}
    (hname : name ∈ first.names) (hname' : name ∈ second.names) : first.group = second.group := by
  obtain ⟨registry, hregistry⟩ := (checkNames_eq_ok_iff _).mp h
  have hclaim {entry : Script.Exports} (hentry : entry ∈ entries) (hmem : name ∈ entry.names) :
      (name, entry.group) ∈ indexClaims entries :=
    List.mem_append_right _ (List.mem_flatMap.mpr ⟨entry, hentry, List.mem_map_of_mem hmem⟩)
  exact Registry.owner_unique hregistry (hclaim hfirst hname) (hclaim hsecond hname')

/-- No two exported names of a plan are equal, and all names of groups are usable. -/
theorem nodup_exports {groups : List Group} (hpaths : (groups.map fun group => group.path).Nodup)
    {settings : Settings} {compiled : List Compiled}
    (hcompiled : groups.mapM (fun group => group.compile settings) = .ok compiled)
    {planned : List OutputFile} (hplanned : files compiled settings = .ok planned) :
    (Script.runtimeExports ++ compiled.flatMap fun group => group.exports.names).Nodup ∧
      ∀ group ∈ compiled, ∀ name ∈ group.exports.names, Identifier.isValid name = true := by
  have hcheck := files_eq_ok hplanned
  have hsource {result : Compiled} (hresult : result ∈ compiled) :
      ∃ group ∈ groups, group.compile settings = .ok result := exists_of_mem_compiled hcompiled hresult
  have hnodup {result : Compiled} (hresult : result ∈ compiled) :
      (Script.runtimeExports ++ result.exports.names).Nodup := by
    obtain ⟨_, -, hcompile⟩ := hsource hresult
    exact nodup_names_of_compile hcompile
  refine ⟨List.nodup_append.mpr ⟨by decide, List.nodup_flatMap.mpr ⟨?_, ?_⟩, ?_⟩, ?_⟩
  · intro result hresult
    exact (List.nodup_append.mp (hnodup hresult)).2.1
  · rw [← paths_of_mapM_compile hcompiled, List.Nodup, List.pairwise_map] at hpaths
    refine hpaths.imp_of_mem ?_
    intro first second hfirst hsecond hne name (hname : name ∈ first.exports.names)
      (hname' : name ∈ second.exports.names)
    have hgroups := displayName_eq_of_checkIndex hcheck (List.mem_map_of_mem hfirst)
      (List.mem_map_of_mem hsecond) hname hname'
    obtain ⟨_, -, hcompile⟩ := hsource hfirst
    obtain ⟨_, -, hcompile'⟩ := hsource hsecond
    rw [group_of_compile hcompile, group_of_compile hcompile'] at hgroups
    rcases eq_or_root_of_displayName_eq hgroups with heq | hroot | hroot
    · exact hne heq
    · rw [names_eq_nil_of_root hcompile hroot] at hname
      cases hname
    · rw [names_eq_nil_of_root hcompile' hroot] at hname'
      cases hname'
  · intro name hruntime other hother heq
    subst heq
    obtain ⟨result, hresult, hname⟩ := List.mem_flatMap.mp hother
    exact (List.nodup_append.mp (hnodup hresult)).2.2 _ hruntime _ hname rfl
  · intro result hresult name hname
    obtain ⟨_, -, hcompile⟩ := hsource hresult
    exact isValid_of_compile hcompile hname

def twoGroups : List Group :=
  [⟨"", [("en", .object [("a", .string "x")])]⟩, ⟨"shop", [("en", .object [("a", .string "\x7bn\x7d")])]⟩]

theorem nodup_exports_two_groups :
    ∃ compiled planned,
      (twoGroups.map fun group => group.path).Nodup ∧
      twoGroups.mapM (fun group => group.compile .initial) = .ok compiled ∧
      files compiled .initial = .ok planned ∧
      (Script.runtimeExports ++ compiled.flatMap fun group => group.exports.names).Nodup ∧
      ∀ group ∈ compiled, ∀ name ∈ group.exports.names, Identifier.isValid name = true := by
  have hpaths : (twoGroups.map fun group => group.path).Nodup := by decide
  obtain ⟨planned, hrun⟩ : ∃ planned,
      (twoGroups.mapM (fun group => group.compile .initial) >>= fun compiled => files compiled .initial) = .ok planned :=
    Outcome.exists_eq_ok_of_toOption (by decide +kernel)
  obtain ⟨compiled, hcompiled, hplanned⟩ := Outcome.bind_eq_ok_iff.mp hrun
  exact ⟨compiled, planned, hpaths, hcompiled, hplanned, nodup_exports hpaths hcompiled hplanned⟩

end Plan

end Phrasebook
