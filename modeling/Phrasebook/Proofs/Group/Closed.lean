import Phrasebook.Proofs.Group.Exports
import Phrasebook.Proofs.Group.Translations
import Phrasebook.Proofs.Namespace.Leaves
import Phrasebook.Proofs.Script.Calls
import Phrasebook.Proofs.Script.GroupModule

/-! # Modules are closed

What a group's module refers to is there: its namespace refers to accessors of the module, and it imports the
placeholder functions that its accessors call. This does not depend on whether the group is complete, since a
gathered catalog has the elements of the lists of all locales.
-/

namespace Phrasebook

open Message Namespace

namespace Group

open Json (Reaches)

/-- The catalog of documents has the elements of its lists, in whatever locale a list stands. -/
theorem listsElements_gather {documents : List (String × Json)}
    (hobjects : ∀ document ∈ documents, document.2.isObject = true) (group defaultLocale : String) :
    Source.ListsElements ⟨.gather (recordsOf documents), group, defaultLocale⟩ := by
  refine ⟨Catalog.keys_gather_nodup _, ?_⟩
  intro key entry locale items position value hentry hlist hget hvalue
  obtain ⟨origin, record, hrecord, rfl, hitems⟩ := Catalog.mem_values_gather hentry hlist
  obtain ⟨document, hdocument, hflat⟩ := mem_contributions_recordsOf.mp hrecord
  obtain ⟨path, list, hreach, hplain, rfl⟩ := (Record.mem_ofDocument_iff _ _).mp hflat
  change list = .array items at hitems
  subst hitems
  have hinside : Reaches document (path.element position) value := hreach.append (.element hget (.here value))
  have hdisplay : Path.display (path.element position) = Source.elementPath path.display position :=
    Path.display_element (keyed_of_reaches (hobjects _ hdocument) hreach hplain) position
  obtain ⟨own, hown⟩ := exists_entry_of_reaches hdocument hinside hvalue
  refine ⟨own, hdisplay ▸ hown, fun harray => ?_⟩
  have hmem := (Record.mem_ofDocument_iff _ _).mpr ⟨_, _, hinside, hvalue, rfl⟩
  exact Catalog.isArrayRoot_gather hown (mem_contributions_recordsOf.mpr ⟨document, hdocument, hmem⟩) rfl harray

/-- The module of a group, whose text is the group's source. -/
def scriptModule (group : Group) (settings : Settings) (analysis : Analysis) :
    Except Problem Script.GroupModule := do
  let namespaceObject ← (namespaceConst? settings group.path).mapM fun name => do
    return (name, ← buildNamespace group.path settings.defaultLocale analysis.catalog)
  return { group := group.path, functions := functions group.path analysis.catalog, namespaceObject }

variable {group : Group} {settings : Settings} {analysis : Analysis} {compiled : Compiled}
  {groupModule : Script.GroupModule}

theorem exists_scriptModule_of_assemble (h : group.assemble settings analysis = .ok compiled) :
    ∃ groupModule, group.scriptModule settings analysis = .ok groupModule ∧
      compiled.source = groupModule.render settings.defaultLocale ∧
      compiled.exports.accessors = groupModule.functions.map Script.Function.identifier := by
  rw [assemble, Outcome.bind_eq_ok_iff] at h
  obtain ⟨_, -, h⟩ := h
  rw [Outcome.bind_eq_ok_iff] at h
  obtain ⟨namespaceObject, hobject, h⟩ := h
  cases h
  exact ⟨_, Outcome.bind_eq_ok_iff.mpr ⟨namespaceObject, hobject, rfl⟩, rfl, rfl⟩

end Group

end Phrasebook
