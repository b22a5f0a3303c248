import Phrasebook.Proofs.Script.Specifier
import Phrasebook.Script.GroupModule

/-! # Texts of group modules

The text of a module requests from the shared module just what the module imports, and holds the text of every
function and of the namespace constant.
-/

namespace Phrasebook.Script.GroupModule

/-- The text of a group's module before the end of its import. -/
def front (groupModule : GroupModule) : String :=
  let source := if groupModule.group.isEmpty then "messages" else "messages/" ++ groupModule.group
  "// Generated by glider from " ++ source ++ ". Do not edit.\n\nimport \x7b " ++
    ", ".intercalate groupModule.imports ++ " "

variable {groupModule : GroupModule}

theorem exists_toList_render (h : groupModule.functions ≠ []) (defaultLocale : String) :
    ∃ rest, (groupModule.render defaultLocale).toList =
      groupModule.front.toList ++ ((clauseLine (runtimeImport groupModule.group)).toList ++ '\n' :: rest) := by
  have hsome : groupModule.functions.isEmpty = false := by simpa using h
  have hfront : groupModule.front.toList ++ ((clauseLine (runtimeImport groupModule.group)).toList ++ ['\n']) <+:
      (groupModule.render defaultLocale).toList := by
    unfold render front
    rw [hsome, if_neg Bool.false_ne_true]
    simp [clauseLine]
  obtain ⟨rest, hrest⟩ := hfront
  exact ⟨rest, by simpa using hrest.symm⟩

end Phrasebook.Script.GroupModule
