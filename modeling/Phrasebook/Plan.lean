import Phrasebook.FilePath
import Phrasebook.Group.Basic

/-! # Planned output

A run writes the shared module, one module per group, and the index last. The index can only be written when
no two groups export one name, and none a name of the shared module.
-/

namespace Phrasebook

structure OutputFile where
  path : FilePath
  text : String
deriving Repr, DecidableEq

namespace Plan

def indexClaims (entries : List Script.Exports) : List (String × String) :=
  Group.runtimeClaims ++
    entries.flatMap fun entry => entry.names.map fun name => (name, entry.group)

/-- Accepts exports that can stand in one index. -/
def checkIndex (entries : List Script.Exports) : Except Group.Problem Unit :=
  Group.checkNames (indexClaims entries)

def modulePath (group : String) : FilePath :=
  ⟨"messages" :: (Script.pathParts group ++ ["messages.ts"])⟩

def files (groups : List Group.Compiled) (settings : Settings) :
    Except Group.Problem (List OutputFile) := do
  let entries := groups.map fun group => group.exports
  checkIndex entries
  let runtime := Script.renderRuntime settings.locales settings.defaultLocale
  let modules := groups.map fun group => ⟨modulePath group.path, group.source⟩
  let index := Script.renderIndex entries
  return ⟨⟨[Script.runtimeFile]⟩, runtime⟩ :: (modules ++ [⟨⟨[Script.indexFile]⟩, index⟩])

end Plan

end Phrasebook
