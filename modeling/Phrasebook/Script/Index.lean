import Phrasebook.Script.Runtime

/-! # The index module

The index re-exports the shared module's public names and the names of every group, so that users import
from one place.
-/

namespace Phrasebook.Script

def indexFile : String := "_index.ts"

structure Exports where
  group : String
  /-- The import path of the group's module, without extension. -/
  modulePath : String
  accessors : List String
  paramsTypes : List String
  namespaceConst : Option String
deriving Repr, DecidableEq

namespace Exports

/-- Every exported name, in the order of the index. -/
def names (entry : Exports) : List String :=
  entry.accessors ++ entry.paramsTypes ++ entry.namespaceConst.toList

def isEmpty (entry : Exports) : Bool := entry.names.isEmpty

def lines (entry : Exports) : List String :=
  ["", "// " ++ entry.group, "export \x7b"] ++
    entry.accessors.map (fun name => "  " ++ name ++ ",") ++
    entry.paramsTypes.map (fun name => "  type " ++ name ++ ",") ++
    entry.namespaceConst.toList.map (fun name => "  " ++ name ++ ",") ++
    ["\x7d from \"" ++ entry.modulePath ++ ".js\";"]

end Exports

def moduleImport (group : String) : String :=
  if group.isEmpty then "./messages/messages" else "./messages/" ++ group ++ "/messages"

/-- Text of the index; groups that export nothing are left out. -/
def renderIndex (entries : List Exports) : String :=
  layOut "" ([
    generatedHeader,
    "",
    "export \x7b",
    "  type Locale,",
    "  type LocaleResolver,",
    "  locales,",
    "  defaultLocale,",
    "  setLocale,",
    "  getLocale,",
    "\x7d from \"./_runtime.js\";"] ++
    (entries.filter fun entry => !entry.isEmpty).flatMap Exports.lines)

end Phrasebook.Script
