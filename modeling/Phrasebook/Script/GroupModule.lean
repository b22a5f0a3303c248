import Phrasebook.Script.Function
import Phrasebook.Script.NamespaceObject
import Phrasebook.Script.Runtime
import Phrasebook.Text.Cutting

/-! # Group modules

Each group of messages becomes one module: a header, the import from the shared module, the accessors in
catalog order and, if wanted, the namespace constant. A group without messages imports nothing.
-/

namespace Phrasebook.Script

open Namespace

def pathParts (group : String) : List String :=
  (Text.parts '/' group).filter fun part => !part.isEmpty

/-- Where a group's module finds the shared module: one directory up for the messages directory and one for
each part of the group's path. -/
def runtimeImport (group : String) : String :=
  String.join (List.replicate ((pathParts group).length + 1) "../") ++ "_runtime.js"

structure GroupModule where
  /-- The path of the group, empty for the group at the top. -/
  group : String
  functions : List Function
  namespaceObject : Option (String × Node)

namespace GroupModule

def imports (groupModule : GroupModule) : List String :=
  ["type Locale", "type LocaleResolver", "defaultLocale", "getLocale"] ++
    (if groupModule.functions.any Function.usesHasPlaceholder then ["hasPlaceholder"] else []) ++
    (if groupModule.functions.any Function.usesInterpolate then ["interpolate"] else [])

def render (groupModule : GroupModule) (defaultLocale : String) : String :=
  let source := if groupModule.group.isEmpty then "messages" else "messages/" ++ groupModule.group
  let header := "// Generated by glider from " ++ source ++ ". Do not edit.\n"
  let imports :=
    if groupModule.functions.isEmpty then ""
    else "\nimport \x7b " ++ ", ".intercalate groupModule.imports ++ " \x7d from \"" ++
      runtimeImport groupModule.group ++ "\";\n"
  let functions := groupModule.functions.map fun function => "\n" ++ function.render defaultLocale
  let object :=
    match groupModule.namespaceObject with
    | some (name, root) => "\n" ++ NamespaceObject.render name root
    | none => ""
  header ++ imports ++ String.join functions ++ object

end GroupModule

end Phrasebook.Script
