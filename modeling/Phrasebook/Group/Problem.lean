import Phrasebook.Completeness
import Phrasebook.Registry

/-! # Problems of a group

What can be wrong with the messages of a group, apart from documents that cannot be read. Only a catalog that
is not complete is a matter of its messages; the other problems lie in the keys.
-/

namespace Phrasebook

inductive Group.Problem where
  | ambiguousPath (locale path : String)
  | incomplete (failure : Completeness.Failure)
  | refusedName (failure : Registry.Failure)
  /-- A path is both a message and a namespace. -/
  | namespaceConflict (path : String)
  /-- Lists are nested deeper than the namespace allows. -/
  | nestedTooDeep
deriving Repr, DecidableEq

namespace Group.Problem

/-- Whether messages are missing or of different kinds. -/
def isIncomplete : Problem → Bool
  | .incomplete _ => true
  | _ => false

def describeGap (gap : Completeness.Gap) : String :=
  "   Locale \"" ++ gap.locale ++ "\" is missing " ++ toString gap.paths.length ++
    " translation(s):\n" ++ String.join (gap.paths.map fun path => "      - " ++ path ++ "\n")

def describeMismatch (mismatch : Completeness.Mismatch) : String :=
  "   - " ++ mismatch.path ++ " is " ++ mismatch.found.name ++ " in \"" ++ mismatch.locale ++
    "\" but " ++ mismatch.expected.name ++ " in the default locale"

def describeIncomplete (place : String) : Completeness.Failure → String
  | .missingLocale locale expected found =>
    "missing locale file \"" ++ locale ++ ".json\" in " ++ place ++ "\n   Expected locales: " ++
      ", ".intercalate expected ++ "\n   Found locales: " ++ ", ".intercalate found
  | .missingMessages gaps =>
    "missing translations in " ++ place ++ ":\n" ++ String.join (gaps.map describeGap) ++
      "Add the missing translations to the corresponding JSON file"
  | .kindMismatches mismatches =>
    "value kinds differ between locales in " ++ place ++ ":\n" ++
      "\n".intercalate (mismatches.map describeMismatch)

def describeName (place : String) : Registry.Failure → String
  | .invalid name owner =>
    "\"" ++ owner ++ "\" in " ++ place ++ " produces `" ++ name ++
      "`, which is not a usable TypeScript identifier"
  | .collision name first second =>
    "identifier `" ++ name ++ "` in " ++ place ++ " is generated by both \"" ++ first ++
      "\" and \"" ++ second ++ "\"\nHint: rename one of the keys."

def describe (place : String) : Problem → String
  | .ambiguousPath locale path =>
    "\"" ++ path ++ "\" appears more than once in " ++ locale ++ ".json of " ++ place ++
      "\nHint: keys containing '.' or '[' clash with nested keys."
  | .incomplete failure => describeIncomplete place failure
  | .refusedName failure => describeName place failure
  | .namespaceConflict path =>
    "\"" ++ path ++ "\" in " ++ place ++ " is both a message and a namespace"
  | .nestedTooDeep => "lists in " ++ place ++ " are nested too deep"

end Group.Problem

end Phrasebook
