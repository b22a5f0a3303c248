import Phrasebook.Project.Load

/-! # Checking a project

A check tests every group for completeness, whatever the settings say about validation, and writes nothing.
Groups that are not complete are reported together; any other error ends the check.
-/

namespace Phrasebook

structure GroupCheck where
  name : String
  size : Nat
  counts : List (String × Nat)
  failure : Option Completeness.Failure

/-- The error of a group that is not complete. -/
def GroupCheck.error? (group : GroupCheck) : Option Error :=
  group.failure.map fun failure => .inGroup group.name (.incomplete failure)

structure Check where
  groups : List GroupCheck
  ignored : List LocaleFile

namespace Check

def failed (check : Check) : List GroupCheck :=
  check.groups.filter fun group => group.failure.isSome

def isValid (check : Check) : Bool := check.failed.isEmpty

end Check

namespace Project

def checkGroup (project : Project) (tree : FileTree) (files : GroupFiles) : Except Error GroupCheck := do
  let group ← readGroup tree files
  let analysis ← within files.name (Group.analyze group.documents)
  let settings := project.settings
  return {
    name := files.name
    size := analysis.catalog.size
    counts := analysis.counts
    failure :=
      match Completeness.check settings.locales settings.defaultLocale analysis.catalog with
      | .ok _ => none
      | .error failure => some failure }

def check (project : Project) (tree : FileTree) : Except Error Check := do
  let scan ← project.scan tree
  let groups ← scan.groups.mapM (project.checkGroup tree)
  return ⟨groups, scan.ignored⟩

end Project

end Phrasebook
