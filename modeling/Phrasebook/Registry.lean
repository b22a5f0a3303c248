import Phrasebook.Identifier
import Phrasebook.Keyed

/-! # Registry of names

A registry maps each name to the owner that first claimed it. A claim fails when the text is no usable name
or another owner has it already; repeating a claim changes nothing. Claims are made in a registry that is kept,
whether they are accepted or not.
-/

namespace Phrasebook

abbrev Registry := Keyed String

namespace Registry

inductive Failure where
  | invalid (name owner : String)
  | collision (name first second : String)
deriving Repr, DecidableEq

/-- Claims a name for an owner in the registry at hand. -/
def claim (name owner : String) : ExceptT Failure (StateM Registry) Unit := do
  if !Identifier.isValid name then throw (.invalid name owner)
  match Keyed.get? (← get) name with
  | some first => if first ≠ owner then throw (.collision name first owner) else return
  | none => modify fun registry => registry ++ [(name, owner)]

/-- How a claim in a registry ends, and the registry after it. -/
def claimIn (registry : Registry) (name owner : String) : Except Failure Unit × Registry :=
  (claim name owner).run.run registry

/-- The registry after a claim, if the claim is accepted. -/
def register (registry : Registry) (name owner : String) : Except Failure Registry :=
  match registry.claimIn name owner with
  | (.ok (), next) => .ok next
  | (.error failure, _) => .error failure

def registerAll (registry : Registry) (claims : List (String × String)) :
    Except Failure Registry :=
  claims.foldlM (fun registry (name, owner) => registry.register name owner) registry

end Registry

end Phrasebook
