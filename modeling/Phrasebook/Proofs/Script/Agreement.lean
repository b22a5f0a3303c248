import Mathlib
import Phrasebook.Accessor
import Phrasebook.Proofs.Accessor
import Phrasebook.Proofs.Group.Analysis
import Phrasebook.Proofs.Script.Evaluation

/-! # Accessor bodies and the meaning of accessors

The body of an accessor returns what the accessor means, statement by statement, once both have resolved to
the same value. They do so except where the active locale has a null, which the operator `??` passes over,
and where a locale without a value has the name of an inherited property.
-/

namespace Phrasebook

open Message

namespace Script

/-- What the statements after the lookup refer to. -/
structure Scope.Resolved (scope : Scope) (params : Option (Keyed String)) (value : Value) : Prop where
  undefined : scope.bound.get? "undefined" = some .undefined
  params : scope.bound.get? "params" = some (.ofParams params)
  value : scope.bound.get? "value" = some value

theorem Scope.Resolved.bind {scope : Scope} {params : Option (Keyed String)} {value : Value}
    (h : scope.Resolved params value) {name : String} (hundefined : name ≠ "undefined")
    (hparams : name ≠ "params") (hvalue : name ≠ "value") (other : Value) :
    (scope.bind name other).Resolved params value where
  undefined := by rw [Scope.bind, Keyed.get?, if_neg hundefined, h.undefined]
  params := by rw [Scope.bind, Keyed.get?, if_neg hparams, h.params]
  value := by rw [Scope.bind, Keyed.get?, if_neg hvalue, h.value]

namespace Function

attribute [local simp] Expr.eval? Expr.evalAll? Value.ofBool Value.truth?

section Conditions

variable {scope : Scope} {params : Option (Keyed String)} {value : Value}

end Conditions

section Statements

variable {scope : Scope} {params : Option (Keyed String)} {value : Value} {entry : Entry}

end Statements

section Calls

variable {scope : Scope} {params : Option (Keyed String)} {entry : Entry} {defaultLocale : String}

/-- What a scope has for the statements from the lookup on. -/
structure Given (scope : Scope) (entry : Entry) (defaultLocale : String) (params : Option (Keyed String))
    (value : Value) : Prop where
  undefined : scope.bound.get? "undefined" = some .undefined
  params : entry.params.isEmpty = false → scope.bound.get? "params" = some (.ofParams params)
  resolved : (resolved entry defaultLocale).eval? scope = some value

end Calls

section Settled

variable {scope : Scope} {params : Option (Keyed String)} {entry : Entry} {active defaultLocale : String}

end Settled

end Function

end Script

end Phrasebook
