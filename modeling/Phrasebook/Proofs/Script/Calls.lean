import Phrasebook.Script.GroupModule

/-! # Calls of accessor bodies

A body resolves its locale by a parameter of the accessor. Beyond that it calls the two placeholder functions
of the shared module, as its message demands, and looks for lists with a function that scripts have without
an import. A module imports a placeholder function when some body calls it.
-/

namespace Phrasebook.Script

namespace Expr

mutual

/-- The functions that an expression calls. -/
def calls : Expr → List String
  | .name _ => []
  | .string _ => []
  | .strings _ => []
  | .lookup table key => table.calls ++ key.calls
  | .present value => value.calls
  | .orElse first second => first.calls ++ second.calls
  | .equal left right => left.calls ++ right.calls
  | .differ left right => left.calls ++ right.calls
  | .typeOf value => value.calls
  | .not value => value.calls
  | .and left right => left.calls ++ right.calls
  | .or left right => left.calls ++ right.calls
  | .call function arguments => function :: callsOfArguments arguments
  | .anyItem list _ test => list.calls ++ test.calls
  | .mapItems list _ result => list.calls ++ result.calls
  | .choose condition first second => condition.calls ++ first.calls ++ second.calls

def callsOfArguments : List Expr → List String
  | [] => []
  | argument :: rest => argument.calls ++ callsOfArguments rest

end

end Expr

def Statement.calls : Statement → List String
  | .const _ value => value.calls
  | .answerIf condition value => condition.calls ++ value.calls
  | .answer value => value.calls

namespace Function

open Message

variable (entry : Entry) (defaultLocale : String)

/-- The functions that the body of an accessor calls. -/
def calls (function : Function) (defaultLocale : String) : List String :=
  (statements function.entry defaultLocale).flatMap Statement.calls

variable {entry} {defaultLocale} {function : Function} {name : String}

end Function

namespace GroupModule

variable {groupModule : GroupModule} {defaultLocale : String}

end GroupModule

end Phrasebook.Script
