import Phrasebook.Script.Function
import Phrasebook.Proofs.Script.SharedFunctions

/-! # Running accessor bodies

The meaning of the script fragment in which accessor bodies are written. An object answers to the keys that
were written and, beyond them, to the names of the properties that every object inherits. An expression
without a value, because the language raises an error there or because it lies outside the fragment, makes
the whole run have none.
-/

namespace Phrasebook.Script

inductive Value where
  | undefined
  | data (value : Json)
  | params (values : Keyed String)
  /-- A property that every object has, by its name. -/
  | inherited (name : String)
deriving Repr

namespace Value

def ofOption : Option Json → Value
  | none => .undefined
  | some value => .data value

def ofText (text : Option String) : Value := ofOption (text.map Json.string)

def ofParams : Option (Keyed String) → Value
  | none => .undefined
  | some values => .params values

def isNullish : Value → Bool
  | .undefined => true
  | .data .null => true
  | _ => false

/-- The answer of `typeof`. All inherited properties but the prototype are functions. -/
def typeName : Value → String
  | .undefined => "undefined"
  | .data (.bool _) => "boolean"
  | .data (.number _) => "number"
  | .data (.string _) => "string"
  | .data _ => "object"
  | .params _ => "object"
  | .inherited name => if name = "__proto__" then "object" else "function"

def isArray : Value → Bool
  | .data value => value.isArray
  | _ => false

/-- Whether two values are the same; bodies compare with what is missing, and texts with each other. -/
def same? : Value → Value → Option Bool
  | .undefined, .undefined => some true
  | .undefined, _ => some false
  | _, .undefined => some false
  | .data (.string a), .data (.string b) => some (decide (a = b))
  | _, _ => none

def ofBool (b : Bool) : Value := .data (.bool b)

def truth? : Value → Option Bool
  | .data (.bool b) => some b
  | _ => none

def items? : Value → Option (List Json)
  | .data value => value.items?
  | _ => none

def datum? : Value → Option Json
  | .data value => some value
  | _ => none

end Value

structure Scope where
  bound : Keyed Value
  /-- The names of the properties that every object inherits. -/
  inherits : String → Bool
  ambient : Option String

namespace Scope

def bind (scope : Scope) (name : String) (value : Value) : Scope :=
  { scope with bound := (name, value) :: scope.bound }

def property (scope : Scope) (members : Keyed Json) (key : String) : Value :=
  match members.get? key with
  | some value => .data value
  | none => if scope.inherits key then .inherited key else .undefined

def member? (scope : Scope) : Value → Value → Option Value
  | .data (.object members), .data (.string key) => some (scope.property members key)
  | _, _ => none

def call? (scope : Scope) : String → List Value → Option Value
  | "resolveLocale", [] => some (.ofText scope.ambient)
  | "Array.isArray", [value] => some (.ofBool value.isArray)
  | "interpolate", [.data (.string text), .data (.array names), .undefined] => do
    let names ← names.mapM Json.text?
    return .data (.string (interpolate text names none))
  | "interpolate", [.data (.string text), .data (.array names), .params values] => do
    let names ← names.mapM Json.text?
    return .data (.string (interpolate text names (some values)))
  | "hasPlaceholder", [.data (.string text), .data (.array names)] => do
    let names ← names.mapM Json.text?
    return .ofBool (hasPlaceholder text names)
  | _, _ => none

end Scope

mutual

def Expr.eval? (expr : Expr) (scope : Scope) : Option Value :=
  match expr with
  | .name text => scope.bound.get? text
  | .string text => some (.data (.string text))
  | .strings texts => some (.data (.array (texts.map Json.string)))
  | .lookup table key => do scope.member? (← table.eval? scope) (← key.eval? scope)
  | .present value => value.eval? scope
  | .orElse first second => do
    let value ← first.eval? scope
    if value.isNullish then second.eval? scope else return value
  | .equal left right => do
    return .ofBool (← (← left.eval? scope).same? (← right.eval? scope))
  | .differ left right => do
    return .ofBool (!(← (← left.eval? scope).same? (← right.eval? scope)))
  | .typeOf value => do return .data (.string (← value.eval? scope).typeName)
  | .not value => do return .ofBool (!(← (← value.eval? scope).truth?))
  | .and left right => do
    if ← (← left.eval? scope).truth? then right.eval? scope else return .ofBool false
  | .or left right => do
    if ← (← left.eval? scope).truth? then return .ofBool true else right.eval? scope
  | .call function arguments => do scope.call? function (← Expr.evalAll? arguments scope)
  | .anyItem list item test => do
    let items ← (← list.eval? scope).items?
    return .ofBool (← items.anyM fun value => do (← test.eval? (scope.bind item (.data value))).truth?)
  | .mapItems list item result => do
    let items ← (← list.eval? scope).items?
    return .data (.array
      (← items.mapM fun value => do (← result.eval? (scope.bind item (.data value))).datum?))
  | .choose condition first second => do
    if ← (← condition.eval? scope).truth? then first.eval? scope else second.eval? scope

def Expr.evalAll? (exprs : List Expr) (scope : Scope) : Option (List Value) :=
  match exprs with
  | [] => some []
  | expr :: rest => do return (← expr.eval? scope) :: (← Expr.evalAll? rest scope)

end

mutual

/-- Whether the literal of a value stands for that value. A member `__proto__` of an object literal sets the
prototype instead. -/
def isFaithful : Json → Bool
  | .array items => areFaithful items
  | .object members => membersFaithful members
  | _ => true

def areFaithful : List Json → Bool
  | [] => true
  | value :: rest => isFaithful value && areFaithful rest

def membersFaithful : List (String × Json) → Bool
  | [] => true
  | (name, value) :: rest => decide (name ≠ "__proto__") && isFaithful value && membersFaithful rest

end

def runStatements? (scope : Scope) : List Statement → Option Value
  | [] => some .undefined
  | .const name value :: rest => do runStatements? (scope.bind name (← value.eval? scope)) rest
  | .answerIf condition value :: rest => do
    if ← (← condition.eval? scope).truth? then value.eval? scope else runStatements? scope rest
  | .answer value :: _ => value.eval? scope

namespace Function

/-- What the body of a function can refer to: the names of the language and of the shared module, the
arguments of the call, and the table of values. A function without an interface for parameters takes none. -/
def scope (function : Function) (defaultLocale : String) (inherits : String → Bool)
    (lang ambient : Option String) (params : Option (Keyed String)) : Scope :=
  { bound :=
      [ ("undefined", .undefined),
        ("defaultLocale", .data (.string defaultLocale)),
        ("lang", .ofText lang),
        ("values", .data (.object function.entry.values)) ] ++
        if function.paramsType.isSome then [("params", .ofParams params)] else []
    inherits
    ambient }

def call? (function : Function) (defaultLocale : String) (inherits : String → Bool)
    (lang : Option String) (params : Option (Keyed String)) (ambient : Option String) :
    Option Value :=
  if isFaithful (.object function.entry.values) then
    runStatements? (function.scope defaultLocale inherits lang ambient params)
      (statements function.entry defaultLocale)
  else none

end Function

end Phrasebook.Script
