import Phrasebook.Identifier
import Phrasebook.Message.Catalog
import Phrasebook.Script.Comment
import Phrasebook.Script.Expr
import Phrasebook.Script.ValueType

/-! # Accessor functions

One function is generated for each message. Its body holds the values of all locales, picks one by the
active locale with the default locale as fallback, and, where the message has placeholders, substitutes
parameters in a string or in the strings of a list. Four bodies are told apart: without parameters, for a
single value, for a list in every locale, and for a list in some locales only.
-/

namespace Phrasebook.Script

open Message

def renderParamsType (name : String) (params : List String) : String :=
  layOut "" (["export interface " ++ name ++ " \x7b"] ++
    params.map (fun param => "  " ++ propertyKey param ++ ": string | number;") ++ ["\x7d"])

inductive Statement where
  | const (name : String) (value : Expr)
  | answerIf (condition value : Expr)
  | answer (value : Expr)
deriving Repr

def Statement.render : Statement → String
  | .const name value => "const " ++ name ++ " = " ++ value.render ++ ";"
  | .answerIf condition value => "if (" ++ condition.render ++ ") return " ++ value.render ++ ";"
  | .answer value => "return " ++ value.render ++ ";"

structure Function where
  path : String
  entry : Entry
  identifier : String
  paramsType : Option String
deriving Repr

namespace Function

def ofEntry (path : String) (entry : Entry) (group : String) : Function :=
  let identifier := Identifier.ofPath path group
  { path, entry, identifier
    paramsType := if entry.params.isEmpty then none else some (Identifier.paramsType identifier) }

def usesInterpolate (function : Function) : Bool := function.paramsType.isSome

def usesHasPlaceholder (function : Function) : Bool :=
  function.paramsType.isSome && function.entry.isArrayRoot

/-- The value that a call resolves to. The fallback is stated to be present where the default locale has a
value. -/
def resolved (entry : Entry) (defaultLocale : String) : Expr :=
  let active := .orElse (.orElse (.name "lang") (.call "resolveLocale" [])) (.name "defaultLocale")
  let fallback := .lookup (.name "values") (.name "defaultLocale")
  .orElse (.lookup (.name "values") active)
    (if entry.values.has defaultLocale then .present fallback else fallback)

def isText (value : Expr) : Expr := .equal (.typeOf value) (.string "string")

def noParams : Expr := .equal (.name "params") (.name "undefined")

def filled (variableName : String) (names : Expr) : Expr :=
  .call "interpolate" [.name variableName, names, .name "params"]

/-- The statements that substitute in a single value. -/
def fillSingle (names : Expr) : List Statement :=
  [ .answerIf (.or noParams (.differ (.typeOf (.name "value")) (.string "string"))) (.name "value"),
    .answer (filled "value" names) ]

/-- The statements that leave with values in which no list is to be filled. -/
def leaveUnlisted (entry : Entry) (defaultLocale : String) (names : Expr) : List Statement :=
  if entry.values.all (fun (_, value) => value.isArray) && entry.values.has defaultLocale then
    [.answerIf noParams (.name "value")]
  else
    let strings :=
      if entry.values.any (fun (_, value) => value.isString) then
        [ .answerIf (.and (.differ (.name "params") (.name "undefined")) (isText (.name "value")))
            (filled "value" names) ]
      else []
    strings ++
      [.answerIf (.or noParams (.not (.call "Array.isArray" [.name "value"]))) (.name "value")]

/-- The statements that substitute in the strings of a list. -/
def fillList (names : Expr) : List Statement :=
  [ .const "names" names,
    .answerIf
      (.not (.anyItem (.name "value") "item"
        (.and (isText (.name "item")) (.call "hasPlaceholder" [.name "item", .name "names"]))))
      (.name "value"),
    .answer (.mapItems (.name "value") "item"
      (.choose (isText (.name "item")) (filled "item" (.name "names")) (.name "item"))) ]

/-- The statements after the table of values. -/
def statements (entry : Entry) (defaultLocale : String) : List Statement :=
  if entry.params.isEmpty then [.answer (resolved entry defaultLocale)]
  else
    let names := .strings entry.params
    .const "value" (resolved entry defaultLocale) ::
      if entry.isArrayRoot then leaveUnlisted entry defaultLocale names ++ fillList names
      else fillSingle names

def valueType (entry : Entry) : String :=
  ValueType.renderUnion (ValueType.ofValues (entry.values.map (·.2)))

def signature (function : Function) : String :=
  let params :=
    match function.paramsType with
    | some type => "params?: " ++ type ++ ", "
    | none => ""
  "lang?: Locale, " ++ params ++ "resolveLocale: LocaleResolver = getLocale"

def table (entry : Entry) : List String :=
  ["  const values: Partial<Record<Locale, " ++ valueType entry ++ ">> = \x7b"] ++
    entry.values.map (fun (locale, value) => "    " ++ Text.quote locale ++ ": " ++ value.render ++ ",") ++
    ["  \x7d;"]

/-- Text of the function, with the interface of its parameters before it. -/
def render (function : Function) (defaultLocale : String) : String :=
  let entry := function.entry
  let interface :=
    match function.paramsType with
    | some type => renderParamsType type entry.params ++ "\n"
    | none => ""
  let returns :=
    if entry.values.has defaultLocale then valueType entry else valueType entry ++ " | undefined"
  let heading :=
    "export function " ++ function.identifier ++ "(" ++ function.signature ++ "): " ++ returns ++ " \x7b"
  interface ++ Comment.render 0 (some function.path) entry.values ++
    layOut "" (
      [heading] ++
      table entry ++
      (statements entry defaultLocale).map (fun statement => "  " ++ statement.render) ++
      ["\x7d"])

end Function

end Phrasebook.Script
