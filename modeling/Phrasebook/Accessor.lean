import Phrasebook.Message.Catalog

/-! # Meaning of an accessor

A call of an accessor picks the value of the active locale, falls back to the default locale, and puts
parameter values in place of placeholders: in a string, or in the strings that stand directly in a list. The
active locale is the one given in the call, else the ambient one, else the default.
-/

namespace Phrasebook

open Message

structure Accessor where
  entry : Entry
  defaultLocale : String

namespace Accessor

def activeLocale (accessor : Accessor) (lang ambient : Option String) : String :=
  (lang <|> ambient).getD accessor.defaultLocale

/-- The value of the active locale, or else of the default one. -/
def resolve (accessor : Accessor) (lang ambient : Option String) : Option Json :=
  accessor.entry.value? (accessor.activeLocale lang ambient) <|>
    accessor.entry.value? accessor.defaultLocale

def fillString (declared : List String) (params : Keyed String) (value : Json) : Json :=
  match value with
  | .string text => .string (Template.fill text declared params)
  | other => other

/-- Whether a value is a string with a declared placeholder. -/
def needsFilling (declared : List String) (value : Json) : Bool :=
  match value with
  | .string text => Template.mentions text declared
  | _ => false

/-- Substitutes in a value: in a string, and in the strings of the list of an array root if any of them
needs it. -/
def fillValue (entry : Entry) (params : Keyed String) (value : Json) : Json :=
  match value with
  | .string text => .string (Template.fill text entry.params params)
  | .array items =>
    if entry.isArrayRoot && items.any (needsFilling entry.params) then
      .array (items.map (fillString entry.params params))
    else .array items
  | other => other

/-- The result of a call. Without parameters, or when the message declares none, the resolved value is
returned as it is. -/
def call (accessor : Accessor) (lang : Option String) (params : Option (Keyed String))
    (ambient : Option String) : Option Json := do
  let value ← accessor.resolve lang ambient
  match params with
  | none => return value
  | some params =>
    if accessor.entry.params.isEmpty then return value
    else return fillValue accessor.entry params value

end Accessor

end Phrasebook
