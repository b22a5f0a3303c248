import Phrasebook.Script.Comment

/-! # The shared module

One generated module is shared by all groups. It holds the list of locales, the ambient locale, and the two
placeholder functions that accessor bodies call.
-/

namespace Phrasebook.Script

/-- The first line of the generated modules that belong to no group. -/
def generatedHeader : String := "// Generated by glider. Do not edit."

def runtimeFile : String := "_runtime.ts"

def runtimeExports : List String :=
  ["Locale", "LocaleResolver", "locales", "defaultLocale", "setLocale", "getLocale", "interpolate",
    "hasPlaceholder"]

/-- The part of the shared module that does not depend on the locales. -/
def runtimeBody : List String :=
  [
    "/** Supplies the locale used when an accessor is called without `lang`. */",
    "export type LocaleResolver = () => Locale | undefined;",
    "",
    "let currentLocale: Locale | undefined;",
    "",
    "export function setLocale(locale: Locale | undefined): void \x7b",
    "  currentLocale = locale;",
    "\x7d",
    "",
    "export function getLocale(): Locale | undefined \x7b",
    "  return currentLocale;",
    "\x7d",
    "",
    "function paramValue(params: object, name: string): unknown \x7b",
    "  return (params as Record<string, unknown>)[name];",
    "\x7d",
    "",
    "const PLACEHOLDER = /\\\x7b([\\p\x7bAlphabetic\x7d\\p\x7bM\x7d\\p\x7bNd\x7d\\p\x7bPc\x7d\\p\x7bJoin_Control\x7d]+)\\\x7d/gu;",
    "",
    "/** Replaces every `\x7bname\x7d` of each declared name that has a defined value, in one pass. */",
    "export function interpolate(template: string, names: readonly string[], params: object | undefined): string \x7b",
    "  if (params === undefined) return template;",
    "  return template.replace(PLACEHOLDER, (token: string, name: string) => \x7b",
    "    if (!names.includes(name)) return token;",
    "    const value = paramValue(params, name);",
    "    return value === undefined ? token : String(value);",
    "  \x7d);",
    "\x7d",
    "",
    "/** True when `text` contains `\x7bname\x7d` for one of `names`. */",
    "export function hasPlaceholder(text: string, names: readonly string[]): boolean \x7b",
    "  return names.some((name) => text.includes(`\x7b$\x7bname\x7d\x7d`));",
    "\x7d"
  ]

def renderRuntime (locales : List String) (defaultLocale : String) : String :=
  layOut "" ([
    generatedHeader,
    "",
    "export const locales = [" ++ ", ".intercalate (locales.map Text.quote) ++ "] as const;",
    "",
    "export type Locale = (typeof locales)[number];",
    "",
    "export const defaultLocale: Locale = " ++ Text.quote defaultLocale ++ ";",
    ""] ++ runtimeBody)

end Phrasebook.Script
