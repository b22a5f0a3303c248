import Phrasebook.CommandLine.Grammar
import Phrasebook.Keyed
import Phrasebook.Text.Cutting

/-! # Commands

The commands of the program with what each can be given. Help can be asked for everywhere, also by a command
of its own; the version only in place of a command.
-/

namespace Phrasebook.CommandLine

structure CompileRequest where
  input : Option String
  verbose : Bool
  output : Option String
  locales : Option (List String)
  noValidate : Bool
  noNamespaces : Bool
deriving Repr, DecidableEq

structure LookupRequest where
  path : String
  group : String
  /-- The locale given to the accessor. -/
  lang : Option String
  /-- The ambient locale. -/
  currentLocale : Option String
  /-- Values of parameters, a later one in place of an earlier one of the same name. -/
  params : List (String × String)
deriving Repr, DecidableEq

inductive Command where
  | compile (request : CompileRequest)
  | check (input : Option String) (verbose : Bool)
  | info
  | init (dir : String)
  | lookup (request : LookupRequest)
deriving Repr, DecidableEq

namespace Command

/-- A name and a value on the two sides of the first equals sign. -/
def param? (text : String) : Option (String × String) :=
  match Grammar.cutAtEquals text.toList with
  | (name, some value) => if name.isEmpty then none else some (name, value)
  | (_, none) => none

def isPath (text : String) : Bool := !text.isEmpty

def inputSwitch : Switch := { name := "input", letter := some 'i', shape := .single, accepts := isPath }

def verboseSwitch : Switch := { name := "verbose", letter := some 'v', shape := .flag }

def compileGrammar : Grammar :=
  { switches := [
      inputSwitch,
      verboseSwitch,
      { name := "output", letter := some 'o', shape := .single, accepts := isPath },
      { name := "locales", letter := some 'l', shape := .repeated },
      { name := "no-validate", letter := none, shape := .flag },
      { name := "no-namespaces", letter := none, shape := .flag }]
    capacity := 0 }

def checkGrammar : Grammar := { switches := [inputSwitch, verboseSwitch], capacity := 0 }

def infoGrammar : Grammar := { switches := [], capacity := 0 }

def initGrammar : Grammar :=
  { switches := [{ name := "dir", letter := some 'd', shape := .single, accepts := isPath }]
    capacity := 0 }

def lookupGrammar : Grammar :=
  { switches := [
      { name := "group", letter := some 'g', shape := .single },
      { name := "lang", letter := none, shape := .single },
      { name := "current-locale", letter := none, shape := .single },
      { name := "param", letter := some 'p', shape := .repeated
        accepts := fun text => (param? text).isSome }]
    capacity := 1 }

def readCompile (words : List String) : Except Stop Command := do
  let given ← compileGrammar.read words
  return .compile {
    input := given.value? "input"
    verbose := given.has "verbose"
    output := given.value? "output"
    locales :=
      if given.has "locales" then some ((given.values "locales").flatMap (Text.parts ','))
      else none
    noValidate := given.has "no-validate"
    noNamespaces := given.has "no-namespaces" }

def readCheck (words : List String) : Except Stop Command := do
  let given ← checkGrammar.read words
  return .check (given.value? "input") (given.has "verbose")

def readInfo (words : List String) : Except Stop Command := do
  let _ ← infoGrammar.read words
  return .info

def readInit (words : List String) : Except Stop Command := do
  let given ← initGrammar.read words
  return .init ((given.value? "dir").getD ".")

/-- The lookup command, given the words after its name. The ambient locale of the environment counts where
none is given. -/
def readLookup (environmentLocale : Option String) (words : List String) : Except Stop Command := do
  let given ← lookupGrammar.read words
  match given.arguments with
  | [] => .error .fault
  | path :: _ =>
    return .lookup {
      path
      group := (given.value? "group").getD ""
      lang := given.value? "lang"
      currentLocale := given.value? "current-locale" <|> environmentLocale
      params := (given.values "param").filterMap param? }

def readers (environmentLocale : Option String) : Keyed (List String → Except Stop Command) :=
  [ ("compile", readCompile),
    ("check", readCheck),
    ("info", readInfo),
    ("init", readInit),
    ("lookup", readLookup environmentLocale) ]

/-- Reads the words after the help command: nothing, or the name of a command. -/
def readHelp : List String → Stop
  | [] => .help
  | [name] => if name = "help" || (readers none).has name then .help else .fault
  | _ => .fault

/-- Reads a word that stands in place of a command and names none. -/
def readOther (word : String) (rest : List String) : Except Stop (Option Command) :=
  match Grammar.Word.ofText word with
  | .divider => if rest.isEmpty then .ok none else .error .fault
  | .named "help" none => .error .help
  | .named "version" none => .error .version
  | .lettered ('h' :: _) => .error .help
  | .lettered ('V' :: _) => .error .version
  | _ => .error .fault

/-- The command that the words after the program's name ask for, if any. -/
def read (environmentLocale : Option String) : List String → Except Stop (Option Command)
  | [] => .ok none
  | word :: rest =>
    if word = "help" then .error (readHelp rest)
    else
      match (readers environmentLocale).get? word with
      | some reader => (reader rest).map some
      | none => readOther word rest

end Command

end Phrasebook.CommandLine
