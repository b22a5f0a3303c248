/-! # Options and arguments

The words after a command's name are options, their values, and arguments. An option is written in full after
two hyphens or, by its letter, after one, where letters may be grouped; its value stands in the same word,
after an equals sign or right after the letter, or is the next word, which then must not look like an option.
After two hyphens alone all words are arguments.

Words are read from left to right, and reading stops at the first fault or call for help.
-/

namespace Phrasebook.CommandLine

/-- How often an option may be given, and whether it has a value. -/
inductive Shape where
  /-- At most once, without a value. -/
  | flag
  /-- At most once, with a value. -/
  | single
  /-- Any number of times, with a value each. -/
  | repeated
deriving Repr, DecidableEq

structure Switch where
  name : String
  letter : Option Char
  shape : Shape
  accepts : String → Bool := fun _ => true

structure Grammar where
  switches : List Switch
  capacity : Nat

structure Given where
  /-- Values by the name of their option, in order. -/
  options : List (String × String)
  arguments : List String
deriving Repr, DecidableEq

/-- Why reading stopped. -/
inductive Stop where
  | help
  | version
  | fault
deriving Repr, DecidableEq

namespace Given

def nothing : Given := ⟨[], []⟩

def has (given : Given) (name : String) : Bool := (given.options.lookup name).isSome

def value? (given : Given) (name : String) : Option String := given.options.lookup name

def values (given : Given) (name : String) : List String :=
  (given.options.filter fun (option, _) => option = name).map fun (_, value) => value

def addOption (given : Given) (switch : Switch) (value : String) : Except Stop Given :=
  if switch.shape ≠ .repeated && given.has switch.name then .error .fault
  else if switch.accepts value then
    .ok { given with options := given.options ++ [(switch.name, value)] }
  else .error .fault

end Given

namespace Grammar

def addArgument (grammar : Grammar) (given : Given) (argument : String) : Except Stop Given :=
  if given.arguments.length < grammar.capacity then
    .ok { given with arguments := given.arguments ++ [argument] }
  else .error .fault

/-- Reads the letters of a word after its hyphen. A last option may wait for its value. -/
def readLetters (grammar : Grammar) (given : Given) : List Char → Except Stop (Given × Option Switch)
  | [] => .ok (given, none)
  | c :: rest =>
    if c = 'h' then .error .help
    else
      match grammar.switches.find? fun switch => switch.letter = some c with
      | none => .error .fault
      | some switch =>
        match switch.shape, rest with
        | .flag, rest => do readLetters grammar (← given.addOption switch "") rest
        | _, [] => .ok (given, some switch)
        | _, '=' :: value => do return (← given.addOption switch (String.ofList value), none)
        | _, value => do return (← given.addOption switch (String.ofList value), none)

/-- Reads a word after its two hyphens, cut at its first equals sign. -/
def readName (grammar : Grammar) (given : Given) (name : String) (value : Option String) :
    Except Stop (Given × Option Switch) :=
  if name = "help" then .error (if value.isNone then .help else .fault)
  else
    match grammar.switches.find? fun switch => switch.name = name with
    | none => .error .fault
    | some switch =>
      match switch.shape, value with
      | .flag, none => do return (← given.addOption switch "", none)
      | .flag, some _ => .error .fault
      | _, none => .ok (given, some switch)
      | _, some value => do return (← given.addOption switch value, none)

inductive Word where
  /-- Two hyphens alone. -/
  | divider
  | named (name : String) (value : Option String)
  | lettered (letters : List Char)
  | plain

/-- The parts of a text before and after its first equals sign. -/
def cutAtEquals (text : List Char) : String × Option String :=
  match text.span (· ≠ '=') with
  | (name, _ :: value) => (String.ofList name, some (String.ofList value))
  | (name, []) => (String.ofList name, none)

/-- Looks at the front of a word. -/
def Word.ofText (text : String) : Word :=
  match text.toList with
  | ['-', '-'] => .divider
  | '-' :: '-' :: rest => .named (cutAtEquals rest).1 (cutAtEquals rest).2
  | '-' :: c :: rest => .lettered (c :: rest)
  | _ => .plain

/-- Reads words, the first of which may be the value of an option that waits for it. -/
def readWords (grammar : Grammar) (given : Given) (waiting : Option Switch) :
    List String → Except Stop Given
  | [] => if waiting.isSome then .error .fault else .ok given
  | word :: rest =>
    match waiting, Word.ofText word with
    | some switch, .plain => do readWords grammar (← given.addOption switch word) none rest
    | some _, _ => .error .fault
    | none, .divider => rest.foldlM grammar.addArgument given
    | none, .plain => do readWords grammar (← grammar.addArgument given word) none rest
    | none, .named name value => do
      let (given, waiting) ← grammar.readName given name value
      readWords grammar given waiting rest
    | none, .lettered letters => do
      let (given, waiting) ← grammar.readLetters given letters
      readWords grammar given waiting rest

def read (grammar : Grammar) (words : List String) : Except Stop Given :=
  grammar.readWords .nothing none words

end Grammar

end Phrasebook.CommandLine
