import Phrasebook.Text.Cutting
import Phrasebook.Text.DecimalDigit
import Phrasebook.Text.Quoted
import Phrasebook.Text.Uppercase

/-! # Names in generated modules

Every message has an accessor whose name is its displayed path with points and index brackets folded into
underscores, after the folded path of its group. Two paths may fold to one name; the registry of names finds
that out. A key of an object literal or an interface is written bare when it has the form of a name, and quoted
otherwise; reserved words may stand bare as keys.
-/

namespace Phrasebook.Identifier

/-- Words that cannot name an exported function or constant of a module. -/
def reservedWords : List String :=
  [
    "arguments", "await", "break", "case", "catch", "class", "const", "continue", "debugger",
    "default", "delete", "do", "else", "enum", "eval", "export", "extends", "false", "finally",
    "for", "function", "if", "implements", "import", "in", "instanceof", "interface", "let", "new",
    "null", "package", "private", "protected", "public", "return", "static", "super", "switch",
    "this", "throw", "true", "try", "typeof", "var", "void", "while", "with", "yield"
  ]

/-- Globals that accessors refer to; an export with one of these names would hide it. -/
def shadowedGlobals : List String := ["Array", "undefined", "NaN", "Infinity"]

def isStart (c : Char) : Bool := c.isAlpha || c = '_' || c = '$'

def isPart (c : Char) : Bool := c.isAlphanum || c = '_' || c = '$'

def isName (text : String) : Bool :=
  match text.toList with
  | [] => false
  | c :: cs => isStart c && cs.all isPart

/-- Whether a text can name an export. -/
def isValid (text : String) : Bool :=
  isName text && !reservedWords.contains text && !shadowedGlobals.contains text

/-- Writes each index in brackets as an underscore and its digits. -/
def foldIndices : List Char → List Char
  | [] => []
  | c :: cs =>
    match _h : if c = '[' then Text.enclosed? Text.isDecimalDigit ']' cs else none with
    | some (digits, rest) => '_' :: (digits ++ foldIndices rest)
    | none => c :: foldIndices cs
termination_by cs => cs.length
decreasing_by
  · split at _h
    · have := Text.enclosed?_length _h
      simp only [List.length_cons]
      omega
    · cases _h
  · simp

def foldPoints (cs : List Char) : List Char :=
  cs.map fun c => if c = '.' then '_' else c

def isSeparator (c : Char) : Bool := c = '/' || c = '\\' || c = '-' || c = '.'

/-- The path of a group with its separators folded into underscores. -/
def stem (group : String) : String :=
  String.ofList (group.toList.map fun c => if isSeparator c then '_' else c)

/-- A name within a group: after the group's stem and an underscore, unless the stem is empty. -/
def qualify (group name : String) : String :=
  if (stem group).isEmpty then name else stem group ++ "_" ++ name

/-- The name of the accessor of a displayed path. -/
def ofPath (path group : String) : String :=
  qualify group (String.ofList (foldPoints (foldIndices path.toList)))

/-- The name of the interface of an accessor's parameters: the accessor's name with its first letter in
upper case. -/
def paramsType (identifier : String) : String :=
  match identifier.toList with
  | [] => "Params"
  | c :: cs => String.ofList (Text.upperCase c ++ cs) ++ "Params"

def namespaceConst (group : String) : String := qualify group "messages"

end Phrasebook.Identifier

namespace Phrasebook.Script

def propertyKey (key : String) : String :=
  if Identifier.isName key then key else Text.quote key

end Phrasebook.Script
