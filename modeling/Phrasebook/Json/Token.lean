import Phrasebook.Json.Numeral

/-! # Tokens of a document

The lexical level of documents: blanks are space, tab, line feed and carriage return; strings hold no raw
control character. A token keeps apart what the grammar allows and what has no value: a string with an
unpaired surrogate and a number that is too large are well formed, and denote nothing.
-/

namespace Phrasebook.Json

/-- A token; a string or number without value carries `none`. -/
inductive Token where
  | openBrace
  | closeBrace
  | openBracket
  | closeBracket
  | colon
  | comma
  | null
  | bool (value : Bool)
  | number (value : Option Number)
  | string (text : Option String)

namespace Token

def hexValue? (c : Char) : Option Nat :=
  let n := c.toNat
  if 48 ≤ n && n ≤ 57 then some (n - 48)
  else if 97 ≤ n && n ≤ 102 then some (n - 87)
  else if 65 ≤ n && n ≤ 70 then some (n - 55)
  else none

/-- The number that four hexadecimal digits denote. -/
def hexCode? (a b c d : Char) : Option Nat := do
  let a ← hexValue? a
  let b ← hexValue? b
  let c ← hexValue? c
  let d ← hexValue? d
  return ((a * 16 + b) * 16 + c) * 16 + d

/-- The character that a letter after a backslash stands for. -/
def escaped? (c : Char) : Option Char :=
  match c with
  | '"' => some '"'
  | '\\' => some '\\'
  | '/' => some '/'
  | 'b' => some '\x08'
  | 'f' => some '\x0c'
  | 'n' => some '\x0a'
  | 'r' => some '\x0d'
  | 't' => some '\x09'
  | _ => none

/-- An item between quotes: a character, or a 16-bit code given by its hexadecimal digits. -/
inductive Item where
  | char (c : Char)
  | code (n : Nat)

/-- Reads the items up to the closing quote, and what follows it. -/
def quotedItems? : List Char → Option (List Item × List Char)
  | [] => none
  | '"' :: rest => some ([], rest)
  | '\\' :: 'u' :: a :: b :: c :: d :: rest => do
    let n ← hexCode? a b c d
    let (items, rest) ← quotedItems? rest
    return (.code n :: items, rest)
  | '\\' :: letter :: rest => do
    let c ← escaped? letter
    let (items, rest) ← quotedItems? rest
    return (.char c :: items, rest)
  | c :: rest =>
    if c.toNat < 32 then none
    else do
      let (items, rest) ← quotedItems? rest
      return (.char c :: items, rest)

/-- The first code of a pair that denotes one character beyond 16 bits. -/
def isHighSurrogate (n : Nat) : Bool := 0xD800 ≤ n && n < 0xDC00

def isLowSurrogate (n : Nat) : Bool := 0xDC00 ≤ n && n < 0xE000

/-- The characters that items denote; `none` if a surrogate has no partner. -/
def characters? : List Item → Option (List Char)
  | [] => some []
  | .char c :: rest => (characters? rest).map (c :: ·)
  | .code high :: .code low :: rest =>
    if isHighSurrogate high then
      if isLowSurrogate low then
        (characters? rest).map (Char.ofNat (0x10000 + (high - 0xD800) * 0x400 + (low - 0xDC00)) :: ·)
      else none
    else if isLowSurrogate high then none
    else (characters? (.code low :: rest)).map (Char.ofNat high :: ·)
  | .code n :: rest =>
    if isHighSurrogate n || isLowSurrogate n then none
    else (characters? rest).map (Char.ofNat n :: ·)

def digits (cs : List Char) : List Nat × List Char :=
  ((cs.takeWhile Char.isDigit).map fun c => c.toNat - 48, cs.dropWhile Char.isDigit)

def fraction? (cs : List Char) : Option (Option (List Nat) × List Char) :=
  match cs with
  | '.' :: rest =>
    match digits rest with
    | ([], _) => none
    | (ds, rest) => some (some ds, rest)
  | _ => some (none, cs)

/-- Reads the power of ten after its mark; it has at least one digit. -/
def powerAfterMark? (cs : List Char) : Option (Option PowerOfTen × List Char) :=
  let (negative, unsigned) :=
    match cs with
    | '+' :: rest => (false, rest)
    | '-' :: rest => (true, rest)
    | _ => (false, cs)
  match digits unsigned with
  | ([], _) => none
  | (ds, rest) => some (some ⟨negative, ds⟩, rest)

def power? (cs : List Char) : Option (Option PowerOfTen × List Char) :=
  match cs with
  | 'e' :: rest => powerAfterMark? rest
  | 'E' :: rest => powerAfterMark? rest
  | _ => some (none, cs)

/-- Reads a numeral after its sign. The integer part has no superfluous leading zero. -/
def numeral? (negative : Bool) (cs : List Char) : Option (Numeral × List Char) := do
  let (whole, rest) := digits cs
  if whole.isEmpty || (whole.head? = some 0 && 1 < whole.length) then none
  else
    let (fraction, rest) ← fraction? rest
    let (power, rest) ← power? rest
    return (⟨negative, whole, fraction, power⟩, rest)

def next? (cs : List Char) : Option (Token × List Char) :=
  match cs with
  | '\x7b' :: rest => some (.openBrace, rest)
  | '\x7d' :: rest => some (.closeBrace, rest)
  | '[' :: rest => some (.openBracket, rest)
  | ']' :: rest => some (.closeBracket, rest)
  | ':' :: rest => some (.colon, rest)
  | ',' :: rest => some (.comma, rest)
  | 'n' :: 'u' :: 'l' :: 'l' :: rest => some (.null, rest)
  | 't' :: 'r' :: 'u' :: 'e' :: rest => some (.bool true, rest)
  | 'f' :: 'a' :: 'l' :: 's' :: 'e' :: rest => some (.bool false, rest)
  | '"' :: rest => do
    let (items, rest) ← quotedItems? rest
    return (.string ((characters? items).map String.ofList), rest)
  | '-' :: rest => do
    let (n, rest) ← numeral? true rest
    return (.number n.value?, rest)
  | _ => do
    let (n, rest) ← numeral? false cs
    return (.number n.value?, rest)

def isBlank (c : Char) : Bool :=
  c = ' ' || c = '\x09' || c = '\x0a' || c = '\x0d'

/-- Reads tokens up to the end of the text; each takes at least one character of the allowance. -/
def scan? : Nat → List Char → Option (List Token)
  | 0, _ => none
  | allowance + 1, cs =>
    match cs.dropWhile isBlank with
    | [] => some []
    | start => do
      let (token, rest) ← next? start
      let tokens ← scan? allowance rest
      return token :: tokens

def ofText? (text : List Char) : Option (List Token) :=
  scan? (text.length + 1) text

end Token

end Phrasebook.Json
