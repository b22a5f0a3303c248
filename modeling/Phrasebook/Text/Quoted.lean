/-! # Quoted strings

The double-quoted form of a text that data documents and generated scripts share: the quote, the backslash
and the control characters below U+0020 are escaped, five of those by a letter and the others by their code
in four lower-case hexadecimal digits; every other character stands for itself.
-/

namespace Phrasebook.Text

def hexDigit (n : Nat) : Char :=
  Char.ofNat (if n < 10 then 48 + n else 87 + n)

/-- How one character is written inside quotes. -/
def escapeChar (c : Char) : List Char :=
  match c with
  | '"' => ['\\', '"']
  | '\\' => ['\\', '\\']
  | '\x08' => ['\\', 'b']
  | '\x09' => ['\\', 't']
  | '\x0a' => ['\\', 'n']
  | '\x0c' => ['\\', 'f']
  | '\x0d' => ['\\', 'r']
  | _ =>
    if c.toNat < 32 then ['\\', 'u', '0', '0', hexDigit (c.toNat / 16), hexDigit (c.toNat % 16)]
    else [c]

def quoted (text : List Char) : List Char :=
  '"' :: (text.flatMap escapeChar ++ ['"'])

def quote (text : String) : String :=
  String.ofList (quoted text.toList)

end Phrasebook.Text
