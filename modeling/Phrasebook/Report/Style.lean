/-! # Styled text

On a terminal that shows styles, a text stands between an opening sequence with the codes of its style and a
reset. A reset inside the text is followed by the opening again, so that the style lasts to the end.
-/

namespace Phrasebook.Report

inductive Style where
  | bold
  | dimmed
  | red
  | green
  | boldRed
  | boldYellow
deriving Repr, DecidableEq

def Style.codes : Style → String
  | .bold => "1"
  | .dimmed => "2"
  | .red => "31"
  | .green => "32"
  | .boldRed => "1;31"
  | .boldYellow => "1;33"

def reset : List Char := ['\x1b', '[', '0', 'm']

/-- Puts an opening after every reset. -/
def reopen (opening : List Char) : List Char → List Char
  | '\x1b' :: '[' :: '0' :: 'm' :: rest => reset ++ opening ++ reopen opening rest
  | c :: rest => c :: reopen opening rest
  | [] => []

def paint (styled : Bool) (style : Style) (text : String) : String :=
  if styled then
    let opening := '\x1b' :: '[' :: (style.codes.toList ++ ['m'])
    String.ofList (opening ++ reopen opening text.toList ++ reset)
  else text

end Phrasebook.Report
