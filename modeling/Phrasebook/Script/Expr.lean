import Phrasebook.Text.Quoted

/-! # Expressions of accessor bodies

The fragment of the script language in which accessor bodies are written. Operators bind as in the
language: a conditional loosest, then `??` and `||`, then `&&`, equality, the unary operators, and tightest
calls and member access; parentheses are written where an operand binds looser than its place allows.
-/

namespace Phrasebook.Script

inductive Expr where
  | name (text : String)
  | string (text : String)
  | strings (texts : List String)
  /-- The value of a key of an object: `table[key]`. -/
  | lookup (table key : Expr)
  /-- The operand, stated to be present: `value!`. -/
  | present (value : Expr)
  /-- The first operand if it is present, else the second: `??`. -/
  | orElse (first second : Expr)
  | equal (left right : Expr)
  | differ (left right : Expr)
  | typeOf (value : Expr)
  | not (value : Expr)
  | and (left right : Expr)
  | or (left right : Expr)
  | call (function : String) (arguments : List Expr)
  | anyItem (list : Expr) (item : String) (test : Expr)
  | mapItems (list : Expr) (item : String) (result : Expr)
  | choose (condition first second : Expr)
deriving Repr

namespace Expr

/-- How tightly the outermost operator binds. -/
def level : Expr → Nat
  | .choose .. => 0
  | .orElse .. => 1
  | .or .. => 1
  | .and .. => 2
  | .equal .. => 3
  | .differ .. => 3
  | .typeOf _ => 4
  | .not _ => 4
  | _ => 5

def parenthesize (needed : Bool) (text : String) : String :=
  if needed then "(" ++ text ++ ")" else text

mutual

/-- Text of an expression at a place that needs at least the given tightness. -/
def renderAt (least : Nat) (expr : Expr) : String :=
  parenthesize (expr.level < least) <|
    match expr with
    | .name text => text
    | .string text => Text.quote text
    | .strings texts => "[" ++ ", ".intercalate (texts.map Text.quote) ++ "]"
    | .lookup table key => renderAt 5 table ++ "[" ++ renderAt 0 key ++ "]"
    | .present value => renderAt 5 value ++ "!"
    | .orElse first second => renderAt 1 first ++ " ?? " ++ renderAt 2 second
    | .equal left right => renderAt 4 left ++ " === " ++ renderAt 4 right
    | .differ left right => renderAt 4 left ++ " !== " ++ renderAt 4 right
    | .typeOf value => "typeof " ++ renderAt 4 value
    | .not value => "!" ++ renderAt 4 value
    | .and left right => renderAt 2 left ++ " && " ++ renderAt 3 right
    | .or left right => renderAt 1 left ++ " || " ++ renderAt 2 right
    | .call function arguments => function ++ "(" ++ ", ".intercalate (renderArguments arguments) ++ ")"
    | .anyItem list item test =>
      renderAt 5 list ++ ".some((" ++ item ++ ") => " ++ renderAt 1 test ++ ")"
    | .mapItems list item result =>
      renderAt 5 list ++ ".map((" ++ item ++ ") => " ++ renderAt 1 result ++ ")"
    | .choose condition first second =>
      renderAt 1 condition ++ " ? " ++ renderAt 1 first ++ " : " ++ renderAt 1 second

def renderArguments : List Expr → List String
  | [] => []
  | argument :: rest => renderAt 0 argument :: renderArguments rest

end

def render (expr : Expr) : String := renderAt 0 expr

end Expr

end Phrasebook.Script
