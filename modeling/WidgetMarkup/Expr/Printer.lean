import WidgetMarkup.Expr
import WidgetMarkup.Double.Printer
import WidgetMarkup.Json.Quoted
import WidgetMarkup.Text.Charset

namespace WidgetMarkup

open Text

def Literal.chars : Literal → List Char
  | null => "null".toList
  | text v => Json.quoted v.toList
  | bool v => if v then "true".toList else "false".toList
  | number v => v.code.toList

namespace Expr

/-- What stands after a receiver: `.name`, or the name in brackets when it is no identifier. -/
def propChars (name : String) : List Char :=
  if isIdentifier name.toList then '.' :: name.toList
  else '[' :: Json.quoted name.toList ++ [']']

def keyChars (key : String) (quoted : Bool) : List Char :=
  if quoted || !isIdentifier key.toList then Json.quoted key.toList else key.toList

mutual

def chars : Expr → List Char
  | var name _ => name.toList
  | prop e name _ => e.chars ++ propChars name
  | call e args _ => e.chars ++ '(' :: [',', ' '].intercalate (listChars args) ++ [')']
  | literal v _ => v.chars
  | array items _ => '[' :: [','].intercalate (listChars items) ++ [']']
  | object entries _ => '\x7b' :: [',', ' '].intercalate (entriesChars entries) ++ ['\x7d']
  | plus l r _ => l.chars ++ [' ', '+', ' '] ++ r.chars
  | parens e _ => '(' :: e.chars ++ [')']
  | raw code _ => code.toList

def listChars : List Expr → List (List Char)
  | [] => []
  | e :: es => e.chars :: listChars es

def entriesChars : List (Entry Expr) → List (List Char)
  | [] => []
  | ⟨key, e, quoted⟩ :: es => (keyChars key quoted ++ [':', ' '] ++ e.chars) :: entriesChars es

end

def code (e : Expr) : String := String.ofList e.chars

def statement (e : Expr) : String := e.code ++ ";"

end Expr
end WidgetMarkup
