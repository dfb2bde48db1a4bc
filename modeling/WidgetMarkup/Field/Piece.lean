import WidgetMarkup.Text.Quoting

namespace WidgetMarkup.Field

open Text

/-- The text up to the first semicolon outside quotes, and the pieces after it. -/
def cutFrom (q : Quoting) : List Char → List Char × List (List Char)
  | [] => ([], [])
  | c :: cs =>
    if q = .outside ∧ c = ';' then
      let r := cutFrom .outside cs
      ([], r.1 :: r.2)
    else
      let r := cutFrom (q.step c) cs
      (c :: r.1, r.2)

/-- The texts between the semicolons outside quotes. -/
def pieces (s : List Char) : List (List Char) :=
  let r := cutFrom .outside s
  r.1 :: r.2

/-- Whether a `=` between these two characters is part of an operator, such as `==`, `<=` or
`=>`. -/
def inOperator (prev next : Option Char) : Bool :=
  prev.any isOperatorHead || next == some '=' || next == some '>'

/-- The text before the first `=` that separates a name from a value, and the text after it. -/
def cutName? (q : Quoting) (prev : Option Char) : List Char → Option (List Char × List Char)
  | [] => none
  | c :: cs =>
    if q = .outside ∧ c = '=' ∧ !inOperator prev cs.head? then some ([], cs)
    else (cutName? (q.step c) (some c) cs).map fun r => (c :: r.1, r.2)

/-- What one text between semicolons is made of. -/
inductive Piece
  | unclosed (quote : Char) (text : List Char)
  | named (name value : List Char)
  | bare (text : List Char)

namespace Piece

def read (s : List Char) : Piece :=
  match (Quoting.outside.after s).openQuote? with
  | some q => unclosed q s
  | none =>
    match cutName? .outside none s with
    | some (name, value) => named name value
    | none => bare s

def readAll (s : List Char) : List Piece := (pieces s).map read

def text : Piece → List Char
  | unclosed _ s | bare s => s
  | named name value => name ++ '=' :: value

end Piece
end WidgetMarkup.Field
