namespace WidgetMarkup.Text

def isQuote (c : Char) : Bool := c == '\x27' || c == '\x22' || c == '\x60'

/-- A `=` after one of these belongs to an operator such as `<=` or `!=`. -/
def isOperatorHead (c : Char) : Bool := c == '!' || c == '<' || c == '>' || c == '='

def isNameStart (c : Char) : Bool := c.isAlpha || c == '_' || c == '$'

/-- Dashes are allowed, so that a name written `data-id` is one name. -/
def isNamePart (c : Char) : Bool := isNameStart c || c.isDigit || c == '-'

def isFieldName : List Char → Bool
  | [] => false
  | c :: cs => isNameStart c && cs.all isNamePart

/-- A name that generated code may use bare, as a variable or behind a dot. -/
def isIdentifier : List Char → Bool
  | [] => false
  | c :: cs => isNameStart c && cs.all (fun d => isNameStart d || d.isDigit)

end WidgetMarkup.Text
