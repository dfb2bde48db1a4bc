namespace WidgetMarkup.Text

/-- The characters that a run of dashes may be folded into. -/
def startsWord (c : Char) : Bool := c.isLower || c.isDigit

/-- `held` dashes stand before the text: whether they stay depends on the character after them. -/
def camelFrom (held : Nat) : List Char → List Char
  | [] => List.replicate held '-'
  | c :: cs =>
    if c == '-' then camelFrom (held + 1) cs
    else if held != 0 && startsWord c then c.toUpper :: camelFrom 0 cs
    else List.replicate held '-' ++ c :: camelFrom 0 cs

/-- Turns `data-id` into `dataId`: a run of dashes is dropped where a small letter or a digit
follows, and a letter there becomes a capital. -/
def camel (s : List Char) : List Char := camelFrom 0 s

end WidgetMarkup.Text
