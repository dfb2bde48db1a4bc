import WidgetMarkup.Text.Charset

namespace WidgetMarkup.Text

/-- Where a reader of code stands with respect to quoted sections. -/
inductive Quoting
  | outside
  | inside (quote : Char)
  | escaped (quote : Char)
  deriving DecidableEq

namespace Quoting

/-- A section ends at the quote that opened it, unless a backslash stands before that quote. -/
def step : Quoting → Char → Quoting
  | outside, c => if isQuote c then inside c else outside
  | inside q, c => if c == '\\' then escaped q else if c == q then outside else inside q
  | escaped q, _ => inside q

def after (q : Quoting) (s : List Char) : Quoting := s.foldl step q

/-- The quote whose section is still open. -/
def openQuote? : Quoting → Option Char
  | outside => none
  | inside q | escaped q => some q

@[simp] theorem after_nil (q : Quoting) : q.after [] = q := rfl

@[simp] theorem after_cons (q : Quoting) (c : Char) (s : List Char) :
    q.after (c :: s) = (q.step c).after s := rfl

@[simp] theorem after_append (q : Quoting) (s t : List Char) :
    q.after (s ++ t) = (q.after s).after t := List.foldl_append

end Quoting
end WidgetMarkup.Text
