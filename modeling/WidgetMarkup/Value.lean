import WidgetMarkup.Expr.Printer

namespace WidgetMarkup

/-- The value of an attribute or property: text as written, or code. -/
inductive Value
  | text (s : String)
  | code (e : Expr)

def Value.source : Value → String
  | text s => s
  | code e => e.code

end WidgetMarkup
