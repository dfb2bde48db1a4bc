import WidgetMarkup.Expr

namespace WidgetMarkup

/-- The name of the run-time variable for the current widget. -/
def widgetScope : String := "widget"

/-- The arguments of the call before an element that a widget listens to. -/
structure CallArgs where
  id : Option Expr := none
  scope : Option String := none
  events : Option Expr := none

namespace CallArgs

/-- An assigned id belongs to the enclosing widget. -/
def withId (e : Expr) (a : CallArgs) : CallArgs := { a with id := some e, scope := some widgetScope }

def isEmpty (a : CallArgs) : Bool := a.id.isNone && a.scope.isNone && a.events.isNone

/-- The id and the scope always have their places; the events are left out when there are none. -/
def toList (a : CallArgs) : List Expr :=
  [a.id.getD .null, (a.scope.map Expr.text).getD .null] ++ a.events.toList

end CallArgs
end WidgetMarkup
