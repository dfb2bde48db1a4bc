import WidgetMarkup.Binding
import WidgetMarkup.Name

namespace WidgetMarkup

/-- The stages that changed an element. -/
structure Stages where
  propertyArgs : Bool := false
  widgetClass : Bool := false
  elId : Bool := false
  widgetScope : Bool := false
  deriving DecidableEq

def Stages.isEmpty (s : Stages) : Bool :=
  !s.propertyArgs && !s.widgetClass && !s.elId && !s.widgetScope

/-- What was done to one element. -/
structure Plan where
  stages : Stages := {}
  /-- the attributes and properties taken off the element -/
  removed : List Name := []
  pre : Option Expr := none
  post : Option Expr := none
  bindings : List Binding := []
  /-- whether the element now sits inside a new widget tag -/
  wrapped : Bool := false

def Plan.isEmpty (p : Plan) : Bool := p.stages.isEmpty && p.removed.isEmpty

end WidgetMarkup
