import WidgetMarkup.Name
import WidgetMarkup.Value

namespace WidgetMarkup

structure Attribute where
  name : Name
  value : Value
  span : Option Span := none

namespace Attribute

/-- The value of the first entry of a name. -/
def value? (n : Name) (as : List Attribute) : Option Value :=
  (as.find? fun a => a.name == n).map value

/-- The list without the first entry of a name. -/
def without (n : Name) (as : List Attribute) : List Attribute := as.eraseP fun a => a.name == n

/-- Gives a name its value, at the place of its first entry or else at the end. -/
def put (n : Name) (v : Value) : List Attribute → List Attribute
  | [] => [⟨n, v, none⟩]
  | a :: as => if a.name = n then { a with value := v } :: as else a :: put n v as

end Attribute
end WidgetMarkup
