import WidgetMarkup.Expr.Printer

namespace WidgetMarkup

/-- A function that generated code calls. It is an export of a module, or the module itself, and
is bound to a name once per template. -/
structure Helper where
  path : String
  exported : String
  singleton : Bool
  localName : String
  deriving DecidableEq

namespace Helper

def importExpr (h : Helper) : Expr :=
  let required := Expr.call (.var "require") [.text h.path]
  if h.singleton then required else .prop required h.exported

def declaration (h : Helper) : String :=
  "var " ++ h.localName ++ " = " ++ h.importExpr.statement

end Helper

/-- The helpers of one template, in the order of their registration. -/
structure Registry where
  helpers : List Helper := []
  deriving DecidableEq

namespace Registry

def find? (r : Registry) (localName : String) : Option Helper :=
  r.helpers.find? fun h => h.localName == localName

/-- The first helper of a name stays. -/
def add (r : Registry) (h : Helper) : Registry :=
  match r.find? h.localName with
  | some _ => r
  | none => ⟨r.helpers ++ [h]⟩

def addAll (r : Registry) (hs : List Helper) : Registry := hs.foldl add r

def declarations (r : Registry) : List String := r.helpers.map Helper.declaration

end Registry
end WidgetMarkup
