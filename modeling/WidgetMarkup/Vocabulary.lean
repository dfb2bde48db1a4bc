import WidgetMarkup.Helper
import WidgetMarkup.Name
import WidgetMarkup.Text.Blank

namespace WidgetMarkup

open Text

/-- An export of the helper module and the name it is bound to. -/
structure HelperName where
  exported : String
  localName : String
  deriving DecidableEq

/-- The names that the widget markup uses, and the helpers that the generated code calls. -/
structure Vocabulary where
  ns : String := "widgets"
  /-- how diagnostics write the namespace -/
  label : String := "w"
  widgetTag : String := "widget"
  helperModule : String := "widgets/taglib/WidgetFunctions"
  argsHelper : HelperName := ⟨"widgetArgs", "_widgetArgs"⟩
  cleanupHelper : HelperName := ⟨"cleanupWidgetArgs", "_cleanupWidgetArgs"⟩
  deriving DecidableEq

namespace Vocabulary

inductive Problem
  | emptyField (field : String)
  | invalidAlias (name : String)
  deriving DecidableEq

def Problem.message : Problem → String
  | emptyField field => "config field \"" ++ field ++ "\" must not be empty"
  | invalidAlias name => "helper alias \"" ++ name ++ "\" is not a valid identifier"

def emptyField? (field value : String) : Option Problem :=
  if allBlank value.toList then some (.emptyField field) else none

def helperProblem? (h : HelperName) : Option Problem :=
  (emptyField? "exportName" h.exported).or
    (if isIdentifier h.localName.toList then none else some (.invalidAlias h.localName))

/-- The first reason why a vocabulary cannot be used. -/
def problem? (v : Vocabulary) : Option Problem :=
  [emptyField? "namespace" v.ns, emptyField? "prefix" v.label,
    emptyField? "widgetTag" v.widgetTag, emptyField? "helperModule" v.helperModule,
    helperProblem? v.argsHelper, helperProblem? v.cleanupHelper].findSome? id

/-- A name in the namespace of the widgets. -/
def name (v : Vocabulary) (localName : String) : Name := .within v.ns localName

def helper (v : Vocabulary) (h : HelperName) : Helper :=
  ⟨v.helperModule, h.exported, false, h.localName⟩

def helpers (v : Vocabulary) : List Helper := [v.helper v.argsHelper, v.helper v.cleanupHelper]

end Vocabulary
end WidgetMarkup
