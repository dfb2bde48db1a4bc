import WidgetMarkup.Location

namespace WidgetMarkup

inductive Level
  | warning
  | error
  deriving DecidableEq

def Level.label : Level → String
  | warning => "WARNING"
  | error => "ERROR"

structure Diagnostic where
  span : Option Span
  message : String
  level : Level
  deriving DecidableEq

namespace Diagnostic

def error (span : Option Span) (message : String) : Diagnostic := ⟨span, message, .error⟩

def warning (span : Option Span) (message : String) : Diagnostic := ⟨span, message, .warning⟩

/-- The message with the source text it is about. -/
def inContext? (d : Diagnostic) : Option String :=
  match d.span with
  | none => some d.message
  | some s => s.text?.map fun text =>
    if text.isEmpty then d.message
    else d.message ++ " (\"[" ++ d.level.label ++ " ->]" ++ text ++ "\")"

/-- The whole text that a reader of the diagnostic sees. It ends with the place where the span
starts. -/
def display? (d : Diagnostic) : Option String :=
  match d.span with
  | none => some d.message
  | some s => d.inContext?.map fun text => text ++ ": " ++ s.start.display

end Diagnostic

def hasErrors (ds : List Diagnostic) : Bool := ds.any fun d => d.level == .error

end WidgetMarkup
