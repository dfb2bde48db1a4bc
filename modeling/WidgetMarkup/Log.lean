import WidgetMarkup.Expansion.Effect

namespace WidgetMarkup

inductive Severity
  | warn
  | debug
  | trace
  deriving DecidableEq

namespace Severity

def rank : Severity → Nat
  | warn => 0
  | debug => 1
  | trace => 2

def label : Severity → String
  | warn => "WARN"
  | debug => "DEBUG"
  | trace => "TRACE"

/-- Whether a log of this severity keeps an entry of the other. -/
def admits (s t : Severity) : Bool := t.rank ≤ s.rank

end Severity

/-- A line of the log. The text of a diagnostic whose span cuts a character does not exist. -/
structure LogEntry where
  severity : Severity
  message? : Option String

def Diagnostic.logEntry (d : Diagnostic) : LogEntry :=
  ⟨.trace, d.display?.map fun text => "diagnostic: " ++ text⟩

def Helper.addedEntry (h : Helper) : LogEntry :=
  ⟨.debug, some ("registering helper " ++ h.localName ++ " -> " ++ h.exported)⟩

/-- The line about a helper whose name belongs to `old`. -/
def Helper.refusedEntry (h old : Helper) : LogEntry :=
  ⟨.warn, some ("helper alias " ++ h.localName ++ " already bound to " ++ Json.quote old.path ++
    "; ignoring " ++ Json.quote h.path)⟩

/-- The line about adding a helper: nothing when the very same helper is there. -/
def Registry.logEntry? (r : Registry) (h : Helper) : Option LogEntry :=
  match r.find? h.localName with
  | none => some h.addedEntry
  | some old => if old = h then none else some (h.refusedEntry old)

def Stages.names (s : Stages) : List String :=
  (if s.propertyArgs then ["PROPERTY_ARGS"] else []) ++
    (if s.widgetClass then ["WIDGET_CLASS"] else []) ++
    (if s.elId then ["EL_ID"] else []) ++
    if s.widgetScope then ["WIDGET_SCOPE"] else []

def Stages.display (s : Stages) : String :=
  "WidgetStages(" ++ (if s.isEmpty then "0x0" else " | ".intercalate s.names) ++ ")"

def Effect.logEntry? (r : Registry) : Effect → Option LogEntry
  | problem d => some d.logEntry
  | helper h => r.logEntry? h
  | expanded name stages removed =>
    some ⟨.debug, some ("widgets: <" ++ name.display ++ "> stages=" ++ stages.display ++
      " removed=" ++ toString removed)⟩

/-- The lines about effects that take place one after the other. -/
def logOf (r : Registry) : List Effect → List LogEntry
  | [] => []
  | e :: es => (e.logEntry? r).toList ++ logOf (r.addAll e.helper?.toList) es

end WidgetMarkup
