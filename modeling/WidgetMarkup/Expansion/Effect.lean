import WidgetMarkup.Diagnostic
import WidgetMarkup.Helper
import WidgetMarkup.Name
import WidgetMarkup.Plan

namespace WidgetMarkup

/-- What the expansion of an element does besides changing it. -/
inductive Effect
  | problem (d : Diagnostic)
  | helper (h : Helper)
  | expanded (name : Name) (stages : Stages) (removed : Nat)

namespace Effect

def problem? : Effect → Option Diagnostic
  | problem d => some d
  | _ => none

def helper? : Effect → Option Helper
  | helper h => some h
  | _ => none

end Effect

/-- What the expansion of one template has gathered. -/
structure Session where
  registry : Registry := {}
  diagnostics : List Diagnostic := []

def Session.after (s : Session) (es : List Effect) : Session :=
  ⟨s.registry.addAll (es.filterMap Effect.helper?), s.diagnostics ++ es.filterMap Effect.problem?⟩

end WidgetMarkup
