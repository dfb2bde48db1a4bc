import WidgetMarkup.Expr
import WidgetMarkup.Field.Split

namespace WidgetMarkup

/-- Connects an event of an element to a message of its widget. Further properties of the message
are code. -/
structure Binding where
  source : String
  target : String
  props : List Field
  deriving DecidableEq

namespace Binding

def targetKey : String := "target"

/-- Every name is allowed, and all but the target are expressions. -/
def schema : Field.Schema := ⟨[(targetKey, ⟨.custom, none⟩), (Field.wildcard, ⟨.expression, none⟩)]⟩

theorem lookup?_schema (name : String) : schema.lookup? name =
    some ⟨if name = targetKey then .custom else .expression, none⟩ := by
  rw [schema, Field.Schema.lookup?, List.lookup_cons, List.lookup_cons]
  by_cases h : name = targetKey
  · simp [h]
  · rw [if_neg h, beq_false_of_ne h]
    cases name == Field.wildcard <;> rfl

def options (attr : String) (span : Option Span) : Field.Options where
  defaultName := some targetKey
  subject := "event attribute \"" ++ attr ++ "\""
  span := span

def missingTargetMessage (attr value : String) : String :=
  "Invalid value of \"" ++ value ++ "\" for event attribute \"" ++ attr ++
    "\". Target message not provided"

def ofFields? (source : String) (fields : List Field) : Option Binding :=
  match fields.find? fun f => f.key == targetKey with
  | none => none
  | some t =>
    if t.text.isEmpty then none
    else some ⟨source, t.text, fields.filter fun f => f.key != targetKey⟩

/-- Reads the value of the property `attr`, which listens to the event `source`. -/
def parse (attr source value : String) (span : Option Span) : Option Binding × List Diagnostic :=
  let o := options attr span
  let parsed := Field.split schema o value
  let problems := parsed.diagnostics o value
  match ofFields? source parsed.fields with
  | some b => (some b, problems)
  | none => (none, problems ++ [.error span (missingTargetMessage attr value)])

/-- `[source, target]`, with an object of the further properties when there are any. -/
def expr (b : Binding) : Expr :=
  let props := b.props.map fun f => Entry.mk f.key (Expr.raw f.text) true
  .array ([.text b.source, .text b.target] ++ if props.isEmpty then [] else [.object props])

def listExpr? (bs : List Binding) : Option Expr :=
  if bs.isEmpty then none else some (.array (bs.map expr))

end Binding
end WidgetMarkup
