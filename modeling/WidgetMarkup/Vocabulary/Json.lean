import WidgetMarkup.Json.Record
import WidgetMarkup.Vocabulary

namespace WidgetMarkup

open Json

def HelperName.read : Reader HelperName :=
  record
    [.of "exportName" string (fun d : Option String × Option String => d.1)
        (fun d s => (some s, d.2)),
      .of "alias" string (fun d => d.2) (fun d s => (d.1, some s))]
    (none, none)
    fun (exported, localName) => do some ⟨← exported, ← localName⟩

namespace Vocabulary

structure Draft where
  ns : Option String := none
  label : Option String := none
  widgetTag : Option String := none
  helperModule : Option String := none
  argsHelper : Option HelperName := none
  cleanupHelper : Option HelperName := none

/-- Everything that is not given has its default. -/
def Draft.vocabulary (d : Draft) : Vocabulary :=
  let v : Vocabulary := {}
  ⟨d.ns.getD v.ns, d.label.getD v.label, d.widgetTag.getD v.widgetTag,
    d.helperModule.getD v.helperModule, d.argsHelper.getD v.argsHelper,
    d.cleanupHelper.getD v.cleanupHelper⟩

def fields : List (RecordField Draft) :=
  [.of "namespace" string Draft.ns (fun d s => { d with ns := some s }),
    .of "prefix" string Draft.label (fun d s => { d with label := some s }),
    .of "widgetTag" string Draft.widgetTag (fun d s => { d with widgetTag := some s }),
    .of "helperModule" string Draft.helperModule (fun d s => { d with helperModule := some s }),
    .of "widgetArgsHelper" HelperName.read Draft.argsHelper
      (fun d h => { d with argsHelper := some h }),
    .of "cleanupHelper" HelperName.read Draft.cleanupHelper
      (fun d h => { d with cleanupHelper := some h })]

def read : Reader Vocabulary := record fields {} fun d => some d.vocabulary

inductive LoadProblem
  | unreadable
  | json (f : Failure)
  | invalid (p : Problem)

def ofJson (s : String) : Except LoadProblem Vocabulary :=
  match readAll read s with
  | .error f => .error (.json f)
  | .ok v =>
    match v.problem? with
    | some p => .error (.invalid p)
    | none => .ok v

/-- Reads the bytes of a file, which there may be none. They have to be UTF-8. -/
def ofFile (bytes : Option ByteArray) : Except LoadProblem Vocabulary :=
  match bytes.bind String.fromUTF8? with
  | none => .error .unreadable
  | some s => ofJson s

end Vocabulary
end WidgetMarkup
