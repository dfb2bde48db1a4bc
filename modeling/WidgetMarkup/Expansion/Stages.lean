import WidgetMarkup.CallArgs
import WidgetMarkup.Coercion
import WidgetMarkup.Element
import WidgetMarkup.Plan
import WidgetMarkup.Vocabulary

namespace WidgetMarkup.Expansion

def widgetAttr : String := "widget"

def idAttr : String := "id"

def configAttr : String := "config"

def elIdAttr : String := "el-id"

def eventLabel : String := "event-"

/-- The name of the event that a property such as `event-click` listens to. -/
def eventSource? (localName : String) : Option String :=
  if eventLabel.toList.isPrefixOf localName.toList then
    some (String.ofList (localName.toList.drop eventLabel.length))
  else none

/-- A property of the widget markup. -/
inductive Request
  | id (value : Value)
  | event (attr source : String) (value : Value)

def Request.localName : Request → String
  | id _ => idAttr
  | event attr _ _ => attr

variable (v : Vocabulary)

def request? (p : Attribute) : Option Request :=
  if p.name.ns = some v.ns then
    if p.name.localName = idAttr then some (.id p.value)
    else (eventSource? p.name.localName).map fun source =>
      .event p.name.localName source p.value
  else none

/-- What a request turns out to ask for. -/
inductive Answer
  | id (e : Expr) (problems : List Diagnostic)
  | event (binding : Option Binding) (problems : List Diagnostic)

def Request.answer (span : Option Span) : Request → Answer
  | id value =>
    let c := Coercion.ofValue .text true value
    .id c.expr (c.diagnostics span)
  | event attr source value =>
    let (binding, problems) := Binding.parse attr source value.source span
    .event binding problems

def Answer.problems : Answer → List Diagnostic
  | id _ ps | event _ ps => ps

def Answer.binding? : Answer → Option Binding
  | id _ _ => none
  | event b _ => b

def Answer.id? : Answer → Option Expr
  | id e _ => some e
  | event _ _ => none

/-- The last id counts. -/
def argsOf (answers : List Answer) : CallArgs :=
  let args : CallArgs := { events := Binding.listExpr? (answers.filterMap Answer.binding?) }
  match (answers.filterMap Answer.id?).getLast? with
  | some e => args.withId e
  | none => args

/-- The calls that run before and after an element. -/
structure Calls where
  before : Expr
  after : Expr

def calls? (args : CallArgs) : Option Calls :=
  if args.isEmpty then none
  else some ⟨.call (.var v.argsHelper.localName) args.toList,
    .call (.var v.cleanupHelper.localName) []⟩

structure ArgsStage where
  tag : Tag
  removed : List Name := []
  bindings : List Binding := []
  problems : List Diagnostic := []
  calls : Option Calls := none

/-- Turns the id and event properties of an element into calls around it. An element with a widget
class keeps its properties. -/
def argsStage (t : Tag) : ArgsStage :=
  match t.attr? (v.name widgetAttr) with
  | some _ => { tag := t }
  | none =>
    let requests := t.props.filterMap (request? v)
    let answers := requests.map (Request.answer t.span)
    let calls := calls? v (argsOf answers)
    { tag := { t with
        props := t.props.filter fun p => (request? v p).isNone
        pre := t.pre ++ (calls.map Calls.before).toList
        post := t.post ++ (calls.map Calls.after).toList }
      removed := requests.map fun r => v.name r.localName
      bindings := answers.filterMap Answer.binding?
      problems := answers.flatMap Answer.problems
      calls }

/-- The id that an element gets at run time from its widget. -/
def generatedId : Value := .text "$\x7bwidget.elId()\x7d"

structure ClassStage where
  tag : Tag
  removed : List Name := []
  problems : List Diagnostic := []
  wrapper : Option Tag := none

def widgetVariable : Value := .code (.raw widgetScope)

/-- The tag that makes a widget of the class `path`. -/
def wrapperTag (span : Option Span) (path : Expr) (config id elId : Option Expr) : Tag :=
  let resolved := Expr.call (.prop (.var "require") "resolve") [path]
  let t := { Tag.handler v.ns v.widgetTag with span }
  let t := t.putProp (.plain "path") (.code resolved)
  let t := match config with
    | some e => t.putProp (.plain "config") (.code e)
    | none => t
  let t := match id with
    | some e => (t.putProp (.plain "assignedId") (.code e)).putProp (.plain "scope") widgetVariable
    | none => t
  match elId with
  | some e => t.putProp (.plain "elId") (.code e)
  | none => t

/-- Takes the widget class off an element, with its id and configuration, and makes the tag that
will stand around it. -/
def classStage (t : Tag) : ClassStage :=
  match t.attr? (v.name widgetAttr) with
  | none => { tag := t }
  | some cls =>
    let path := Coercion.ofValue .text true cls
    let id := (t.attr? (v.name idAttr)).map (Coercion.ofValue .text true)
    let config := (t.attr? (v.name configAttr)).map (Coercion.ofValue .expression true)
    let elId := (t.attr? (.plain idAttr)).map (Coercion.ofValue .text true)
    let rest := ((t.withoutAttr (v.name widgetAttr)).withoutAttr (v.name idAttr)).withoutAttr
      (v.name configAttr)
    { tag := if elId.isSome then rest else rest.putAttr (.plain idAttr) generatedId
      removed := v.name widgetAttr :: (id.map fun _ => v.name idAttr).toList ++
        (config.map fun _ => v.name configAttr).toList
      problems := (path :: id.toList ++ config.toList ++ elId.toList).flatMap
        (Coercion.diagnostics t.span)
      wrapper := some (wrapperTag v t.span path.expr (config.map Coercion.expr)
        (id.map Coercion.expr) (elId.map Coercion.expr)) }

def elIdConflictMessage (label : String) : String :=
  "The \"" ++ label ++ ":el-id\" attribute cannot be used in conjuction with the \"id\" attribute"

/-- The id of an element inside its widget. Its text is not searched for placeholders. -/
def scopedId : Value → Value
  | .text s => .code (.call (.prop (.var widgetScope) "elId") [.text s])
  | .code e => .code (.call (.prop (.var widgetScope) "elId") [e])

structure ElIdStage where
  tag : Tag
  removed : List Name := []
  problems : List Diagnostic := []
  assigned : Bool := false

/-- Turns an element id of the widget markup into an id. It is dropped when there is one. -/
def elIdStage (t : Tag) : ElIdStage :=
  match t.attr? (v.name elIdAttr) with
  | none => { tag := t }
  | some value =>
    let rest := t.withoutAttr (v.name elIdAttr)
    match rest.attr? (.plain idAttr) with
    | some _ =>
      { tag := rest
        removed := [v.name elIdAttr]
        problems := [.error t.span (elIdConflictMessage v.label)] }
    | none =>
      { tag := rest.putAttr (.plain idAttr) (scopedId value)
        removed := [v.name elIdAttr]
        assigned := true }

structure ScopeStage where
  tag : Tag
  assigned : Bool := false

/-- A widget tag with an id runs in the scope of the enclosing widget. -/
def scopeStage (t : Tag) : ScopeStage :=
  if t.name = v.name v.widgetTag ∧ (t.attr? (.plain idAttr)).isSome then
    { tag := t.putProp (.plain "scope") widgetVariable, assigned := true }
  else { tag := t }

end WidgetMarkup.Expansion
