import WidgetMarkup.Diagnostic
import WidgetMarkup.Field
import WidgetMarkup.Field.Piece
import WidgetMarkup.Text.Blank
import WidgetMarkup.Text.Dashes

namespace WidgetMarkup.Field

open Text

structure Options where
  /-- the name of the first value that is written without one -/
  defaultName : Option String := none
  removeDashes : Bool := false
  /-- what the value belongs to, for diagnostics -/
  subject : String := "attribute"
  span : Option Span := none

def Options.storedKey (o : Options) (name : String) : String :=
  if o.removeDashes then String.ofList (camel name.toList) else name

inductive Outcome
  | blank
  | stored (f : Field)
  | rejected (p : Problem)

def Outcome.field? : Outcome → Option Field
  | stored f => some f
  | _ => none

def Outcome.problem? : Outcome → Option Problem
  | rejected p => some p
  | _ => none

variable (schema : Schema) (options : Options)

/-- Stores a value under its name, unless the name is unknown or its key is among `keys`. -/
def store (keys : List String) (name : String) (value : List Char) : Outcome :=
  match schema.lookup? name with
  | none => .rejected (.unknown name)
  | some spec =>
    let key := options.storedKey (spec.rename.getD name)
    if keys.contains key then .rejected (.duplicate key)
    else .stored ⟨key, spec.kind, trimmed value⟩

/-- What becomes of a piece when `keys` are stored already and `bareSeen` says whether a value
without a name came before. -/
def judge (bareSeen : Bool) (keys : List String) : Piece → Outcome
  | .unclosed q text => .rejected (.unterminatedQuote q (trimmed text))
  | .named name value =>
    if allBlank name then .rejected (.emptyName (trimmed (Piece.named name value).text))
    else if !isFieldName (trim name) then .rejected (.invalidName (trimmed name))
    else store schema options keys (trimmed name) value
  | .bare text =>
    if allBlank text then .blank
    else match options.defaultName with
      | none => .rejected (.missingName (trimmed text))
      | some name =>
        if bareSeen then .rejected (.extraUnnamed (trimmed text) name)
        else store schema options keys name text

def Piece.isUnnamed : Piece → Bool
  | .bare text => !allBlank text
  | _ => false

/-- The outcomes of the pieces in order. A value without a name counts as seen even when it was
rejected. -/
def outcomes (bareSeen : Bool) (keys : List String) : List Piece → List Outcome
  | [] => []
  | p :: ps =>
    let outcome := judge schema options bareSeen keys p
    outcome :: outcomes (bareSeen || p.isUnnamed) (keys ++ (outcome.field?.map key).toList) ps

structure Parsed where
  fields : List Field
  problems : List Problem

/-- Reads `name=text` entries between semicolons. A piece that is not stored is a problem and
changes nothing else. -/
def split (value : String) : Parsed :=
  let os := outcomes schema options false [] (Piece.readAll value.toList)
  ⟨os.filterMap Outcome.field?, os.filterMap Outcome.problem?⟩

def Parsed.diagnostics (value : String) (r : Parsed) : List Diagnostic :=
  r.problems.map fun p => .error options.span (p.report value options.subject)

end WidgetMarkup.Field
