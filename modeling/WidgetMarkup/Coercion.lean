import WidgetMarkup.Diagnostic
import WidgetMarkup.Interpolation
import WidgetMarkup.Text.Blank
import WidgetMarkup.Value

namespace WidgetMarkup

open Text

/-- What a value is wanted as: a text with its placeholders filled in, or an expression. -/
inductive Target
  | text
  | expression
  deriving DecidableEq

/-- Why a text is not read as the target. -/
inductive CoercionProblem
  | dynamicNotAllowed (value : String)
  | unterminatedPlaceholder (value : String)
  deriving DecidableEq

def CoercionProblem.message : CoercionProblem → String
  | dynamicNotAllowed value => "Dynamic expressions are not allowed in \"" ++ value ++ "\""
  | unterminatedPlaceholder value =>
    "Unterminated \"$\x7b\" placeholder in \"" ++ value ++ "\""

structure Coercion where
  expr : Expr
  problem : Option CoercionProblem := none

namespace Coercion

def partExpr : Interpolation → Expr
  | .plain s => .text (String.ofList s)
  | .placeholder code => .parens (.raw (trimmed code))

def sum (e : Expr) (es : List Expr) : Expr := es.foldl (fun l r => .plus l r) e

/-- The parts joined by `+`. A text stands first, so that `+` joins texts and adds no numbers. -/
def concat (parts : List Interpolation) : Expr :=
  match parts.map partExpr with
  | [] => .text ""
  | [e] => e
  | e :: es => if e.isLiteral then sum e es else sum (.text "") (e :: es)

/-- A single placeholder is its code, any other text is code itself. -/
def source (s : List Char) : List Interpolation → Expr
  | [.placeholder code] => .raw (trimmed code)
  | _ => .raw (trimmed s)

/-- A text that cannot be read is the literal of the whole text. -/
def ofText (target : Target) (allowDynamic : Bool) (s : String) : Coercion :=
  match Interpolation.parse? s.toList with
  | none => ⟨.text s, some (.unterminatedPlaceholder s)⟩
  | some parts =>
    if !allowDynamic && parts.any Interpolation.isPlaceholder then
      ⟨.text s, some (.dynamicNotAllowed s)⟩
    else match target with
      | .text => ⟨concat parts, none⟩
      | .expression => ⟨source s.toList parts, none⟩

def ofValue (target : Target) (allowDynamic : Bool) : Value → Coercion
  | .text s => ofText target allowDynamic s
  | .code e => ⟨e, none⟩

def diagnostics (span : Option Span) (c : Coercion) : List Diagnostic :=
  (c.problem.map fun p => .error span p.message).toList

end Coercion
end WidgetMarkup
