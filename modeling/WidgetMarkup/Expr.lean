import WidgetMarkup.Double
import WidgetMarkup.Location

namespace WidgetMarkup

inductive Literal
  | null
  | text (value : String)
  | bool (value : Bool)
  | number (value : Double)

/-- An entry of an object literal. -/
structure Entry (α : Type) where
  key : String
  value : α
  quoted : Bool

/-- Generated code. Every node may say which source text it stands for. -/
inductive Expr
  | var (name : String) (span : Option Span := none)
  | prop (receiver : Expr) (name : String) (span : Option Span := none)
  | call (callee : Expr) (args : List Expr) (span : Option Span := none)
  | literal (value : Literal) (span : Option Span := none)
  | array (items : List Expr) (span : Option Span := none)
  | object (entries : List (Entry Expr)) (span : Option Span := none)
  | plus (left right : Expr) (span : Option Span := none)
  | parens (inner : Expr) (span : Option Span := none)
  /-- source taken over as it was written -/
  | raw (code : String) (span : Option Span := none)

namespace Expr

def text (value : String) : Expr := .literal (.text value)

def null : Expr := .literal .null

def span : Expr → Option Span
  | var _ s | prop _ _ s | call _ _ s | literal _ s | array _ s | object _ s | plus _ _ s
  | parens _ s | raw _ s => s

def withSpan (s : Option Span) : Expr → Expr
  | var n _ => var n s
  | prop e n _ => prop e n s
  | call e as _ => call e as s
  | literal v _ => literal v s
  | array es _ => array es s
  | object es _ => object es s
  | plus l r _ => plus l r s
  | parens e _ => parens e s
  | raw c _ => raw c s

def isLiteral : Expr → Bool
  | literal _ _ => true
  | _ => false

def textValue? : Expr → Option String
  | literal (.text v) _ => some v
  | _ => none

end Expr
end WidgetMarkup
