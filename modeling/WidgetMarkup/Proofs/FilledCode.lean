import WidgetMarkup.Expansion.Stages
import WidgetMarkup.Proofs.Evaluation
import WidgetMarkup.Proofs.Subexpressions
import WidgetMarkup.Proofs.Trimming

namespace WidgetMarkup

open Text

namespace Expr

def isBlankRaw : Expr → Bool
  | raw code _ => allBlank code.toList
  | _ => false

def filled (e : Expr) : Bool := e.everywhere fun f => !f.isBlankRaw

variable {e f : Expr} {es : List Expr} {span : Option Span}

@[simp] theorem filled_var (name : String) : (var name span).filled = true := rfl

@[simp] theorem filled_literal (value : Literal) : (literal value span).filled = true := rfl

@[simp] theorem filled_prop (name : String) : (prop e name span).filled = e.filled := rfl

@[simp] theorem filled_parens : (parens e span).filled = e.filled := rfl

@[simp] theorem filled_plus : (plus e f span).filled = (e.filled && f.filled) := rfl

@[simp] theorem filled_raw (code : String) : (raw code span).filled = !allBlank code.toList := rfl

@[simp] theorem filled_array : (array es span).filled = es.all filled :=
  everywhereList_eq_all es

@[simp] theorem filled_call : (call e es span).filled = (e.filled && es.all filled) :=
  congrArg (e.filled && ·) (everywhereList_eq_all es)

@[simp] theorem filled_object (entries : List (Entry Expr)) :
    (object entries span).filled = entries.all fun entry => entry.value.filled :=
  everywhereEntries_eq_all entries

theorem filled_sum : (Coercion.sum e es).filled = (e.filled && es.all filled) := by
  induction es generalizing e with
  | nil => exact (Bool.and_true _).symm
  | cons f es ih =>
      have hstep : Coercion.sum e (f :: es) = Coercion.sum (plus e f) es := rfl
      rw [hstep, ih, filled_plus, List.all_cons, Bool.and_assoc]

end Expr

def Interpolation.isBlank : Interpolation → Bool
  | plain _ => false
  | placeholder code => allBlank code

namespace Value

/-- A text stays as it is until it is read as something else. -/
def filled : Value → Bool
  | text _ => true
  | code e => e.filled

def hasBlankPlaceholder : Value → Bool
  | text s => ((Interpolation.parse? s.toList).getD []).any Interpolation.isBlank
  | code _ => false

def isBlankCode : Value → Bool
  | text s =>
    match Interpolation.parse? s.toList with
    | none => false
    | some [.placeholder inside] => allBlank inside
    | some _ => allBlank s.toList
  | code _ => false

end Value

namespace Coercion

open WidgetMarkup.Expr

theorem allBlank_trimmed (s : List Char) : allBlank (trimmed s).toList = allBlank s := by
  rw [trimmed, String.toList_ofList, allBlank_trim]

theorem filled_partExpr (p : Interpolation) : (partExpr p).filled = !p.isBlank := by
  cases p with
  | plain s => rfl
  | placeholder code =>
      rw [partExpr, filled_parens, filled_raw, allBlank_trimmed, Interpolation.isBlank]

theorem filled_concat (ps : List Interpolation) :
    (concat ps).filled = !ps.any Interpolation.isBlank := by
  have hparts (ps : List Interpolation) :
      (ps.map partExpr).all filled = !ps.any Interpolation.isBlank := by
    rw [List.all_map, List.not_any_eq_all_not]
    simp only [Function.comp_def, filled_partExpr]
  rcases ps with _ | ⟨p, ps⟩
  · rfl
  · cases p with
    | plain s => rw [concat_plain, filled_sum, hparts]; rfl
    | placeholder code =>
        by_cases hne : ps = []
        · subst hne
          exact (filled_partExpr (.placeholder code)).trans (by simp)
        · rw [concat_placeholder code hne, ← List.map_cons, filled_sum, hparts]
          rfl

theorem filled_ofValue_text {value : Value} (h : value.filled = true) :
    (ofValue .text true value).expr.filled = !value.hasBlankPlaceholder := by
  cases value with
  | code e => exact h
  | text s =>
      rw [ofValue, ofText, Value.hasBlankPlaceholder]
      cases Interpolation.parse? s.toList with
      | none => rfl
      | some ps => exact filled_concat ps

theorem filled_ofValue_expression {value : Value} (h : value.filled = true) :
    (ofValue .expression true value).expr.filled = !value.isBlankCode := by
  cases value with
  | code e => exact h
  | text s =>
      rw [ofValue, ofText, Value.isBlankCode]
      cases Interpolation.parse? s.toList with
      | none => rfl
      | some ps =>
          simp only [Bool.not_true, Bool.false_and, Bool.false_eq_true, if_false, source]
          split <;> simp [allBlank_trimmed]

end Coercion

namespace Binding

theorem filled_expr (b : Binding) :
    b.expr.filled = !b.props.any fun f => allBlank f.text.toList := by
  rw [expr]
  cases b.props with
  | nil => rfl
  | cons f fs => simp [Expr.text, List.not_any_eq_all_not, Function.comp_def]

theorem filled_listExpr? (bs : List Binding) :
    (listExpr? bs).all Expr.filled = bs.all fun b => b.expr.filled := by
  rw [listExpr?]
  cases bs with
  | nil => rfl
  | cons b bs => simp [Function.comp_def]

end Binding

namespace Expansion

def Calls.filled (c : Calls) : Bool := c.before.filled && c.after.filled

/-- The names of the helpers and the scope are no source, so the id and the events decide. -/
theorem filled_calls? (v : Vocabulary) (args : CallArgs) :
    (calls? v args).all Calls.filled =
      (args.id.all Expr.filled && args.events.all Expr.filled) := by
  obtain ⟨id, scope, events⟩ := args
  cases id <;> cases scope <;> cases events <;>
    simp [calls?, CallArgs.isEmpty, CallArgs.toList, Calls.filled, Expr.text, Expr.null]

end Expansion
end WidgetMarkup
