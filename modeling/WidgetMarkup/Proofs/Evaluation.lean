import WidgetMarkup.Coercion
import WidgetMarkup.Expr.Printer
import WidgetMarkup.Proofs.Placeholders
import WidgetMarkup.Proofs.Subexpressions

namespace WidgetMarkup

open Text

universe u

inductive Evaluated (α : Type u)
  | text (value : String)
  | other (value : α)

/-- The language that the code is written in, as far as it matters to sums. Whatever it adds up to
when neither side is a text, a text next to a value always makes a text. -/
structure Runtime (α : Type u) where
  form : α → String
  add : α → α → Evaluated α
  source : String → Evaluated α
  rest : Expr → Evaluated α

variable {α : Type u} (rt : Runtime α)

namespace Runtime

def textOf : Evaluated α → String
  | .text s => s
  | .other a => rt.form a

def plus : Evaluated α → Evaluated α → Evaluated α
  | .other a, .other b => rt.add a b
  | x, y => .text (rt.textOf x ++ rt.textOf y)

def partText : Interpolation → String
  | .plain s => String.ofList s
  | .placeholder code => rt.textOf (rt.source (trimmed code))

theorem plus_text (s : String) (x : Evaluated α) :
    rt.plus (.text s) x = .text (s ++ rt.textOf x) := by
  cases x <;> rfl

end Runtime

namespace Expr

def eval : Expr → Evaluated α
  | literal (.text s) _ => .text s
  | parens e _ => e.eval
  | raw code _ => rt.source code
  | plus l r _ => rt.plus l.eval r.eval
  | e => rt.rest e

theorem eval_sum {e : Expr} {s : String} (he : e.eval rt = .text s) (es : List Expr) :
    (Coercion.sum e es).eval rt = .text (s ++ String.join (es.map fun e => rt.textOf (e.eval rt))) := by
  induction es generalizing e s with
  | nil => simpa [Coercion.sum] using he
  | cons f es ih =>
      have hplus : (plus e f).eval rt = .text (s ++ rt.textOf (f.eval rt)) := by
        rw [eval, he, rt.plus_text]
      have hstep : Coercion.sum e (f :: es) = Coercion.sum (plus e f) es := rfl
      rw [hstep, ih hplus, List.map_cons, String.join_cons, String.append_assoc]

def isLeftNested : Expr → Bool
  | plus _ r _ => !r.isSum
  | _ => true

/-- No sum stands on the right of a sum, at any depth. -/
def leftNested (e : Expr) : Bool := e.everywhere isLeftNested

def operands : Expr → List Expr
  | plus l r _ => l.operands ++ r.operands
  | e => [e]

def grouped? : List Expr → Option Expr
  | [] => none
  | e :: es => some (Coercion.sum e es)

theorem operands_of_isSum_eq_false {e : Expr} (h : e.isSum = false) : e.operands = [e] := by
  cases e with
  | plus => cases h
  | _ => rfl

theorem operands_ne_nil (e : Expr) : e.operands ≠ [] := by
  cases e with
  | plus l r => exact List.append_ne_nil_of_left_ne_nil (operands_ne_nil l) _
  | _ => exact List.cons_ne_nil _ _

theorem intercalate_append {xs ys : List (List Char)} (hx : xs ≠ []) (hy : ys ≠ [])
    (sep : List Char) :
    sep.intercalate (xs ++ ys) = sep.intercalate xs ++ sep ++ sep.intercalate ys := by
  induction xs with
  | nil => exact absurd rfl hx
  | cons x xs ih =>
      by_cases hxs : xs = []
      · subst hxs
        rw [List.singleton_append, List.intercalate_cons_of_ne_nil hy, List.intercalate_singleton]
      · have happend : xs ++ ys ≠ [] := List.append_ne_nil_of_left_ne_nil hxs ys
        rw [List.cons_append, List.intercalate_cons_of_ne_nil happend, ih hxs,
          List.intercalate_cons_of_ne_nil hxs]
        simp only [List.append_assoc]

theorem chars_eq_operands (e : Expr) :
    e.chars = [' ', '+', ' '].intercalate (e.operands.map chars) := by
  cases e with
  | plus l r =>
      have hl : l.operands.map chars ≠ [] := mt List.map_eq_nil_iff.1 (operands_ne_nil l)
      have hr : r.operands.map chars ≠ [] := mt List.map_eq_nil_iff.1 (operands_ne_nil r)
      rw [chars, operands, List.map_append, intercalate_append hl hr, ← chars_eq_operands l,
        ← chars_eq_operands r]
  | _ => exact (List.intercalate_singleton).symm

section Sum

variable {e : Expr} {es : List Expr}

theorem leftNested_sum (he : e.leftNested = true)
    (hes : ∀ f ∈ es, f.leftNested = true ∧ f.isSum = false) :
    (Coercion.sum e es).leftNested = true := by
  induction es generalizing e with
  | nil => exact he
  | cons f es ih =>
      rw [List.forall_mem_cons] at hes
      have hplus : (plus e f).leftNested = true := by
        rw [leftNested, everywhere, isLeftNested, hes.1.2, Bool.and_eq_true, Bool.and_eq_true]
        exact ⟨⟨rfl, he⟩, hes.1.1⟩
      exact ih hplus hes.2

theorem operands_sum (hes : ∀ f ∈ es, f.isSum = false) :
    (Coercion.sum e es).operands = e.operands ++ es := by
  induction es generalizing e with
  | nil => exact (List.append_nil _).symm
  | cons f es ih =>
      rw [List.forall_mem_cons] at hes
      have hstep : Coercion.sum e (f :: es) = Coercion.sum (plus e f) es := rfl
      rw [hstep, ih hes.2, operands, operands_of_isSum_eq_false hes.1, List.append_assoc,
        List.singleton_append]

theorem grouped?_operands_sum (he : e.isSum = false) (hes : ∀ f ∈ es, f.isSum = false) :
    grouped? (Coercion.sum e es).operands = some (Coercion.sum e es) := by
  rw [operands_sum hes, operands_of_isSum_eq_false he, List.singleton_append, grouped?]

end Sum
end Expr

namespace Coercion

open WidgetMarkup.Expr Interpolation

theorem concat_plain (s : List Char) (ps : List Interpolation) :
    concat (.plain s :: ps) = sum (.text (String.ofList s)) (ps.map partExpr) := by
  cases ps <;> rfl

theorem concat_placeholder (code : List Char) {ps : List Interpolation} (h : ps ≠ []) :
    concat (.placeholder code :: ps) =
      sum (.text "") (partExpr (.placeholder code) :: ps.map partExpr) := by
  cases ps with
  | nil => exact absurd rfl h
  | cons p ps => rfl

theorem eval_sum_parts (s : String) (ps : List Interpolation) :
    (sum (.text s) (ps.map partExpr)).eval rt =
      .text (s ++ String.join (ps.map rt.partText)) := by
  have hpart (p : Interpolation) : rt.textOf ((partExpr p).eval rt) = rt.partText p := by
    cases p <;> rfl
  rw [eval_sum rt rfl, List.map_map]
  simp only [Function.comp_def, hpart]

theorem eval_concat {ps : List Interpolation} (h : 2 ≤ ps.length) :
    (concat ps).eval rt = .text (String.join (ps.map rt.partText)) := by
  cases ps with
  | nil => cases h
  | cons p ps =>
      cases p with
      | plain s =>
          rw [concat_plain, eval_sum_parts, List.map_cons, String.join_cons]
          rfl
      | placeholder code =>
          -- the empty text in front adds nothing but makes the sum a text
          have hne : ps ≠ [] := List.ne_nil_of_length_pos (Nat.lt_of_succ_lt_succ h)
          rw [concat_placeholder code hne, ← List.map_cons, eval_sum_parts, String.empty_append]

theorem concat_eq_sum (ps : List Interpolation) : ∃ e es, concat ps = sum e es ∧
    ∀ f ∈ e :: es, f.leftNested = true ∧ f.isSum = false := by
  have hpart (p : Interpolation) :
      (partExpr p).leftNested = true ∧ (partExpr p).isSum = false := by
    cases p <;> exact ⟨rfl, rfl⟩
  have hparts : ∀ f ∈ ps.map partExpr, f.leftNested = true ∧ f.isSum = false := by
    rw [List.forall_mem_map]
    exact fun p _ => hpart p
  have htext (s : String) : (Expr.text s).leftNested = true ∧ (Expr.text s).isSum = false :=
    ⟨rfl, rfl⟩
  rcases ps with _ | ⟨p, ps⟩
  · exact ⟨.text "", [], rfl, List.forall_mem_cons.2 ⟨htext "", by simp⟩⟩
  · cases p with
    | plain s => exact ⟨_, _, concat_plain s ps, hparts⟩
    | placeholder code =>
        by_cases hne : ps = []
        · subst hne
          exact ⟨partExpr (.placeholder code), [], rfl, hparts⟩
        · exact ⟨_, _, concat_placeholder code hne, List.forall_mem_cons.2 ⟨htext "", hparts⟩⟩

/-- A text with placeholders is worth the texts of its parts, one after the other. A part alone is
worth itself. The sum that computes it can be printed without brackets. -/
theorem ofValue_evaluates (s : String) (ps : List Interpolation)
    (h : Interpolation.parse? s.toList = some ps) :
    ∃ e, ofValue .text true (.text s) = ⟨e, none⟩ ∧
      (2 ≤ ps.length → e.eval rt = .text (String.join (ps.map rt.partText))) ∧
      (∀ t, ps = [.plain t] → e.eval rt = .text s) ∧
      (∀ code, ps = [.placeholder code] → e.eval rt = rt.source (trimmed code)) ∧
      e.leftNested = true ∧ e.chars = [' ', '+', ' '].intercalate (e.operands.map chars) ∧
      grouped? e.operands = some e := by
  obtain ⟨e, es, hsum, hes⟩ := concat_eq_sum ps
  rw [List.forall_mem_cons] at hes
  refine ⟨concat ps, ?_, eval_concat rt, ?_, ?_, ?_, chars_eq_operands _, ?_⟩
  · rw [ofValue, ofText, h]
    rfl
  · rintro t rfl
    have hs : renderAll [.plain t] = s.toList := (canonical_of_parse? h).2
    rw [renderAll, List.flatMap_singleton, render] at hs
    rw [concat_plain, hs, String.ofList_toList]
    rfl
  · rintro code rfl
    rfl
  · rw [hsum]
    exact leftNested_sum hes.1.1 hes.2
  · rw [hsum]
    exact grouped?_operands_sum hes.1.2 fun f hf => (hes.2 f hf).2

def arithmetic : Runtime Nat where
  form := toString
  add a b := .other (a + b)
  source code := .other code.length
  rest _ := .other 0

theorem placeholders_join : Interpolation.parse? "$\x7bab\x7d$\x7b c \x7d".toList =
      some [.placeholder ['a', 'b'], .placeholder [' ', 'c', ' ']] ∧
    ∃ e, ofValue .text true (.text "$\x7bab\x7d$\x7b c \x7d") = ⟨e, none⟩ ∧
      e.eval arithmetic = .text "21" ∧ e.leftNested = true ∧ grouped? e.operands = some e := by
  have hfirst : closing? 0 .outside "ab\x7d$\x7b c \x7d".toList =
      some (['a', 'b'], "$\x7b c \x7d".toList) := rfl
  have hsecond : closing? 0 .outside " c \x7d".toList = some ([' ', 'c', ' '], []) := rfl
  have hlast : partsOf? "$\x7b c \x7d".toList = some [.placeholder [' ', 'c', ' ']] := by
    have hmarker := partsOf?_marker hsecond
    rw [partsOf?_nil] at hmarker
    exact hmarker
  have hparse : Interpolation.parse? "$\x7bab\x7d$\x7b c \x7d".toList =
      some [.placeholder ['a', 'b'], .placeholder [' ', 'c', ' ']] := by
    have hmarker := partsOf?_marker hfirst
    rw [hlast] at hmarker
    rw [parse?, if_neg (by decide)]
    exact hmarker
  obtain ⟨e, he, hvalue, -, -, hnested, -, hgrouped⟩ := ofValue_evaluates arithmetic _ _ hparse
  refine ⟨hparse, e, he, ?_, hnested, hgrouped⟩
  rw [hvalue (by decide)]
  rfl

end Coercion
end WidgetMarkup
