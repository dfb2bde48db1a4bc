import WidgetMarkup.Expr.Equivalence
import WidgetMarkup.Expr.Printer
import WidgetMarkup.Proofs.Subexpressions

namespace WidgetMarkup

namespace Double

variable {x y : Double}

def unsignedZero (x : Double) : Double := if x.isZero then ⟨0⟩ else x

theorem isZero_zero : isZero ⟨0⟩ = true := by decide

theorem isNaN_of_isZero (h : x.isZero = true) : x.isNaN = false := by
  rw [isZero, Bool.and_eq_true, beq_iff_eq, beq_iff_eq] at h
  rw [isNaN, h.1]
  rfl

theorem isNaN_unsignedZero (x : Double) : x.unsignedZero.isNaN = x.isNaN := by
  rw [unsignedZero]
  split
  case isTrue h => rw [isNaN_of_isZero h, isNaN_of_isZero isZero_zero]
  case isFalse => rfl

theorem unsignedZero_eq_iff : x.unsignedZero = y.unsignedZero ↔
    x = y ∨ x.isZero = true ∧ y.isZero = true := by
  rw [unsignedZero, unsignedZero]
  constructor
  · intro h
    split at h <;> split at h
    case isTrue.isTrue hx hy => exact .inr ⟨hx, hy⟩
    case isTrue.isFalse hx hy => exact absurd (h ▸ isZero_zero) hy
    case isFalse.isTrue hx hy => exact absurd (h ▸ isZero_zero) hx
    case isFalse.isFalse => exact .inl h
  · rintro (rfl | ⟨hx, hy⟩)
    · rfl
    · rw [if_pos hx, if_pos hy]

theorem same_eq_true_iff :
    x.same y = true ↔ x.unsignedZero = y.unsignedZero ∧ x.isNaN = false := by
  have hbits : x.bits = y.bits ↔ x = y := by
    cases x
    cases y
    rw [mk.injEq]
  rw [same, Bool.and_eq_true, Bool.and_eq_true, Bool.not_eq_true', Bool.not_eq_true',
    Bool.or_eq_true, Bool.and_eq_true, beq_iff_eq, hbits, ← unsignedZero_eq_iff]
  constructor
  · rintro ⟨⟨hx, -⟩, h⟩
    exact ⟨h, hx⟩
  · rintro ⟨h, hx⟩
    have hy : y.isNaN = x.isNaN := by rw [← isNaN_unsignedZero, ← h, isNaN_unsignedZero]
    exact ⟨⟨hx, hy.trans hx⟩, h⟩

theorem integer?_of_isZero (h : x.isZero = true) : x.integer? = some 0 := by
  rw [isZero, Bool.and_eq_true, beq_iff_eq, beq_iff_eq] at h
  have hfinite : x.isFinite = true := by rw [isFinite, h.1]; rfl
  have hexponent : ¬0 ≤ x.exponent := by rw [exponent, h.1]; decide
  have hsignificand : x.significand = 0 := by rw [significand, if_pos h.1, h.2]
  have hsigned : x.signed 0 = 0 := by rw [signed]; split <;> rfl
  rw [integer?, hfinite, if_neg (by decide), if_neg hexponent, hsignificand]
  simp [hsigned]

theorem code_unsignedZero (x : Double) : x.unsignedZero.code = x.code := by
  rw [unsignedZero]
  split
  case isTrue h => rw [code, code, integer?_of_isZero h, integer?_of_isZero isZero_zero]
  case isFalse => rfl

end Double

namespace Literal

def unsignedZero : Literal → Literal
  | number x => number x.unsignedZero
  | v => v

def isNaN : Literal → Bool
  | number x => x.isNaN
  | _ => false

theorem same_eq_true_iff {v w : Literal} :
    v.same w = true ↔ v.unsignedZero = w.unsignedZero ∧ v.isNaN = false := by
  cases v <;> cases w <;> simp [same, unsignedZero, isNaN, Double.same_eq_true_iff]

theorem isNaN_unsignedZero (v : Literal) : v.unsignedZero.isNaN = v.isNaN := by
  cases v with
  | number x => exact x.isNaN_unsignedZero
  | _ => rfl

theorem chars_unsignedZero (v : Literal) : v.unsignedZero.chars = v.chars := by
  cases v with
  | number x => rw [unsignedZero, chars, chars, x.code_unsignedZero]
  | _ => rfl

end Literal

namespace Expr

mutual

/-- What equivalence sees of an expression: neither spans nor the sign of a zero. -/
def shape : Expr → Expr
  | var n _ => var n
  | prop e n _ => prop (shape e) n
  | call e as _ => call (shape e) (shapeList as)
  | literal v _ => literal v.unsignedZero
  | array es _ => array (shapeList es)
  | object es _ => object (shapeEntries es)
  | plus e f _ => plus (shape e) (shape f)
  | parens e _ => parens (shape e)
  | raw c _ => raw c

def shapeList : List Expr → List Expr
  | [] => []
  | e :: es => shape e :: shapeList es

def shapeEntries : List (Entry Expr) → List (Entry Expr)
  | [] => []
  | ⟨k, e, q⟩ :: es => ⟨k, shape e, q⟩ :: shapeEntries es

end

/-- The number that is equal to nothing is no literal here. -/
def isComparable : Expr → Bool
  | literal v _ => !v.isNaN
  | _ => true

mutual

theorem equivalent_eq_same : ∀ a b : Expr, a.equivalent b = a.erase.same b.erase
  | var _ _, b => by cases b <;> simp [equivalent, erase, same]
  | prop e _ _, b => by
      cases b <;> simp [equivalent, erase, same, equivalent_eq_same e, Bool.and_comm]
  | call e as _, b => by
      cases b <;> simp [equivalent, erase, same, equivalent_eq_same e, equivalentList_eq_same as]
  | literal _ _, b => by cases b <;> simp [equivalent, erase, same]
  | array es _, b => by cases b <;> simp [equivalent, erase, same, equivalentList_eq_same es]
  | object es _, b => by cases b <;> simp [equivalent, erase, same, equivalentEntries_eq_same es]
  | plus l r _, b => by
      cases b <;> simp [equivalent, erase, same, equivalent_eq_same l, equivalent_eq_same r]
  | parens e _, b => by cases b <;> simp [equivalent, erase, same, equivalent_eq_same e]
  | raw _ _, b => by cases b <;> simp [equivalent, erase, same]

theorem equivalentList_eq_same : ∀ as bs : List Expr,
    equivalentList as bs = sameList (eraseList as) (eraseList bs)
  | [], bs => by cases bs <;> rfl
  | a :: as, bs => by
      cases bs <;> simp [equivalentList, eraseList, sameList, equivalent_eq_same a,
        equivalentList_eq_same as]

theorem equivalentEntries_eq_same : ∀ as bs : List (Entry Expr),
    equivalentEntries as bs = sameEntries (eraseEntries as) (eraseEntries bs)
  | [], bs => by cases bs <;> rfl
  | ⟨_, a, _⟩ :: as, bs => by
      cases bs <;> simp [equivalentEntries, eraseEntries, sameEntries, equivalent_eq_same a,
        equivalentEntries_eq_same as, Bool.and_assoc, Bool.and_left_comm]

end

mutual

/-- An expression is equivalent to those of its shape, unless it holds what is equal to nothing. -/
theorem equivalent_iff : ∀ a b : Expr,
    a.equivalent b = true ↔ a.shape = b.shape ∧ a.everywhere isComparable = true
  | var _ _, b => by cases b <;> simp [equivalent, shape, everywhere, isComparable]
  | prop e _ _, b => by
      cases b <;> simp [equivalent, shape, everywhere, isComparable, equivalent_iff e, and_assoc,
        and_left_comm]
  | call e as _, b => by
      cases b <;> simp [equivalent, shape, everywhere, isComparable, equivalent_iff e,
        equivalentList_iff as, and_assoc, and_left_comm]
  | literal _ _, b => by
      cases b <;> simp [equivalent, shape, everywhere, isComparable, Literal.same_eq_true_iff]
  | array es _, b => by
      cases b <;> simp [equivalent, shape, everywhere, isComparable, equivalentList_iff es]
  | object es _, b => by
      cases b <;> simp [equivalent, shape, everywhere, isComparable, equivalentEntries_iff es]
  | plus l r _, b => by
      cases b <;> simp [equivalent, shape, everywhere, isComparable, equivalent_iff l,
        equivalent_iff r, and_assoc, and_left_comm]
  | parens e _, b => by
      cases b <;> simp [equivalent, shape, everywhere, isComparable, equivalent_iff e]
  | raw _ _, b => by cases b <;> simp [equivalent, shape, everywhere, isComparable]

theorem equivalentList_iff : ∀ as bs : List Expr, equivalentList as bs = true ↔
    shapeList as = shapeList bs ∧ everywhereList isComparable as = true
  | [], bs => by cases bs <;> simp [equivalentList, shapeList, everywhereList]
  | a :: as, bs => by
      cases bs <;> simp [equivalentList, shapeList, everywhereList, equivalent_iff a,
        equivalentList_iff as, and_assoc, and_left_comm]

theorem equivalentEntries_iff : ∀ as bs : List (Entry Expr), equivalentEntries as bs = true ↔
    shapeEntries as = shapeEntries bs ∧ everywhereEntries isComparable as = true
  | [], bs => by cases bs <;> simp [equivalentEntries, shapeEntries, everywhereEntries]
  | ⟨_, a, _⟩ :: as, bs => by
      cases bs <;> simp [equivalentEntries, shapeEntries, everywhereEntries, equivalent_iff a,
        equivalentEntries_iff as, and_assoc, and_comm, and_left_comm]

end

mutual

theorem everywhere_shape : ∀ e : Expr,
    e.shape.everywhere isComparable = e.everywhere isComparable
  | var _ _ => rfl
  | prop e _ _ => by rw [shape, everywhere, everywhere, everywhere_shape e]; rfl
  | call e as _ => by
      rw [shape, everywhere, everywhere, everywhere_shape e, everywhereList_shape as]
      rfl
  | literal v _ => congrArg (!·) v.isNaN_unsignedZero
  | array es _ => by rw [shape, everywhere, everywhere, everywhereList_shape es]; rfl
  | object es _ => by rw [shape, everywhere, everywhere, everywhereEntries_shape es]; rfl
  | plus l r _ => by
      rw [shape, everywhere, everywhere, everywhere_shape l, everywhere_shape r]
      rfl
  | parens e _ => by rw [shape, everywhere, everywhere, everywhere_shape e]; rfl
  | raw _ _ => rfl

theorem everywhereList_shape : ∀ es : List Expr,
    everywhereList isComparable (shapeList es) = everywhereList isComparable es
  | [] => rfl
  | e :: es => by
      rw [shapeList, everywhereList, everywhereList, everywhere_shape e, everywhereList_shape es]

theorem everywhereEntries_shape : ∀ es : List (Entry Expr),
    everywhereEntries isComparable (shapeEntries es) = everywhereEntries isComparable es
  | [] => rfl
  | ⟨_, e, _⟩ :: es => by
      rw [shapeEntries, everywhereEntries, everywhereEntries, everywhere_shape e,
        everywhereEntries_shape es]

end

mutual

theorem chars_shape : ∀ e : Expr, e.shape.chars = e.chars
  | var _ _ => rfl
  | prop e _ _ => by rw [shape, chars, chars, chars_shape e]
  | call e as _ => by rw [shape, chars, chars, chars_shape e, listChars_shape as]
  | literal v _ => v.chars_unsignedZero
  | array es _ => by rw [shape, chars, chars, listChars_shape es]
  | object es _ => by rw [shape, chars, chars, entriesChars_shape es]
  | plus l r _ => by rw [shape, chars, chars, chars_shape l, chars_shape r]
  | parens e _ => by rw [shape, chars, chars, chars_shape e]
  | raw _ _ => rfl

theorem listChars_shape : ∀ es : List Expr, listChars (shapeList es) = listChars es
  | [] => rfl
  | e :: es => by rw [shapeList, listChars, listChars, chars_shape e, listChars_shape es]

theorem entriesChars_shape : ∀ es : List (Entry Expr),
    entriesChars (shapeEntries es) = entriesChars es
  | [] => rfl
  | ⟨_, e, _⟩ :: es => by
      rw [shapeEntries, entriesChars, entriesChars, chars_shape e, entriesChars_shape es]

end

end Expr
end WidgetMarkup
