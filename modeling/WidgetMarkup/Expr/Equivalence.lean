import WidgetMarkup.Expr

namespace WidgetMarkup

def Literal.same : Literal → Literal → Bool
  | null, null => true
  | text v, text w => v == w
  | bool v, bool w => v == w
  | number v, number w => v.same w
  | _, _ => false

namespace Expr

mutual

/-- Equality of all parts, spans included. -/
def same : Expr → Expr → Bool
  | var n s, var m t => n == m && s == t
  | prop e n s, prop f m t => same e f && n == m && s == t
  | call e as s, call f bs t => same e f && sameList as bs && s == t
  | literal v s, literal w t => v.same w && s == t
  | array es s, array fs t => sameList es fs && s == t
  | object es s, object fs t => sameEntries es fs && s == t
  | plus e f s, plus g h t => same e g && same f h && s == t
  | parens e s, parens f t => same e f && s == t
  | raw c s, raw d t => c == d && s == t
  | _, _ => false

def sameList : List Expr → List Expr → Bool
  | [], [] => true
  | e :: es, f :: fs => same e f && sameList es fs
  | _, _ => false

def sameEntries : List (Entry Expr) → List (Entry Expr) → Bool
  | [], [] => true
  | ⟨k, e, p⟩ :: es, ⟨l, f, q⟩ :: fs => k == l && same e f && p == q && sameEntries es fs
  | _, _ => false

end

mutual

/-- Equality up to spans. -/
def equivalent : Expr → Expr → Bool
  | var n _, var m _ => n == m
  | prop e n _, prop f m _ => n == m && equivalent e f
  | call e as _, call f bs _ => equivalent e f && equivalentList as bs
  | literal v _, literal w _ => v.same w
  | array es _, array fs _ => equivalentList es fs
  | object es _, object fs _ => equivalentEntries es fs
  | plus e f _, plus g h _ => equivalent e g && equivalent f h
  | parens e _, parens f _ => equivalent e f
  | raw c _, raw d _ => c == d
  | _, _ => false

def equivalentList : List Expr → List Expr → Bool
  | [], [] => true
  | e :: es, f :: fs => equivalent e f && equivalentList es fs
  | _, _ => false

def equivalentEntries : List (Entry Expr) → List (Entry Expr) → Bool
  | [], [] => true
  | ⟨k, e, p⟩ :: es, ⟨l, f, q⟩ :: fs =>
    k == l && p == q && equivalent e f && equivalentEntries es fs
  | _, _ => false

end

mutual

/-- The expression with all its spans cleared. -/
def erase : Expr → Expr
  | var n _ => var n
  | prop e n _ => prop (erase e) n
  | call e as _ => call (erase e) (eraseList as)
  | literal v _ => literal v
  | array es _ => array (eraseList es)
  | object es _ => object (eraseEntries es)
  | plus e f _ => plus (erase e) (erase f)
  | parens e _ => parens (erase e)
  | raw c _ => raw c

def eraseList : List Expr → List Expr
  | [] => []
  | e :: es => erase e :: eraseList es

def eraseEntries : List (Entry Expr) → List (Entry Expr)
  | [] => []
  | ⟨k, e, q⟩ :: es => ⟨k, erase e, q⟩ :: eraseEntries es

end

instance : BEq Expr := ⟨same⟩

end Expr
end WidgetMarkup
