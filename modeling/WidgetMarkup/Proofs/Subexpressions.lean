import WidgetMarkup.Expr

namespace WidgetMarkup.Expr

variable {p q : Expr → Bool}

mutual

/-- Whether `p` holds of the expression and of all the expressions in it. -/
def everywhere (p : Expr → Bool) : Expr → Bool
  | var name span => p (var name span)
  | prop e name span => p (prop e name span) && everywhere p e
  | call e args span => p (call e args span) && everywhere p e && everywhereList p args
  | literal v span => p (literal v span)
  | array items span => p (array items span) && everywhereList p items
  | object entries span => p (object entries span) && everywhereEntries p entries
  | plus l r span => p (plus l r span) && everywhere p l && everywhere p r
  | parens e span => p (parens e span) && everywhere p e
  | raw code span => p (raw code span)

def everywhereList (p : Expr → Bool) : List Expr → Bool
  | [] => true
  | e :: es => everywhere p e && everywhereList p es

def everywhereEntries (p : Expr → Bool) : List (Entry Expr) → Bool
  | [] => true
  | ⟨_, e, _⟩ :: es => everywhere p e && everywhereEntries p es

end

theorem everywhereList_eq_all (es : List Expr) : everywhereList p es = es.all (everywhere p) := by
  induction es with
  | nil => rfl
  | cons e es ih => rw [everywhereList, List.all_cons, ih]

theorem everywhereEntries_eq_all (es : List (Entry Expr)) :
    everywhereEntries p es = es.all fun e => e.value.everywhere p := by
  induction es with
  | nil => rfl
  | cons e es ih => rw [everywhereEntries, List.all_cons, ih]

mutual

theorem everywhere_mono (hpq : ∀ e, p e = true → q e = true) : ∀ e : Expr,
    e.everywhere p = true → e.everywhere q = true
  | var _ _, h => hpq _ h
  | prop e _ _, h => by
      rw [everywhere, Bool.and_eq_true] at h ⊢
      exact ⟨hpq _ h.1, everywhere_mono hpq e h.2⟩
  | call e args _, h => by
      rw [everywhere, Bool.and_eq_true, Bool.and_eq_true] at h ⊢
      exact ⟨⟨hpq _ h.1.1, everywhere_mono hpq e h.1.2⟩, everywhereList_mono hpq args h.2⟩
  | literal _ _, h => hpq _ h
  | array items _, h => by
      rw [everywhere, Bool.and_eq_true] at h ⊢
      exact ⟨hpq _ h.1, everywhereList_mono hpq items h.2⟩
  | object entries _, h => by
      rw [everywhere, Bool.and_eq_true] at h ⊢
      exact ⟨hpq _ h.1, everywhereEntries_mono hpq entries h.2⟩
  | plus l r _, h => by
      rw [everywhere, Bool.and_eq_true, Bool.and_eq_true] at h ⊢
      exact ⟨⟨hpq _ h.1.1, everywhere_mono hpq l h.1.2⟩, everywhere_mono hpq r h.2⟩
  | parens e _, h => by
      rw [everywhere, Bool.and_eq_true] at h ⊢
      exact ⟨hpq _ h.1, everywhere_mono hpq e h.2⟩
  | raw _ _, h => hpq _ h

theorem everywhereList_mono (hpq : ∀ e, p e = true → q e = true) : ∀ es : List Expr,
    everywhereList p es = true → everywhereList q es = true
  | [], _ => rfl
  | e :: es, h => by
      rw [everywhereList, Bool.and_eq_true] at h ⊢
      exact ⟨everywhere_mono hpq e h.1, everywhereList_mono hpq es h.2⟩

theorem everywhereEntries_mono (hpq : ∀ e, p e = true → q e = true) : ∀ es : List (Entry Expr),
    everywhereEntries p es = true → everywhereEntries q es = true
  | [], _ => rfl
  | ⟨_, e, _⟩ :: es, h => by
      rw [everywhereEntries, Bool.and_eq_true] at h ⊢
      exact ⟨everywhere_mono hpq e h.1, everywhereEntries_mono hpq es h.2⟩

end

def isSum : Expr → Bool
  | plus _ _ _ => true
  | _ => false

end WidgetMarkup.Expr
