import WidgetMarkup.Proofs.Shapes

namespace WidgetMarkup.Expr

variable {a b c : Expr}

theorem equivalent_comm (a b : Expr) : a.equivalent b = b.equivalent a := by
  have hside {a b : Expr} (h : a.equivalent b = true) : b.equivalent a = true := by
    rw [equivalent_iff] at h ⊢
    have hb : b.everywhere isComparable = a.everywhere isComparable := by
      rw [← everywhere_shape, ← h.1, everywhere_shape]
    exact ⟨h.1.symm, hb.trans h.2⟩
  exact Bool.eq_iff_iff.2 ⟨hside, hside⟩

theorem equivalent_trans (hab : a.equivalent b = true) (hbc : b.equivalent c = true) :
    a.equivalent c = true := by
  rw [equivalent_iff] at hab hbc ⊢
  exact ⟨hab.1.trans hbc.1, hab.2⟩

theorem equivalent_self (a : Expr) : a.equivalent a = a.everywhere isComparable := by
  rw [Bool.eq_iff_iff, equivalent_iff]
  exact and_iff_right rfl

theorem code_eq_of_equivalent (h : a.equivalent b = true) : a.code = b.code := by
  rw [code, code, ← chars_shape a, (equivalent_iff a b |>.1 h).1, chars_shape b]

mutual

theorem equivalent_of_same : ∀ a b : Expr, a.same b = true → a.equivalent b = true
  | var _ _, b => by cases b <;> simp +contextual [same, equivalent]
  | prop e _ _, b => by
      have he := equivalent_of_same e
      cases b <;> simp +contextual [same, equivalent, he]
  | call e as _, b => by
      have he := equivalent_of_same e
      have has := equivalentList_of_same as
      cases b <;> simp +contextual [same, equivalent, he, has]
  | literal _ _, b => by cases b <;> simp +contextual [same, equivalent]
  | array es _, b => by
      have hes := equivalentList_of_same es
      cases b <;> simp +contextual [same, equivalent, hes]
  | object es _, b => by
      have hes := equivalentEntries_of_same es
      cases b <;> simp +contextual [same, equivalent, hes]
  | plus l r _, b => by
      have hl := equivalent_of_same l
      have hr := equivalent_of_same r
      cases b <;> simp +contextual [same, equivalent, hl, hr]
  | parens e _, b => by
      have he := equivalent_of_same e
      cases b <;> simp +contextual [same, equivalent, he]
  | raw _ _, b => by cases b <;> simp +contextual [same, equivalent]

theorem equivalentList_of_same : ∀ as bs : List Expr,
    sameList as bs = true → equivalentList as bs = true
  | [], bs => by cases bs <;> simp [sameList, equivalentList]
  | a :: as, bs => by
      have ha := equivalent_of_same a
      have has := equivalentList_of_same as
      cases bs <;> simp +contextual [sameList, equivalentList, ha, has]

theorem equivalentEntries_of_same : ∀ as bs : List (Entry Expr),
    sameEntries as bs = true → equivalentEntries as bs = true
  | [], bs => by cases bs <;> simp [sameEntries, equivalentEntries]
  | ⟨_, a, _⟩ :: as, bs => by
      have ha := equivalent_of_same a
      have has := equivalentEntries_of_same as
      cases bs <;> simp +contextual [sameEntries, equivalentEntries, ha, has]

end

mutual

theorem span_erase : ∀ e : Expr, e.erase.everywhere (fun f => f.span == none) = true
  | var _ _ | literal _ _ | raw _ _ => rfl
  | prop e _ _ => by rw [erase, everywhere, span_erase e]; rfl
  | call e as _ => by rw [erase, everywhere, span_erase e, spans_eraseList as]; rfl
  | array es _ => by rw [erase, everywhere, spans_eraseList es]; rfl
  | object es _ => by rw [erase, everywhere, spans_eraseEntries es]; rfl
  | plus l r _ => by rw [erase, everywhere, span_erase l, span_erase r]; rfl
  | parens e _ => by rw [erase, everywhere, span_erase e]; rfl

theorem spans_eraseList : ∀ es : List Expr,
    everywhereList (fun f => f.span == none) (eraseList es) = true
  | [] => rfl
  | e :: es => by rw [eraseList, everywhereList, span_erase e, spans_eraseList es]; rfl

theorem spans_eraseEntries : ∀ es : List (Entry Expr),
    everywhereEntries (fun f => f.span == none) (eraseEntries es) = true
  | [] => rfl
  | ⟨_, e, _⟩ :: es => by
      rw [eraseEntries, everywhereEntries, span_erase e, spans_eraseEntries es]
      rfl

end

/-- The second expression is the first one with another span on one expression in it. -/
inductive Respanned : Expr → Expr → Prop
  | here (e : Expr) (s : Option Span) : Respanned e (e.withSpan s)
  | receiver {e f : Expr} (h : Respanned e f) (name : String) (s : Option Span) :
      Respanned (prop e name s) (prop f name s)
  | callee {e f : Expr} (h : Respanned e f) (args : List Expr) (s : Option Span) :
      Respanned (call e args s) (call f args s)
  | arg {e f : Expr} (h : Respanned e f) (g : Expr) (as bs : List Expr) (s : Option Span) :
      Respanned (call g (as ++ e :: bs) s) (call g (as ++ f :: bs) s)
  | item {e f : Expr} (h : Respanned e f) (as bs : List Expr) (s : Option Span) :
      Respanned (array (as ++ e :: bs) s) (array (as ++ f :: bs) s)
  | entry {e f : Expr} (h : Respanned e f) (key : String) (quoted : Bool)
      (as bs : List (Entry Expr)) (s : Option Span) :
      Respanned (object (as ++ ⟨key, e, quoted⟩ :: bs) s)
        (object (as ++ ⟨key, f, quoted⟩ :: bs) s)
  | left {e f : Expr} (h : Respanned e f) (r : Expr) (s : Option Span) :
      Respanned (plus e r s) (plus f r s)
  | right {e f : Expr} (h : Respanned e f) (l : Expr) (s : Option Span) :
      Respanned (plus l e s) (plus l f s)
  | inner {e f : Expr} (h : Respanned e f) (s : Option Span) : Respanned (parens e s) (parens f s)

theorem erase_withSpan (e : Expr) (s : Option Span) : (e.withSpan s).erase = e.erase := by
  cases e <;> rfl

theorem eraseList_eq_map (es : List Expr) : eraseList es = es.map erase := by
  induction es with
  | nil => rfl
  | cons e es ih => rw [eraseList, ih, List.map_cons]

theorem eraseEntries_eq_map (es : List (Entry Expr)) :
    eraseEntries es = es.map fun e => ⟨e.key, e.value.erase, e.quoted⟩ := by
  induction es with
  | nil => rfl
  | cons e es ih => rw [eraseEntries, ih, List.map_cons]

theorem Respanned.erase_eq (h : Respanned a b) : b.erase = a.erase := by
  induction h with
  | here e s => exact erase_withSpan e s
  | receiver _ name s ih | callee _ args s ih => rw [erase, erase, ih]
  | arg _ g as bs s ih | item _ as bs s ih =>
      simp only [erase, eraseList_eq_map, List.map_append, List.map_cons, ih]
  | entry _ key quoted as bs s ih =>
      simp only [erase, eraseEntries_eq_map, List.map_append, List.map_cons, ih]
  | left _ r s ih | right _ l s ih | inner _ s ih => rw [erase, erase, ih]

/-- Equivalence is equality of what is left without spans. It is symmetric, transitive, reflexive
just where no part is equal to nothing, wider than equality, blind to a change of any span, and
equivalent expressions are printed alike. -/
theorem equivalent_laws :
    (∀ a b : Expr, a.equivalent b = (a.erase == b.erase)) ∧
      (∀ a : Expr, a.erase.everywhere (fun e => e.span == none) = true) ∧
      (∀ a b : Expr, a.equivalent b = b.equivalent a) ∧
      (∀ a b c : Expr, a.equivalent b = true → b.equivalent c = true → a.equivalent c = true) ∧
      (∀ a : Expr, a.equivalent a = a.everywhere isComparable) ∧
      (∀ a b : Expr, (a == b) = true → a.equivalent b = true) ∧
      (∀ a b : Expr, Respanned a b → ∀ c : Expr, b.equivalent c = a.equivalent c) ∧
      ∀ a b : Expr, a.equivalent b = true → a.code = b.code := by
  refine ⟨equivalent_eq_same, span_erase, equivalent_comm, fun _ _ _ => equivalent_trans,
    equivalent_self, equivalent_of_same, ?_, fun _ _ => code_eq_of_equivalent⟩
  intro a b h c
  rw [equivalent_eq_same, equivalent_eq_same, h.erase_eq]

def plusZero (zero : Double) (span : Option Span) : Expr :=
  .plus (.var "n" span) (.literal (.number zero))

theorem signed_zeros_equivalent :
    let zero := plusZero ⟨0⟩ none
    let negative := plusZero ⟨0x8000000000000000⟩ (some ⟨.start ⟨"", "n"⟩, .start ⟨"", "n"⟩⟩)
    zero.equivalent negative = true ∧ negative.equivalent zero = true ∧
      zero.code = negative.code := by
  intro zero negative
  obtain ⟨-, -, hcomm, htrans, -, hequal, hspan, hcode⟩ := equivalent_laws
  have hzeros : zero.equivalent (plusZero ⟨0x8000000000000000⟩ none) = true := hequal _ _ rfl
  have hself : negative.equivalent negative = true := hequal _ _ rfl
  have hrespan : Respanned negative (plusZero ⟨0x8000000000000000⟩ none) :=
    .left (.here _ none) _ none
  have hmoved : (plusZero ⟨0x8000000000000000⟩ none).equivalent negative = true :=
    (hspan _ _ hrespan negative).trans hself
  have hzero : zero.equivalent negative = true := htrans _ _ _ hzeros hmoved
  exact ⟨hzero, (hcomm _ _).symm.trans hzero, hcode _ _ hzero⟩

end WidgetMarkup.Expr
