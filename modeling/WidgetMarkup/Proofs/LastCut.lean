import WidgetMarkup.Proofs.ReadableCode

namespace WidgetMarkup.Expr

open Text Nesting

variable {e : Expr}

/-- What is printed in front of the last operation of an expression, and from there on. Operations
that are printed with nothing in front of them have their whole text in the second part. -/
def lastCut : Expr → List Char × List Char
  | prop e name _ => (e.chars, propChars name)
  | call e args _ => (e.chars, '(' :: [',', ' '].intercalate (listChars args) ++ [')'])
  | plus l r _ => (l.chars ++ [' '], '+' :: ' ' :: r.chars)
  | e => ([], e.chars)

theorem lastCut_append (e : Expr) : (lastCut e).1 ++ (lastCut e).2 = e.chars := by
  cases e <;> simp [lastCut, chars]

/-- The cut is made before the last character of the class `p` outside brackets and quotes. -/
structure CutAt (p : Char → Bool) (r : List Char × List Char) : Prop where
  level : top.after r.1 = top
  behind : ∃ c s, r.2 = c :: s ∧ p c = true ∧ Free p (top.step c) s

theorem CutAt.unique {p : Char → Bool} {r r' : List Char × List Char} (h : CutAt p r)
    (h' : CutAt p r') (heq : r.1 ++ r.2 = r'.1 ++ r'.2) : r = r' := by
  obtain ⟨c, s, hs, hc, hfree⟩ := h.behind
  obtain ⟨c', s', hs', hc', hfree'⟩ := h'.behind
  rw [hs, hs'] at heq
  obtain ⟨hfirst, hsecond⟩ := last_cut h.level h'.level hfree hfree' hc hc' heq
  exact Prod.ext hfirst (by rw [hs, hs', hsecond])

theorem CutAt.not_free {p : Char → Bool} {r : List Char × List Char} (h : CutAt p r) :
    ¬Free p top (r.1 ++ r.2) := by
  intro hfree
  obtain ⟨c, s, hs, hc, -⟩ := h.behind
  rw [hs] at hfree
  rw [hfree.of_append_cons h.level] at hc
  cases hc

def isMark (c : Char) : Bool := c == '.' || brackets.any fun b => c == b.1

theorem isMark_opening : ∀ b ∈ brackets, isMark b.1 = true := by decide

theorem free_mark_of_isIdentifier {s : List Char} (h : isIdentifier s = true) :
    Free isMark top s := by
  refine avoids_of_forall _ _ (fun c hc => ?_) _
  have hpart := List.all_eq_true.1 (all_isNamePart_of_isIdentifier h) c hc
  rw [← Bool.not_eq_true]
  intro hmark
  simp only [isMark, brackets, List.any_cons, List.any_nil, Bool.or_false, Bool.or_eq_true,
    beq_iff_eq] at hmark
  rcases hmark with rfl | rfl | rfl | rfl <;> exact absurd hpart (by decide)

theorem cutAt_bracketed {b : Char × Char} (hb : b ∈ brackets) {s t : List Char}
    (hs : top.after s = top) (ht : Code t) : CutAt isMark (s, b.1 :: t ++ [b.2]) :=
  ⟨hs, b.1, t ++ [b.2], rfl, isMark_opening b hb, free_behind hb ht⟩

theorem cutAt_propChars {s : List Char} (hs : top.after s = top) (name : String) :
    CutAt isMark (s, propChars name) := by
  rw [propChars]
  split
  case isTrue h => exact ⟨hs, '.', name.toList, rfl, rfl, free_mark_of_isIdentifier h⟩
  case isFalse => exact cutAt_bracketed (b := ('[', ']')) (by decide) hs (.quoted _)

theorem cutAt_sum {l r : Expr} {span : Option Span} (h : (plus l r span).readable = true) :
    CutAt (· == '+') (lastCut (plus l r span)) := by
  rw [readable_plus] at h
  have hspace : top.after [' '] = top := rfl
  have hsign : top.step '+' = top := rfl
  refine ⟨?_, '+', ' ' :: r.chars, rfl, rfl, ?_⟩
  · rw [lastCut, Nesting.after_append, after_chars h.2.1, hspace]
  · rw [hsign]
    refine ⟨fun _ => rfl, ?_⟩
    exact (free_operand r h.2.2 h.1).mono fun c hc => by simp [isSpacing, beq_iff_eq.1 hc]

theorem cutAt_operand (h : e.readable = true) (hsum : e.isSum = false) :
    CutAt isMark (lastCut e) ∨ lastCut e = ([], e.chars) ∧ Free isMark top e.chars := by
  cases e with
  | var name =>
      rw [readable_var] at h
      exact .inr ⟨rfl, free_mark_of_isIdentifier h.1⟩
  | prop e name =>
      rw [readable_prop] at h
      exact .inl (cutAt_propChars (after_chars h.2) name)
  | call e args =>
      rw [readable_call] at h
      exact .inl (cutAt_bracketed (b := ('(', ')')) (by decide) (after_chars h.2.1)
        (code_list_of_readable [',', ' '] (by decide) h.2.2))
  | literal v =>
      have hword : Free isMark top "null".toList ∧ Free isMark top "true".toList ∧
          Free isMark top "false".toList :=
        ⟨free_mark_of_isIdentifier (by decide), free_mark_of_isIdentifier (by decide),
          free_mark_of_isIdentifier (by decide)⟩
      refine .inr ⟨rfl, ?_⟩
      cases v with
      | null => exact hword.1
      | text v => exact free_quoted rfl v.toList
      | bool v => cases v with
        | true => exact hword.2.1
        | false => exact hword.2.2
      | number x => cases h
  | array items =>
      exact .inl (cutAt_bracketed (b := ('[', ']')) (by decide) rfl
        (code_list_of_readable [','] (by decide) h))
  | object entries =>
      exact .inl (cutAt_bracketed (b := ('\x7b', '\x7d')) (by decide) rfl
        (code_entries_of_readable (readable_object.1 h).2))
  | plus l r => cases hsum
  | parens e => exact .inl (cutAt_bracketed (b := ('(', ')')) (by decide) rfl (code_of_readable h))
  | raw code => cases h

theorem isSum_eq_false_iff (h : e.readable = true) :
    e.isSum = false ↔ Free (· == '+') top e.chars := by
  constructor
  · intro hsum
    exact (free_operand e h hsum).mono fun c hc => by simp [isSpacing, beq_iff_eq.1 hc]
  · intro hfree
    cases e with
    | plus l r =>
        rw [← lastCut_append] at hfree
        exact absurd hfree (cutAt_sum h).not_free
    | _ => rfl

/-- The text determines where the last operation of the expression starts. -/
theorem lastCut_eq {a b : Expr} (ha : a.readable = true) (hb : b.readable = true)
    (h : a.chars = b.chars) : lastCut a = lastCut b := by
  have happend : (lastCut a).1 ++ (lastCut a).2 = (lastCut b).1 ++ (lastCut b).2 := by
    rw [lastCut_append, lastCut_append, h]
  have hsum : a.isSum = false ↔ b.isSum = false := by
    rw [isSum_eq_false_iff ha, isSum_eq_false_iff hb, h]
  by_cases hoperand : a.isSum = false
  -- an operand is cut at its last mark, and is a word or a string when it has none
  · rcases cutAt_operand ha hoperand with hcut | ⟨heq, hfree⟩ <;>
      rcases cutAt_operand hb (hsum.1 hoperand) with hcut' | ⟨heq', hfree'⟩
    · exact hcut.unique hcut' happend
    · rw [← h, ← lastCut_append a] at hfree'
      exact absurd hfree' hcut.not_free
    · rw [h, ← lastCut_append b] at hfree
      exact absurd hfree hcut'.not_free
    · rw [heq, heq', h]
  · have hoperand' := mt hsum.2 hoperand
    cases a with
    | plus =>
        cases b with
        | plus => exact (cutAt_sum ha).unique (cutAt_sum hb) happend
        | _ => exact absurd rfl hoperand'
    | _ => exact absurd rfl hoperand

inductive Form
  | var
  | prop
  | call
  | literal
  | array
  | object
  | sum
  | parens
  | raw

def form : Expr → Form
  | var _ _ => .var
  | prop _ _ _ => .prop
  | call _ _ _ => .call
  | literal _ _ => .literal
  | array _ _ => .array
  | object _ _ => .object
  | plus _ _ _ => .sum
  | parens _ _ => .parens
  | raw _ _ => .raw

def Form.ofCut : List Char × List Char → Form
  | ([], '\x22' :: _) => .literal
  | ([], '[' :: _) => .array
  | ([], '\x7b' :: _) => .object
  | ([], '(' :: _) => .parens
  | ([], s) => if s ∈ reserved.map String.toList then .literal else .var
  | (_, '+' :: _) => .sum
  | (_, '(' :: _) => .call
  | _ => .prop

theorem isIdentifier_cons_eq_false {c : Char} (hc : isNameStart c = false) (s : List Char) :
    isIdentifier (c :: s) = false := by rw [isIdentifier, hc, Bool.false_and]

theorem ofCut_word {s : List Char} (h : isIdentifier s = true) :
    Form.ofCut ([], s) = if s ∈ reserved.map String.toList then .literal else .var := by
  have hhead {c : Char} (hc : isNameStart c = false) (t : List Char) : s ≠ c :: t := by
    rintro rfl
    rw [isIdentifier_cons_eq_false hc] at h
    cases h
  rw [Form.ofCut]
  · exact hhead (by decide)
  · exact hhead (by decide)
  · exact hhead (by decide)
  · exact hhead (by decide)

theorem ofCut_lastCut (h : e.readable = true) : Form.ofCut (lastCut e) = e.form := by
  have hcons {e : Expr} (h : e.readable = true) : ∃ c s, e.chars = c :: s :=
    List.exists_cons_of_ne_nil (ne_nil_of_readable h)
  cases e with
  | var name =>
      rw [readable_var] at h
      have hname : name.toList ∉ reserved.map String.toList := by
        intro hmem
        obtain ⟨w, hw, he⟩ := List.mem_map.1 hmem
        exact h.2 (String.toList_inj.1 he ▸ hw)
      exact (ofCut_word h.1).trans (if_neg hname)
  | prop e name =>
      rw [readable_prop] at h
      obtain ⟨c, s, hs⟩ := hcons h.2
      rw [lastCut, hs, propChars]
      split <;> rfl
  | call e args =>
      rw [readable_call] at h
      obtain ⟨c, s, hs⟩ := hcons h.2.1
      rw [lastCut, hs]
      rfl
  | literal v =>
      cases v with
      | bool v => cases v <;> rfl
      | number x => cases h
      | _ => rfl
  | plus l r =>
      rw [readable_plus] at h
      obtain ⟨c, s, hs⟩ := hcons h.2.1
      rw [lastCut, hs]
      rfl
  | raw => cases h
  | _ => rfl

theorem form_eq {a b : Expr} (ha : a.readable = true) (hb : b.readable = true)
    (h : a.chars = b.chars) : a.form = b.form := by
  rw [← ofCut_lastCut ha, ← ofCut_lastCut hb, lastCut_eq ha hb h]

end WidgetMarkup.Expr
