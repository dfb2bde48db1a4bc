import WidgetMarkup.Proofs.Nesting
import WidgetMarkup.Proofs.PrintedCode

namespace WidgetMarkup.Expr

open Text Nesting

def reserved : List String := ["null", "true", "false"]

/-- Sums are printed without brackets, so they stand neither on the right of a sum nor in front of
a property or a call. A key may stand without quotes when it is an identifier. -/
def isReadable : Expr → Bool
  | var name _ => isIdentifier name.toList && name ∉ reserved
  | prop e _ _ | call e _ _ => !e.isSum
  | literal (.number _) _ | raw _ _ => false
  | object entries _ => entries.all fun e => e.quoted || isIdentifier e.key.toList
  | plus _ r _ => !r.isSum
  | _ => true

def readable (e : Expr) : Bool := e.everywhere isReadable

theorem isWellNamed_of_isReadable (e : Expr) (h : isReadable e = true) : isWellNamed e = true := by
  cases e with
  | var name =>
      rw [isReadable, Bool.and_eq_true] at h
      exact h.1
  | raw code => cases h
  | _ => rfl

section Inversion

variable {e l r : Expr} {name : String} {span : Option Span} {args : List Expr}
  {entries : List (Entry Expr)}

theorem readable_var : (var name span).readable = true ↔
    isIdentifier name.toList = true ∧ name ∉ reserved := by
  rw [readable, everywhere, isReadable, Bool.and_eq_true, decide_eq_true_iff]

theorem readable_prop : (prop e name span).readable = true ↔
    e.isSum = false ∧ e.readable = true := by
  rw [readable, everywhere, isReadable, Bool.and_eq_true, Bool.not_eq_true', readable]

theorem readable_call : (call e args span).readable = true ↔
    e.isSum = false ∧ e.readable = true ∧ everywhereList isReadable args = true := by
  rw [readable, everywhere, isReadable, Bool.and_eq_true, Bool.and_eq_true, Bool.not_eq_true',
    and_assoc, readable]

theorem readable_object : (object entries span).readable = true ↔
    (∀ e ∈ entries, (e.quoted || isIdentifier e.key.toList) = true) ∧
      everywhereEntries isReadable entries = true := by
  rw [readable, everywhere, isReadable, Bool.and_eq_true, List.all_eq_true]

theorem readable_plus : (plus l r span).readable = true ↔
    r.isSum = false ∧ l.readable = true ∧ r.readable = true := by
  rw [readable, everywhere, isReadable, Bool.and_eq_true, Bool.and_eq_true, Bool.not_eq_true',
    and_assoc, readable, readable]

end Inversion

variable {e : Expr}

theorem code_of_readable (h : e.readable = true) : Code e.chars :=
  code_chars e (everywhere_mono isWellNamed_of_isReadable e h)

theorem ne_nil_of_readable (h : e.readable = true) : e.chars ≠ [] :=
  (edged_chars e (everywhere_mono isWellNamed_of_isReadable e h)).ne_nil

def isSpacing (c : Char) : Bool := c == ' ' || c == '+' || c == ',' || c == ':'

theorem isSpacing_of_isNumeral {c : Char} (h : Double.isNumeral c = true) : isSpacing c = false := by
  rw [← Bool.not_eq_true]
  intro hs
  simp only [isSpacing, Bool.or_eq_true, beq_iff_eq] at hs
  rcases hs with ((rfl | rfl) | rfl) | rfl <;> exact absurd h (by decide)

theorem free_of_all_isNumeral {s : List Char} (h : s.all Double.isNumeral = true) :
    Free isSpacing top s :=
  avoids_of_forall _ _ (fun c hc => isSpacing_of_isNumeral (List.all_eq_true.1 h c hc)) _

theorem free_propChars (name : String) : Free isSpacing top (propChars name) := by
  rw [propChars]
  split
  case isTrue h =>
    refine free_of_all_isNumeral ?_
    rw [List.all_cons, all_isNumeral_of_isIdentifier h]
    rfl
  case isFalse => exact free_bracketed (b := ('[', ']')) (by decide) rfl (.quoted _)

theorem free_literal {v : Literal} : Free isSpacing top v.chars := by
  cases v with
  | null => exact free_of_all_isNumeral (by decide)
  | text v => exact free_quoted rfl v.toList
  | bool v => cases v <;> exact free_of_all_isNumeral (by decide)
  | number x => exact free_of_all_isNumeral x.numeral_code.all

theorem after_chars (h : e.readable = true) : top.after e.chars = top :=
  after_of_code (code_of_readable h)

theorem code_list_of_readable (sep : List Char) (hsep : sep.all isPlain = true) {es : List Expr}
    (h : everywhereList isReadable es = true) : Code (sep.intercalate (listChars es)) :=
  code_list sep hsep (code_listChars es (everywhereList_mono isWellNamed_of_isReadable es h))

theorem code_entries_of_readable {es : List (Entry Expr)}
    (h : everywhereEntries isReadable es = true) : Code ([',', ' '].intercalate (entriesChars es)) :=
  code_list _ (by decide) (code_entriesChars es (everywhereEntries_mono isWellNamed_of_isReadable es h))

theorem free_operand : ∀ e : Expr, e.readable = true → e.isSum = false →
    Free isSpacing top e.chars
  | var _ _, h, _ => by
      rw [readable_var] at h
      exact free_of_all_isNumeral (all_isNumeral_of_isIdentifier h.1)
  | prop e name _, h, _ => by
      rw [readable_prop] at h
      refine (avoids_append _ _).2 ⟨free_operand e h.2 h.1, ?_⟩
      rw [← Nesting.after, after_chars h.2]
      exact free_propChars name
  | call e args _, h, _ => by
      rw [readable_call] at h
      have hargs := code_list_of_readable [',', ' '] (by decide) h.2.2
      rw [chars, List.append_assoc]
      refine (avoids_append _ _).2 ⟨free_operand e h.2.1 h.1, ?_⟩
      rw [← Nesting.after, after_chars h.2.1]
      exact free_bracketed (b := ('(', ')')) (by decide) rfl hargs
  | literal _ _, _, _ => free_literal
  | array _ _, h, _ =>
      free_bracketed (b := ('[', ']')) (by decide) rfl (code_list_of_readable [','] (by decide) h)
  | object _ _, h, _ =>
      free_bracketed (b := ('\x7b', '\x7d')) (by decide) rfl
        (code_entries_of_readable (readable_object.1 h).2)
  | parens _ _, h, _ => free_bracketed (b := ('(', ')')) (by decide) rfl (code_of_readable h)

theorem free_comma : ∀ e : Expr, e.readable = true → Free (· == ',') top e.chars
  | plus l r _, h => by
      -- the sign stands outside brackets, so this is less than what operands keep
      rw [readable_plus] at h
      have hsign : Free (· == ',') top [' ', '+', ' '] := avoids_of_forall _ _ (by simp) _
      have hafter : top.after [' ', '+', ' '] = top := rfl
      refine (avoids_append _ _).2 ⟨(avoids_append _ _).2 ⟨free_comma l h.2.1, ?_⟩, ?_⟩
      · rw [← Nesting.after, after_chars h.2.1]
        exact hsign
      · rw [← Nesting.after, Nesting.after_append, after_chars h.2.1, hafter]
        exact free_comma r h.2.2
  | var _ _, h | prop _ _ _, h | call _ _ _, h | literal _ _, h | array _ _, h | object _ _, h
  | parens _ _, h => (free_operand _ h rfl).mono fun c hc => by simp [isSpacing, beq_iff_eq.1 hc]

theorem keyChars_of_readable {key : String} {quoted : Bool}
    (h : (quoted || isIdentifier key.toList) = true) :
    keyChars key quoted = if quoted then Json.quoted key.toList else key.toList := by
  cases quoted with
  | true => rfl
  | false =>
      rw [Bool.false_or] at h
      rw [keyChars, h]
      rfl

/-- A text that can be told apart in a list with commas. -/
structure Item (s : List Char) : Prop where
  nonempty : s ≠ []
  level : top.after s = top
  free : Free (· == ',') top s

theorem Item.ne_append {s t u : List Char} (hs : Item s) (ht : Item t) : s ≠ t ++ ',' :: u := by
  intro h
  have hfree := hs.free
  rw [h] at hfree
  exact absurd (hfree.of_append_cons ht.level) (by decide)

theorem free_keyChars {key : String} {quoted : Bool}
    (h : (quoted || isIdentifier key.toList) = true) : Free isSpacing top (keyChars key quoted) := by
  rw [keyChars_of_readable h]
  cases quoted with
  | true => exact free_quoted rfl _
  | false => exact free_of_all_isNumeral (all_isNumeral_of_isIdentifier h)

theorem item_chars (h : e.readable = true) : Item e.chars :=
  ⟨ne_nil_of_readable h, after_chars h, free_comma e h⟩

theorem item_listChars : ∀ es : List Expr, everywhereList isReadable es = true →
    ∀ s ∈ listChars es, Item s
  | [], _ => by simp [listChars]
  | e :: es, h => by
      rw [everywhereList, Bool.and_eq_true] at h
      rw [listChars, List.forall_mem_cons]
      exact ⟨item_chars h.1, item_listChars es h.2⟩

theorem after_key (key : String) (quoted : Bool) : top.after (keyChars key quoted) = top :=
  after_of_code (code_keyChars key quoted)

theorem item_entriesChars : ∀ es : List (Entry Expr),
    (∀ e ∈ es, (e.quoted || isIdentifier e.key.toList) = true) →
    everywhereEntries isReadable es = true → ∀ s ∈ entriesChars es, Item s
  | [], _, _ => by simp [entriesChars]
  | ⟨key, e, quoted⟩ :: es, hkeys, h => by
      rw [List.forall_mem_cons] at hkeys
      rw [everywhereEntries, Bool.and_eq_true] at h
      rw [entriesChars, List.forall_mem_cons]
      have he := item_chars h.1
      have hcolon : top.after [':', ' '] = top := rfl
      have hkey : top.after (keyChars key quoted ++ [':', ' ']) = top := by
        rw [Nesting.after_append, after_key, hcolon]
      refine ⟨⟨?_, ?_, ?_⟩, item_entriesChars es hkeys.2 h.2⟩
      · exact List.append_ne_nil_of_right_ne_nil _ he.nonempty
      · rw [Nesting.after_append, hkey, he.level]
      · refine (avoids_append _ _).2 ⟨(avoids_append _ _).2 ⟨?_, ?_⟩, ?_⟩
        · exact (free_keyChars hkeys.1).mono fun c hc => by simp [isSpacing, beq_iff_eq.1 hc]
        · exact avoids_of_forall _ _ (by simp) _
        · rw [← Nesting.after, hkey]
          exact he.free

end WidgetMarkup.Expr
