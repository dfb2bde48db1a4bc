import Mathlib.Data.List.Basic
import WidgetMarkup.Expr.Printer
import WidgetMarkup.Proofs.CodeText
import WidgetMarkup.Proofs.Subexpressions
import WidgetMarkup.Proofs.Trimming

namespace WidgetMarkup

open Text

namespace Double

def isNumeral (c : Char) : Bool := isNamePart c || c == '.'

/-- What printed numbers have in common, also those that are no numerals such as `NaN`. -/
structure Numeral (s : String) : Prop where
  nonempty : s.toList ≠ []
  all : s.toList.all isNumeral = true

theorem isNumeral_of_isNamePart {c : Char} (h : isNamePart c = true) : isNumeral c = true := by
  rw [isNumeral, h, Bool.true_or]

theorem Numeral.append {s t : String} (hs : Numeral s) (ht : t.toList.all isNumeral = true) :
    Numeral (s ++ t) := by
  constructor
  · rw [String.toList_append]
    exact List.append_ne_nil_of_left_ne_nil hs.nonempty _
  · rw [String.toList_append, List.all_append, hs.all, ht]
    rfl

theorem numeral_toString (n : Nat) : Numeral (toString n) := by
  rw [Nat.toString_eq_ofList_toDigits]
  constructor
  · rw [String.toList_ofList]
    exact Nat.toDigits_ne_nil
  · rw [String.toList_ofList, List.all_eq_true]
    intro c hc
    have hdigit := Nat.isDigit_of_mem_toDigits (by decide) (by decide) hc
    exact isNumeral_of_isNamePart (by rw [isNamePart, hdigit, Bool.or_true, Bool.true_or])

theorem numeral_toString_int (n : Int) : Numeral (toString n) := by
  cases n with
  | ofNat n => exact numeral_toString n
  | negSucc n =>
      have hsign : Numeral "-" := ⟨by decide, by decide⟩
      exact hsign.append (numeral_toString (n + 1)).all

theorem numeral_positional (n places : Nat) : Numeral (positional n places) := by
  have hzeros (k : Nat) : (String.ofList (List.replicate k '0')).toList.all isNumeral = true := by
    rw [String.toList_ofList, List.all_replicate]
    cases k <;> rfl
  exact (((numeral_toString _).append (by decide)).append (hzeros _)).append
    (numeral_toString _).all

theorem numeral_code (x : Double) : Numeral x.code := by
  rw [code]
  split
  case h_1 n _ => exact numeral_toString_int (clamp64 n)
  case h_2 =>
    split
    case isTrue => exact ⟨by decide, by decide⟩
    case isFalse =>
      have hmagnitude : Numeral (if x.isFinite then x.shortest else "inf") := by
        split
        case isTrue => exact numeral_positional _ _
        case isFalse => exact ⟨by decide, by decide⟩
      cases x.negative with
      | false =>
          have hsign : "" ++ (if x.isFinite then x.shortest else "inf") =
              if x.isFinite then x.shortest else "inf" := String.empty_append
          simpa only [Bool.false_eq_true, if_false, hsign] using hmagnitude
      | true =>
          have hsign : Numeral "-" := ⟨by decide, by decide⟩
          exact hsign.append hmagnitude.all

end Double

namespace Text

def isEdge (c : Char) : Bool :=
  Double.isNumeral c || c == '\x22' || brackets.any fun b => c == b.1 || c == b.2

structure Edged (s : List Char) : Prop where
  head : ∃ c ∈ s.head?, isEdge c = true
  last : ∃ c ∈ s.getLast?, isEdge c = true

variable {s t : List Char}

theorem isEdge_of_isNumeral {c : Char} (h : Double.isNumeral c = true) : isEdge c = true := by
  rw [isEdge, h, Bool.true_or, Bool.true_or]

theorem isBlank_of_isEdge {c : Char} (h : isEdge c = true) : isBlank c = false := by
  simp only [isEdge, Double.isNumeral, brackets, List.any_cons, List.any_nil, Bool.or_false,
    Bool.or_eq_true, beq_iff_eq] at h
  rcases h with ((h | rfl) | rfl) | (rfl | rfl) | (rfl | rfl) | rfl | rfl
  · exact isBlank_of_isNamePart h
  all_goals decide

theorem Edged.append (hs : Edged s) (u : List Char) (ht : Edged t) : Edged (s ++ u ++ t) := by
  obtain ⟨c, hc, hhead⟩ := hs.head
  obtain ⟨d, hd, hlast⟩ := ht.last
  constructor
  · rw [List.append_assoc]
    exact ⟨c, List.mem_head?_append_of_mem_head? hc, hhead⟩
  · exact ⟨d, List.mem_getLast?_append_of_mem_getLast? hd, hlast⟩

theorem edged_of_all_isNumeral (hne : s ≠ []) (h : s.all Double.isNumeral = true) : Edged s := by
  have hedge : ∀ c ∈ s, isEdge c = true := fun c hc =>
    isEdge_of_isNumeral (List.all_eq_true.1 h c hc)
  constructor
  · exact ⟨s.head hne, List.head?_eq_some_head hne, hedge _ (List.head_mem hne)⟩
  · exact ⟨s.getLast hne, List.getLast?_eq_some_getLast hne, hedge _ (List.getLast_mem hne)⟩

theorem edged_enclosed {l r : Char} (hl : isEdge l = true) (hr : isEdge r = true)
    (s : List Char) : Edged (l :: s ++ [r]) :=
  ⟨⟨l, rfl, hl⟩, ⟨r, List.mem_getLast?_append_of_mem_getLast? rfl, hr⟩⟩

theorem Edged.trimmed (h : Edged s) : Trimmed s := by
  obtain ⟨c, hc, hhead⟩ := h.head
  obtain ⟨d, hd, hlast⟩ := h.last
  constructor
  · rw [Option.mem_def.1 hc]
    exact isBlank_of_isEdge hhead
  · rw [Option.mem_def.1 hd]
    exact isBlank_of_isEdge hlast

theorem Edged.ne_nil (h : Edged s) : s ≠ [] := by
  rintro rfl
  obtain ⟨c, hc, -⟩ := h.head
  cases hc

theorem Edged.head?_ne (h : Edged s) {c : Char} (hc : isEdge c = false) : s.head? ≠ some c := by
  intro he
  obtain ⟨d, hd, hedge⟩ := h.head
  rw [Option.mem_def.1 hd, Option.some.injEq] at he
  rw [he, hc] at hedge
  cases hedge

end Text

namespace Expr

def isWellNamed : Expr → Bool
  | var name _ => isIdentifier name.toList
  | raw _ _ => false
  | _ => true

/-- All variables are identifiers and no part is source taken over as it was written. -/
def wellNamed (e : Expr) : Bool := e.everywhere isWellNamed

theorem all_isNamePart_of_isIdentifier {s : List Char} (h : isIdentifier s = true) :
    s.all isNamePart = true := by
  cases s with
  | nil => cases h
  | cons c s =>
      rw [isIdentifier, Bool.and_eq_true, List.all_eq_true] at h
      rw [List.all_cons, isNamePart_of_isNameStart h.1, Bool.true_and, List.all_eq_true]
      intro d hd
      rw [isNamePart, h.2 d hd, Bool.true_or]

theorem isPlain_of_isNumeral {c : Char} : Double.isNumeral c = true → isPlain c = true :=
  isPlain_of_class (by decide)

theorem code_of_all_isNumeral {s : List Char} (h : s.all Double.isNumeral = true) : Code s := by
  rw [List.all_eq_true] at h
  exact .of_all_isPlain (List.all_eq_true.2 fun c hc => isPlain_of_isNumeral (h c hc))

theorem all_isNumeral_of_isIdentifier {s : List Char} (h : isIdentifier s = true) :
    s.all Double.isNumeral = true := by
  have hpart := List.all_eq_true.1 (all_isNamePart_of_isIdentifier h)
  exact List.all_eq_true.2 fun c hc => Double.isNumeral_of_isNamePart (hpart c hc)

theorem code_of_isIdentifier {s : List Char} (h : isIdentifier s = true) : Code s :=
  code_of_all_isNumeral (all_isNumeral_of_isIdentifier h)

theorem code_literal (v : Literal) : Code v.chars := by
  cases v with
  | null => exact .of_all_isPlain (by decide)
  | text v => exact .quoted v.toList
  | bool v => cases v <;> exact .of_all_isPlain (by decide)
  | number x => exact code_of_all_isNumeral x.numeral_code.all

theorem code_propChars (name : String) : Code (propChars name) := by
  rw [propChars]
  split
  case isTrue h => exact .plain (by decide) (code_of_isIdentifier h)
  case isFalse => exact .bracketed (b := ('[', ']')) (by decide) (.quoted _)

theorem code_keyChars (key : String) (quoted : Bool) : Code (keyChars key quoted) := by
  rw [keyChars]
  split
  case isTrue => exact .quoted _
  case isFalse h =>
    rw [Bool.or_eq_true, not_or, Bool.not_eq_true', Bool.not_eq_false] at h
    exact code_of_isIdentifier h.2

theorem code_list (sep : List Char) (hsep : sep.all isPlain = true) {ts : List (List Char)}
    (hts : ∀ s ∈ ts, Code s) : Code (sep.intercalate ts) :=
  .intercalate (.of_all_isPlain hsep) hts

mutual

/-- What is printed is code: no name, key or text in it can open or close anything. -/
theorem code_chars : ∀ e : Expr, e.wellNamed = true → Code e.chars
  | var _ _, h => code_of_isIdentifier h
  | prop e name _, h => (code_chars e h).append (code_propChars name)
  | call e args _, h => by
      rw [wellNamed, everywhere, Bool.and_eq_true, Bool.and_eq_true] at h
      have hargs := code_list [',', ' '] (by decide) (code_listChars args h.2)
      rw [chars, List.append_assoc]
      exact (code_chars e h.1.2).append (hargs.bracketed (b := ('(', ')')) (by decide))
  | literal v _, _ => code_literal v
  | array items _, h =>
      have hitems := code_list [','] (by decide) (code_listChars items h)
      hitems.bracketed (b := ('[', ']')) (by decide)
  | object entries _, h =>
      have hentries := code_list [',', ' '] (by decide) (code_entriesChars entries h)
      hentries.bracketed (b := ('\x7b', '\x7d')) (by decide)
  | plus l r _, h => by
      rw [wellNamed, everywhere, Bool.and_eq_true, Bool.and_eq_true] at h
      have hsign : Code [' ', '+', ' '] := .of_all_isPlain (by decide)
      exact ((code_chars l h.1.2).append hsign).append (code_chars r h.2)
  | parens e _, h => .bracketed (b := ('(', ')')) (by decide) (code_chars e h)

theorem code_listChars : ∀ es : List Expr, everywhereList isWellNamed es = true →
    ∀ s ∈ listChars es, Code s
  | [], _ => by simp [listChars]
  | e :: es, h => by
      rw [everywhereList, Bool.and_eq_true] at h
      rw [listChars, List.forall_mem_cons]
      exact ⟨code_chars e h.1, code_listChars es h.2⟩

theorem code_entriesChars : ∀ es : List (Entry Expr), everywhereEntries isWellNamed es = true →
    ∀ s ∈ entriesChars es, Code s
  | [], _ => by simp [entriesChars]
  | ⟨key, e, quoted⟩ :: es, h => by
      rw [everywhereEntries, Bool.and_eq_true] at h
      have hcolon : Code [':', ' '] := .of_all_isPlain (by decide)
      rw [entriesChars, List.forall_mem_cons]
      exact ⟨((code_keyChars key quoted).append hcolon).append (code_chars e h.1),
        code_entriesChars es h.2⟩

end

theorem edged_literal (v : Literal) : Edged v.chars := by
  cases v with
  | null => exact edged_of_all_isNumeral (by decide) (by decide)
  | text v => exact edged_enclosed (by decide) (by decide) _
  | bool v => cases v <;> exact edged_of_all_isNumeral (by decide) (by decide)
  | number x => exact edged_of_all_isNumeral x.numeral_code.nonempty x.numeral_code.all

theorem edged_of_isIdentifier {s : List Char} (h : isIdentifier s = true) : Edged s := by
  refine edged_of_all_isNumeral ?_ (all_isNumeral_of_isIdentifier h)
  rintro rfl
  cases h

theorem edged_propChars (name : String) : Edged (propChars name) := by
  rw [propChars]
  split
  case isTrue h =>
    have hpoint : Edged ['.'] := edged_of_all_isNumeral (by decide) (by decide)
    exact hpoint.append [] (edged_of_isIdentifier h)
  case isFalse => exact edged_enclosed (by decide) (by decide) _

theorem edged_chars : ∀ e : Expr, e.wellNamed = true → Edged e.chars
  | var _ _, h => edged_of_isIdentifier h
  | prop e name _, h => by
      have happend := (edged_chars e h).append [] (edged_propChars name)
      rwa [List.append_nil] at happend
  | call e args _, h => by
      rw [wellNamed, everywhere, Bool.and_eq_true, Bool.and_eq_true] at h
      have hclose : Edged [')'] := ⟨⟨')', rfl, by decide⟩, ⟨')', rfl, by decide⟩⟩
      exact (edged_chars e h.1.2).append _ hclose
  | literal v _, _ => edged_literal v
  | array _ _, _ => edged_enclosed (by decide) (by decide) _
  | object _ _, _ => edged_enclosed (by decide) (by decide) _
  | plus l r _, h => by
      rw [wellNamed, everywhere, Bool.and_eq_true, Bool.and_eq_true] at h
      exact (edged_chars l h.1.2).append _ (edged_chars r h.2)
  | parens _ _, _ => edged_enclosed (by decide) (by decide) _

end Expr
end WidgetMarkup
