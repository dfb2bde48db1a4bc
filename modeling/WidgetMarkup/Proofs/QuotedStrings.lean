import WidgetMarkup.Json.Quoted
import WidgetMarkup.Json.Reader

namespace WidgetMarkup.Json

theorem hexValue?_digitChar : ∀ n < 16, hexValue? (Nat.digitChar n) = some n := by decide

theorem utf8Size_digitChar : ∀ n < 16, (Nat.digitChar n).utf8Size = 1 := by decide

theorem hexUnit_digitChar {n : Nat} (hn : n < 0x20) (s : List Char) :
    hexUnit ('0' :: '0' :: Nat.digitChar (n / 16) :: Nat.digitChar (n % 16) :: s) = .ok (n, s) := by
  have hhigh := hexValue?_digitChar (n / 16) (by omega)
  have hlow := hexValue?_digitChar (n % 16) (by omega)
  have hhighSize := utf8Size_digitChar (n / 16) (by omega)
  have hlowSize := utf8Size_digitChar (n % 16) (by omega)
  have hzero : hexValue? '0' = some 0 := by decide
  have hzeroSize : '0'.utf8Size = 1 := by decide
  have hvalue : n / 16 * 16 + n % 16 = n := by omega
  simp [hexUnit, hhigh, hlow, hhighSize, hlowSize, hzero, hzeroSize, hvalue]

theorem hexChar_digitChar {c : Char} (hc : c.toNat < 0x20) (s : List Char) :
    hexChar ('0' :: '0' :: Nat.digitChar (c.toNat / 16) :: Nat.digitChar (c.toNat % 16) :: s) =
      .ok (c, s) := by
  have hleading : isLeading c.toNat = false := by
    rw [isLeading, Bool.and_eq_false_iff]
    exact .inl (decide_eq_false (by omega))
  have htrailing : isTrailing c.toNat = false := by
    rw [isTrailing, Bool.and_eq_false_iff]
    exact .inl (decide_eq_false (by omega))
  simp [hexChar, hexUnit_digitChar hc, hleading, htrailing, bind, Except.bind]

theorem stringChar_of_shortEscape? (skipped : Bool) {c l : Char} (h : shortEscape? c = some l)
    (s : List Char) : stringChar skipped ('\\' :: l :: s) = .ok (some c, s) := by
  rw [shortEscape?.eq_def] at h
  split at h <;> cases h <;> rfl

/-- A character that was written in a string is passed over, and read back when it is wanted. -/
theorem stringChar_escaped (skipped : Bool) (c : Char) (s : List Char) :
    ∃ d, stringChar skipped (escaped c ++ s) = .ok (some d, s) ∧ (skipped = false → d = c) := by
  rw [escaped]
  split
  case isTrue hc =>
    rw [Bool.or_eq_true, beq_iff_eq, beq_iff_eq] at hc
    rcases hc with rfl | rfl <;> exact ⟨_, rfl, fun _ => rfl⟩
  case isFalse hc =>
    rw [Bool.or_eq_true, beq_iff_eq, beq_iff_eq, not_or] at hc
    split
    case h_1 l hl => exact ⟨c, stringChar_of_shortEscape? skipped hl s, fun _ => rfl⟩
    case h_2 =>
      split
      case isTrue hcontrol =>
        cases skipped with
        | false =>
            refine ⟨c, ?_, fun _ => rfl⟩
            simp [stringChar, hexChar_digitChar hcontrol s, Except.map]
        | true =>
            refine ⟨' ', ?_, nofun⟩
            simp [stringChar, hexUnit_digitChar hcontrol s, Except.map]
      case isFalse hcontrol =>
        refine ⟨c, ?_, fun _ => rfl⟩
        rw [List.cons_append, List.nil_append, stringChar.eq_def]
        split <;> simp_all

theorem stringTail_quoted (skipped : Bool) (s rest : List Char) {fuel : Nat}
    (hfuel : s.length < fuel) :
    ∃ cs, stringTail skipped fuel (s.flatMap escaped ++ '\x22' :: rest) = .ok (cs, rest) ∧
      (skipped = false → cs = s) := by
  induction s generalizing fuel with
  | nil =>
      cases fuel with
      | zero => exact absurd hfuel (by simp)
      | succ fuel => exact ⟨[], rfl, fun _ => rfl⟩
  | cons c s ih =>
      cases fuel with
      | zero => exact absurd hfuel (by simp)
      | succ fuel =>
          obtain ⟨d, hd, hread⟩ :=
            stringChar_escaped skipped c (s.flatMap escaped ++ '\x22' :: rest)
          obtain ⟨cs, hcs, hreads⟩ := ih (Nat.lt_of_succ_lt_succ hfuel)
          refine ⟨d :: cs, ?_, fun h => by rw [hread h, hreads h]⟩
          rw [List.flatMap_cons, List.append_assoc, stringTail, hd]
          simp [bind, Except.bind, hcs]

theorem one_le_length_escaped (c : Char) : 1 ≤ (escaped c).length := by
  rw [escaped]
  repeat' split
  all_goals simp

theorem length_lt_quoted (s rest : List Char) :
    s.length < (s.flatMap escaped ++ '\x22' :: rest).length + 1 := by
  have hlength : s.length ≤ (s.flatMap escaped).length := by
    induction s with
    | nil => exact Nat.le_refl _
    | cons c s ih =>
        have hc := one_le_length_escaped c
        rw [List.flatMap_cons, List.length_append, List.length_cons]
        omega
  rw [List.length_append]
  omega

theorem stringBody_quoted (s rest : List Char) :
    stringBody false (s.flatMap escaped ++ '\x22' :: rest) = .ok (s, rest) := by
  obtain ⟨cs, hcs, hread⟩ := stringTail_quoted false s rest (length_lt_quoted s rest)
  rw [stringBody, hcs, hread rfl]

theorem stringBody_skips (s rest : List Char) :
    ∃ cs, stringBody true (s.flatMap escaped ++ '\x22' :: rest) = .ok (cs, rest) := by
  obtain ⟨cs, hcs, -⟩ := stringTail_quoted true s rest (length_lt_quoted s rest)
  exact ⟨cs, hcs⟩

theorem toList_quote (s : String) : (quote s).toList = quoted s.toList := String.toList_ofList

theorem quoted_inj {s t : List Char} (h : quoted s = quoted t) : s = t := by
  rw [quoted, quoted, List.cons_append, List.cons_append, List.cons_eq_cons] at h
  have hread := stringBody_quoted s []
  rw [h.2, stringBody_quoted t []] at hread
  cases hread
  rfl

end WidgetMarkup.Json
