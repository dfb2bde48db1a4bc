import WidgetMarkup.Text.Blank
import WidgetMarkup.Text.Charset

namespace WidgetMarkup.Text

/-- A text with no blank character at its two ends. -/
structure Trimmed (s : List Char) : Prop where
  head : s.head?.any isBlank = false
  last : s.getLast?.any isBlank = false

theorem trimmed_iff {s : List Char} : Trimmed s ↔
    s.head?.any isBlank = false ∧ s.getLast?.any isBlank = false :=
  ⟨fun h => ⟨h.head, h.last⟩, fun h => ⟨h.1, h.2⟩⟩

instance (s : List Char) : Decidable (Trimmed s) := decidable_of_iff _ trimmed_iff.symm

theorem trimStart_append_of_allBlank {p : List Char} (hp : allBlank p = true) (s : List Char) :
    trimStart (p ++ s) = trimStart s := by
  rw [trimStart, List.dropWhile_append_of_pos]
  · rfl
  · simpa [allBlank] using hp

theorem trimEnd_append_of_allBlank {p : List Char} (hp : allBlank p = true) (s : List Char) :
    trimEnd (s ++ p) = trimEnd s := by
  rw [trimEnd, List.reverse_append, List.dropWhile_append_of_pos]
  · rfl
  · simpa [allBlank] using hp

theorem trimStart_of_head {s : List Char} (h : s.head?.any isBlank = false) : trimStart s = s := by
  cases s with
  | nil => rfl
  | cons c s =>
      have hc : isBlank c = false := h
      rw [trimStart, List.dropWhile_cons, hc]
      rfl

theorem trimEnd_of_last {s : List Char} (h : s.getLast?.any isBlank = false) : trimEnd s = s := by
  have hrev : trimStart s.reverse = s.reverse := by
    apply trimStart_of_head
    rwa [List.head?_reverse]
  rw [trimStart] at hrev
  rw [trimEnd, hrev, List.reverse_reverse]

theorem trim_margins {p s q : List Char} (hp : allBlank p = true) (hq : allBlank q = true)
    (hs : Trimmed s) : trim (p ++ s ++ q) = s := by
  rw [List.append_assoc, trim, trimStart_append_of_allBlank hp]
  cases s with
  | nil =>
      have hnil : trimStart q = [] := by
        have h := trimStart_append_of_allBlank hq []
        rwa [List.append_nil] at h
      rw [List.nil_append, hnil]
      rfl
  | cons c s =>
      have hstart : trimStart (c :: s ++ q) = c :: s ++ q := trimStart_of_head hs.head
      rw [hstart, trimEnd_append_of_allBlank hq, trimEnd_of_last hs.last]

theorem allBlank_append (s t : List Char) : allBlank (s ++ t) = (allBlank s && allBlank t) :=
  List.all_append

theorem trim_of_trimmed {s : List Char} (h : Trimmed s) : trim s = s := by
  have hmargins := trim_margins (p := []) (q := []) rfl rfl h
  rwa [List.nil_append, List.append_nil] at hmargins

theorem notMem_of_allBlank {c : Char} {s : List Char} (h : allBlank s = true)
    (hc : isBlank c = false) : c ∉ s := by
  intro hmem
  rw [List.all_eq_true.1 h c hmem] at hc
  cases hc

theorem exists_blank_trimStart (s : List Char) : ∃ p, s = p ++ trimStart s ∧ allBlank p = true := by
  refine ⟨s.takeWhile isBlank, List.takeWhile_append_dropWhile.symm, ?_⟩
  rw [allBlank, List.all_takeWhile]

theorem exists_trimEnd_blank (s : List Char) : ∃ q, s = trimEnd s ++ q ∧ allBlank q = true := by
  obtain ⟨p, hs, hp⟩ := exists_blank_trimStart s.reverse
  refine ⟨p.reverse, ?_, by rwa [allBlank, List.all_reverse]⟩
  rw [← List.reverse_inj, List.reverse_append, List.reverse_reverse, trimEnd, List.reverse_reverse]
  exact hs

theorem head_trimStart (s : List Char) : (trimStart s).head?.any isBlank = false := by
  have hhead := List.head?_dropWhile_not isBlank s
  rw [trimStart]
  cases h : (s.dropWhile isBlank).head? with
  | none => rfl
  | some c => rwa [h] at hhead

theorem last_trimEnd (s : List Char) : (trimEnd s).getLast?.any isBlank = false := by
  rw [trimEnd, List.getLast?_reverse]
  exact head_trimStart s.reverse

theorem exists_margins (s : List Char) :
    ∃ p q, s = p ++ trim s ++ q ∧ allBlank p = true ∧ allBlank q = true := by
  obtain ⟨p, hs, hp⟩ := exists_blank_trimStart s
  obtain ⟨q, ht, hq⟩ := exists_trimEnd_blank (trimStart s)
  exact ⟨p, q, by rw [List.append_assoc, trim, ← ht, ← hs], hp, hq⟩

theorem trimmed_trim (s : List Char) : Trimmed (trim s) := by
  refine ⟨?_, last_trimEnd _⟩
  obtain ⟨q, hs, -⟩ := exists_trimEnd_blank (trimStart s)
  have hhead := head_trimStart s
  rw [hs] at hhead
  rw [trim]
  cases h : trimEnd (trimStart s) with
  | nil => rfl
  | cons c u =>
      rw [h] at hhead
      exact hhead

theorem allBlank_trim (s : List Char) : allBlank (trim s) = allBlank s := by
  obtain ⟨p, q, hs, hp, hq⟩ := exists_margins s
  calc allBlank (trim s)
      = allBlank (p ++ trim s ++ q) := by
        rw [allBlank_append, allBlank_append, hp, hq, Bool.and_true, Bool.true_and]
    _ = allBlank s := by rw [← hs]

theorem trim_eq_nil {s : List Char} (h : allBlank s = true) : trim s = [] := by
  have hmargin := trim_margins (s := []) (q := []) h rfl ⟨rfl, rfl⟩
  rwa [List.append_nil, List.append_nil] at hmargin

theorem allBlank_of_trimmed {s : List Char} (hs : Trimmed s) (hne : s ≠ []) : allBlank s = false := by
  cases s with
  | nil => exact absurd rfl hne
  | cons c s =>
      have hc : isBlank c = false := hs.head
      rw [allBlank, List.all_cons, hc]
      rfl

theorem isAlpha_iff_toNat {c : Char} : c.isAlpha = true ↔
    (0x41 ≤ c.toNat ∧ c.toNat ≤ 0x5A) ∨ (0x61 ≤ c.toNat ∧ c.toNat ≤ 0x7A) := by
  have halpha : c.isAlpha = (c.isUpper || c.isLower) := rfl
  have hupper : c.isUpper = decide (0x41 ≤ c.val ∧ c.val ≤ 0x5A) := rfl
  have hlower : c.isLower = (decide (0x61 ≤ c.val) && decide (c.val ≤ 0x7A)) := rfl
  rw [halpha, hupper, hlower, Bool.or_eq_true, Bool.and_eq_true, decide_eq_true_iff,
    decide_eq_true_iff, decide_eq_true_iff]
  exact Iff.rfl

theorem toNat_of_isNamePart {c : Char} (h : isNamePart c = true) :
    0x21 ≤ c.toNat ∧ c.toNat ≤ 0x7E := by
  simp only [isNamePart, isNameStart, Bool.or_eq_true, beq_iff_eq, isAlpha_iff_toNat,
    Char.isDigit_iff_toNat, Char.reduceToNat] at h
  rcases h with (((h | rfl) | rfl) | h) | rfl
  · omega
  · decide
  · decide
  · omega
  · decide

theorem isBlank_of_isNamePart {c : Char} (h : isNamePart c = true) : isBlank c = false := by
  have hc := toNat_of_isNamePart h
  simp only [isBlank, Bool.or_eq_false_iff, Bool.and_eq_false_iff, decide_eq_false_iff_not,
    beq_eq_false_iff_ne]
  omega

theorem isNamePart_of_isNameStart {c : Char} (h : isNameStart c = true) : isNamePart c = true := by
  rw [isNamePart, h]
  rfl

theorem all_isNamePart_of_isFieldName {s : List Char} (h : isFieldName s = true) :
    s.all isNamePart = true := by
  cases s with
  | nil => rfl
  | cons c s =>
      rw [isFieldName, Bool.and_eq_true] at h
      rw [List.all_cons, isNamePart_of_isNameStart h.1, h.2]
      rfl

theorem trimmed_of_isFieldName {s : List Char} (h : isFieldName s = true) : Trimmed s := by
  have hpart : ∀ c ∈ s, isBlank c = false := fun c hc =>
    isBlank_of_isNamePart (List.all_eq_true.1 (all_isNamePart_of_isFieldName h) c hc)
  constructor
  · cases hc : s.head? with
    | none => rfl
    | some c => exact hpart c (List.mem_of_mem_head? hc)
  · cases hc : s.getLast? with
    | none => rfl
    | some c => exact hpart c (List.mem_of_getLast? hc)

end WidgetMarkup.Text
