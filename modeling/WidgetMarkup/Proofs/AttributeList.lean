import WidgetMarkup.Element

namespace WidgetMarkup.Attribute

variable {n m : Name} {v w : Value} {as : List Attribute}

@[simp] theorem value?_nil : value? n [] = none := rfl

theorem value?_cons (a : Attribute) :
    value? n (a :: as) = if a.name = n then some a.value else value? n as := by
  by_cases h : a.name = n <;> simp [value?, h]

theorem value?_eq_none_iff : value? n as = none ↔ ∀ a ∈ as, a.name ≠ n := by
  simp [value?]

theorem without_cons (a : Attribute) :
    without n (a :: as) = if a.name = n then as else a :: without n as := by
  by_cases h : a.name = n <;> simp [without, h]

theorem value?_without_of_ne (h : n ≠ m) : value? m (without n as) = value? m as := by
  induction as with
  | nil => rfl
  | cons a as ih =>
      rw [without_cons]
      split
      case isTrue ha => rw [value?_cons, if_neg (ha ▸ h)]
      case isFalse => rw [value?_cons, value?_cons, ih]

theorem value?_without_self (h : as.countP (fun a => a.name == n) ≤ 1) :
    value? n (without n as) = none := by
  induction as with
  | nil => rfl
  | cons a as ih =>
      rw [List.countP_cons] at h
      rw [without_cons]
      split
      case isTrue ha =>
        have h0 : as.countP (fun a => a.name == n) = 0 := by simp [ha] at h; simpa using h
        rw [value?_eq_none_iff]
        simpa using List.countP_eq_zero.1 h0
      case isFalse ha => rw [value?_cons, if_neg ha, ih (by omega)]

@[simp] theorem value?_put_self : value? n (put n v as) = some v := by
  induction as with
  | nil => simp [put, value?]
  | cons a as ih => by_cases h : a.name = n <;> simp [put, value?_cons, h, ih]

theorem value?_put_of_ne (h : n ≠ m) : value? m (put n v as) = value? m as := by
  induction as with
  | nil => simp [put, value?, h]
  | cons a as ih =>
      by_cases ha : a.name = n
      · have hm : a.name ≠ m := fun he => h (ha.symm.trans he)
        simp [put, value?_cons, ha, h]
      · simp [put, value?_cons, ha, ih]

theorem put_of_value?_eq_none (h : value? n as = none) : put n v as = as ++ [⟨n, v, none⟩] := by
  induction as with
  | nil => rfl
  | cons a as ih =>
      rw [value?_eq_none_iff, List.forall_mem_cons] at h
      rw [put, if_neg h.1, ih (value?_eq_none_iff.2 h.2), List.cons_append]

theorem without_comm : without m (without n as) = without n (without m as) := by
  by_cases h : n = m
  · rw [h]
  · apply List.eraseP_comm
    intro a _
    by_cases ha : a.name = n
    · exact .inr (by simpa [ha] using h)
    · exact .inl (by simpa using ha)

theorem without_put_of_ne (h : n ≠ m) : without n (put m v as) = put m v (without n as) := by
  induction as with
  | nil => simp [put, without, h.symm]
  | cons a as ih =>
      rw [put, without_cons]
      by_cases hm : a.name = m
      · have hn : a.name ≠ n := fun hn => h (hn.symm.trans hm)
        rw [if_pos hm, if_neg hn, without_cons, if_neg hn, put, if_pos hm]
      · rw [if_neg hm, without_cons]
        by_cases hn : a.name = n
        · rw [if_pos hn, if_pos hn]
        · rw [if_neg hn, if_neg hn, ih, put, if_neg hm]

@[simp] theorem put_put : put n v (put n w as) = put n v as := by
  induction as with
  | nil => simp [put]
  | cons a as ih => by_cases h : a.name = n <;> simp [put, h, ih]

theorem of_mem_put {a : Attribute} (h : a ∈ put n v as) :
    (a.name = n ∧ a.value = v) ∨ a ∈ as := by
  induction as with
  | nil => exact .inl (by simp_all [put])
  | cons b as ih =>
      rw [put] at h
      split at h
      case isTrue hb =>
        rcases List.mem_cons.1 h with rfl | h
        · exact .inl ⟨hb, rfl⟩
        · exact .inr (List.mem_cons_of_mem b h)
      case isFalse =>
        rcases List.mem_cons.1 h with rfl | h
        · exact .inr List.mem_cons_self
        · exact (ih h).imp_right (List.mem_cons_of_mem b)

theorem mem_of_value?_eq_some (h : value? n as = some v) : ∃ a ∈ as, a.value = v := by
  obtain ⟨a, ha, rfl⟩ := Option.map_eq_some_iff.1 h
  exact ⟨a, List.mem_of_find?_eq_some ha, rfl⟩

theorem filter_eraseP_self {α : Type} (p : α → Bool) (l : List α) :
    (l.eraseP p).filter p = (l.filter p).tail := by
  induction l with
  | nil => rfl
  | cons a l ih => cases ha : p a <;> simp [ha, ih]

theorem filter_eraseP_of_disjoint {α : Type} {p q : α → Bool} {l : List α}
    (h : ∀ a, p a = true → q a = false) : (l.eraseP p).filter q = l.filter q := by
  induction l with
  | nil => rfl
  | cons a l ih =>
      cases ha : p a
      · rw [List.eraseP_cons_of_neg (by simp [ha]), List.filter_cons, List.filter_cons, ih]
      · rw [List.eraseP_cons_of_pos ha, List.filter_cons_of_neg (by simp [h a ha])]

theorem filter_without {keep : Name → Bool} (h : keep n = false) :
    ((without n as).filter fun a => keep a.name) = as.filter fun a => keep a.name := by
  apply filter_eraseP_of_disjoint
  intro a ha
  rw [beq_iff_eq.1 ha, h]

theorem filter_put {keep : Name → Bool} (h : keep n = false) :
    ((put n v as).filter fun a => keep a.name) = as.filter fun a => keep a.name := by
  induction as with
  | nil => simp [put, h]
  | cons a as ih =>
      rw [put]
      split
      case isTrue ha =>
        rw [List.filter_cons_of_neg (by simp [ha, h]), List.filter_cons_of_neg (by simp [ha, h])]
      case isFalse => rw [List.filter_cons, List.filter_cons, ih]

theorem filter_without_of_kept {keep : Name → Bool} (h : keep n = true) :
    ((without n as).filter fun a => keep a.name) = without n (as.filter fun a => keep a.name) := by
  induction as with
  | nil => rfl
  | cons a as ih =>
      rw [without_cons]
      by_cases ha : a.name = n
      · rw [if_pos ha, List.filter_cons_of_pos (by simp [ha, h]), without_cons, if_pos ha]
      · rw [if_neg ha, List.filter_cons, List.filter_cons, ih]
        split
        · rw [without_cons, if_neg ha]
        · rfl

theorem without_of_value?_eq_none (h : value? n as = none) : without n as = as := by
  rw [without, List.eraseP_of_forall_not]
  simpa [value?] using h

theorem value?_without_eq_none (h : value? m as = none) : value? m (without n as) = none := by
  rw [value?_eq_none_iff] at h ⊢
  exact fun a ha => h a (List.mem_of_mem_eraseP ha)

/-- The list without the first entry of each name in turn. -/
def withoutEach (ns : List Name) (as : List Attribute) : List Attribute :=
  ns.foldl (fun as n => without n as) as

theorem withoutEach_cons (ns : List Name) :
    withoutEach (n :: ns) as = withoutEach ns (without n as) := rfl

theorem withoutEach_append (ns ms : List Name) :
    withoutEach (ns ++ ms) as = withoutEach ms (withoutEach ns as) := List.foldl_append

theorem value?_withoutEach_eq_none {ns : List Name} (h : value? m as = none) :
    value? m (withoutEach ns as) = none := by
  induction ns generalizing as with
  | nil => exact h
  | cons n ns ih => exact ih (value?_without_eq_none h)

theorem withoutEach_cons_of_notMem {ns : List Name} {a : Attribute} (h : a.name ∉ ns) :
    withoutEach ns (a :: as) = a :: withoutEach ns as := by
  induction ns generalizing as with
  | nil => rfl
  | cons n ns ih =>
      rw [List.mem_cons, not_or] at h
      rw [withoutEach_cons, without_cons, if_neg h.1, ih h.2, withoutEach_cons]

/-- Taking off one entry for each name that is listed takes off all the entries listed. -/
theorem withoutEach_names (listed : Name → Bool) :
    withoutEach ((as.map name).filter listed) as = as.filter fun a => !listed a.name := by
  induction as with
  | nil => rfl
  | cons a as ih =>
      rw [List.map_cons]
      cases ha : listed a.name
      · have hnot : a.name ∉ (as.map name).filter listed := by simp [ha]
        rw [List.filter_cons_of_neg (by simp [ha]), withoutEach_cons_of_notMem hnot, ih,
          List.filter_cons_of_pos (by simp [ha])]
      · rw [List.filter_cons_of_pos ha, withoutEach_cons, without_cons, if_pos rfl, ih,
          List.filter_cons_of_neg (by simp [ha])]

theorem withoutEach_filter_present {ns : List Name} {bs : List Attribute}
    (h : ∀ n, value? n as = none → value? n bs = none) :
    withoutEach (ns.filter fun n => (value? n as).isSome) bs = withoutEach ns bs := by
  induction ns generalizing bs with
  | nil => rfl
  | cons n ns ih =>
      cases hn : value? n as with
      | none =>
          rw [List.filter_cons_of_neg (by simp [hn]), withoutEach_cons,
            without_of_value?_eq_none (h n hn), ih h]
      | some v =>
          rw [List.filter_cons_of_pos (by simp [hn]), withoutEach_cons, withoutEach_cons,
            ih fun m hm => value?_without_eq_none (h m hm)]

theorem value?_eq_head?_filter :
    value? n as = (as.filter fun a => a.name == n).head?.map value := by
  rw [value?, List.head?_filter]

end WidgetMarkup.Attribute
