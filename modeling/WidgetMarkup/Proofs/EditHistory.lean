import Mathlib.Data.List.Induction
import WidgetMarkup.Proofs.AttributeList

namespace WidgetMarkup

inductive Edit
  | put (name : String) (value : Value)
  | append (ns name : String) (value : Value)
  | remove (ns name : String)

namespace Edit

def name : Edit → Name
  | put n _ => .plain n
  | append ns n _ | remove ns n => .within ns n

def apply (as : List Attribute) : Edit → List Attribute
  | put n v => Attribute.put (.plain n) v as
  | append ns n v => as ++ [⟨.within ns n, v, none⟩]
  | remove ns n => Attribute.without (.within ns n) as

/-- What the edit with number `i` makes of the values kept for its name. Each value stands with the
number of the edit that made its entry. -/
def onSlot (i : Nat) (slot : List (Nat × Value)) : Edit → List (Nat × Value)
  | put _ v => [(slot.head?.elim i Prod.fst, v)]
  | append _ _ v => slot ++ [(i, v)]
  | remove _ _ => slot.tail

/-- The values kept for a name: one value of a plain name, a queue of a name in a namespace. -/
def slot (n : Name) (es : List Edit) : List (Nat × Value) :=
  es.zipIdx.foldl (fun slot e => if e.1.name = n then e.1.onSlot e.2 slot else slot) []

def setting? (n : String) : Edit → Option Value
  | put m v => if m = n then some v else none
  | _ => none

def settings (n : String) (es : List Edit) : List (Nat × Value) :=
  es.zipIdx.filterMap fun e => (e.1.setting? n).map fun v => (e.2, v)

variable {n : String} {e : Edit} {es : List Edit} {v : Value}

theorem slot_concat (n : Name) (es : List Edit) (e : Edit) : slot n (es ++ [e]) =
    if e.name = n then e.onSlot es.length (slot n es) else slot n es := by
  rw [slot, List.zipIdx_append, List.foldl_append, Nat.zero_add]
  rfl

theorem settings_concat (n : String) (es : List Edit) (e : Edit) : settings n (es ++ [e]) =
    settings n es ++ ((e.setting? n).map fun v => (es.length, v)).toList := by
  rw [settings, List.zipIdx_append, List.filterMap_append, Nat.zero_add]
  cases h : e.setting? n <;> simp [settings, h]

theorem setting?_eq_some (h : e.setting? n = some v) : e = put n v := by
  cases e with
  | put m w =>
      rw [setting?] at h
      split at h
      case isTrue hm =>
        cases h
        rw [hm]
      case isFalse => cases h
  | append => cases h
  | remove => cases h

theorem name_ne_of_setting? (h : e.setting? n = none) : e.name ≠ .plain n := by
  rintro hname
  cases e with
  | put m w =>
      cases hname
      rw [setting?, if_pos rfl] at h
      cases h
  | append => cases hname
  | remove => cases hname

theorem slot_plain (n : String) (es : List Edit) : slot (.plain n) es =
    ((settings n es).head?.bind fun first =>
      (settings n es).getLast?.map fun last => (first.1, last.2)).toList := by
  induction es using List.reverseRecOn with
  | nil => rfl
  | append_singleton es e ih =>
      rw [slot_concat, settings_concat, ih]
      cases h : e.setting? n with
      | none =>
          rw [if_neg (name_ne_of_setting? h), Option.map_none, Option.toList_none, List.append_nil]
      | some v =>
          have hname : (put n v).name = .plain n := rfl
          rw [setting?_eq_some h, if_pos hname, onSlot]
          cases settings n es with
          | nil => rfl
          | cons first rest => simp [List.getLast?_cons]

theorem length_slot_plain (n : String) (es : List Edit) : (slot (.plain n) es).length ≤ 1 := by
  rw [slot_plain]
  exact Option.length_toList_le

end Edit

namespace Attribute

def revalue (n : Name) (v : Value) (a : Attribute) : Attribute :=
  if a.name = n then { a with value := v } else a

theorem name_revalue (n : Name) (v : Value) (a : Attribute) : (a.revalue n v).name = a.name := by
  rw [revalue]
  split <;> rfl

theorem put_eq_map {n : Name} {v : Value} {as : List Attribute}
    (h : (as.countP fun a => a.name == n) = 1) : put n v as = as.map (revalue n v) := by
  induction as with
  | nil => cases h
  | cons a as ih =>
      rw [put, List.map_cons, revalue]
      rw [List.countP_cons] at h
      split
      case isTrue ha =>
        have hrest : ∀ b ∈ as, b.revalue n v = b := by
          intro b hb
          have hzero : (as.countP fun a => a.name == n) = 0 := by simpa [ha] using h
          rw [revalue, if_neg]
          simpa using List.countP_eq_zero.1 hzero b hb
        rw [List.map_congr_left hrest, List.map_id']
      case isFalse ha => rw [ih (by simpa [ha] using h)]

end Attribute

/-- The entries after these edits, each with the number of the edit that made it. -/
structure Dated (es : List Edit) (dated : List (Nat × Attribute)) : Prop where
  ordered : (dated.map Prod.fst).Pairwise (· < ·)
  past : ∀ d ∈ dated, d.1 < es.length
  slots : ∀ n, ((dated.filter fun d => d.2.name == n).map fun d => (d.1, d.2.value)) =
    Edit.slot n es

namespace Dated

open Edit

variable {es : List Edit} {e : Edit} {dated : List (Nat × Attribute)}

theorem nil : Dated [] [] := ⟨.nil, by simp, fun _ => rfl⟩

theorem countP (h : Dated es dated) (n : Name) :
    ((dated.map Prod.snd).countP fun a => a.name == n) = (slot n es).length := by
  rw [← h.slots, List.length_map, List.countP_map, List.countP_eq_length_filter]
  rfl

theorem add {v : Value} (h : Dated es dated)
    (he : e.onSlot es.length (slot e.name es) = slot e.name es ++ [(es.length, v)]) :
    Dated (es ++ [e]) (dated ++ [(es.length, ⟨e.name, v, none⟩)]) := by
  refine ⟨?_, ?_, ?_⟩
  · rw [List.map_append, List.pairwise_append]
    refine ⟨h.ordered, by simp, ?_⟩
    intro i hi j hj
    obtain ⟨d, hd, rfl⟩ := List.mem_map.1 hi
    rw [List.mem_singleton.1 hj]
    exact h.past d hd
  · intro d hd
    rw [List.length_append, List.length_singleton]
    rcases List.mem_append.1 hd with hd | hd
    · exact Nat.lt_succ_of_lt (h.past d hd)
    · rw [List.mem_singleton.1 hd]
      exact Nat.lt_succ_self es.length
  · intro n
    rw [slot_concat, List.filter_append, List.map_append, h.slots]
    split
    case isTrue hn =>
      subst hn
      simp [he]
    case isFalse hn => simp [hn]

theorem revalue {n : String} {first : Nat × Value} (h : Dated es dated)
    (hslot : slot (.plain n) es = [first]) (v : Value) :
    Dated (es ++ [.put n v]) (dated.map fun d => (d.1, d.2.revalue (.plain n) v)) := by
  refine ⟨?_, ?_, ?_⟩
  · rw [List.map_map]
    exact h.ordered
  · intro d hd
    obtain ⟨d', hd', rfl⟩ := List.mem_map.1 hd
    rw [List.length_append, List.length_singleton]
    exact Nat.lt_succ_of_lt (h.past d' hd')
  · intro m
    rw [List.filter_map, List.map_map, slot_concat]
    simp only [Function.comp_def, Attribute.name_revalue]
    split
    case isTrue hm =>
      subst hm
      have hvalue : ∀ d ∈ dated.filter fun d => d.2.name == .plain n,
          (d.1, (d.2.revalue (.plain n) v).value) = ((d.1, d.2.value).1, v) := by
        intro d hd
        have hname : d.2.name = .plain n := by simpa using (List.mem_filter.1 hd).2
        rw [Attribute.revalue, if_pos hname]
      have hmap := congrArg (List.map fun d => (d.1, v)) (h.slots (.plain n))
      rw [List.map_map] at hmap
      rw [name, List.map_congr_left hvalue]
      refine hmap.trans ?_
      rw [hslot]
      rfl
    case isFalse hm =>
      rw [← h.slots]
      apply List.map_congr_left
      intro d hd
      have hname : d.2.name ≠ .plain n := by
        rw [beq_iff_eq.1 (List.mem_filter.1 hd).2]
        exact Ne.symm hm
      rw [Attribute.revalue, if_neg hname]

theorem put (h : Dated es dated) (n : String) (v : Value) : ∃ dated',
    dated'.map Prod.snd = Attribute.put (.plain n) v (dated.map Prod.snd) ∧
      Dated (es ++ [.put n v]) dated' := by
  have hcount := h.countP (.plain n)
  cases hslot : slot (.plain n) es with
  | nil =>
      rw [hslot, List.length_nil, List.countP_eq_zero] at hcount
      have hnone : Attribute.value? (.plain n) (dated.map Prod.snd) = none := by
        rw [Attribute.value?_eq_none_iff]
        simpa using hcount
      have he : onSlot es.length (slot (.plain n) es) (.put n v) =
          slot (.plain n) es ++ [(es.length, v)] := by rw [hslot]; rfl
      refine ⟨_, ?_, h.add he⟩
      rw [Attribute.put_of_value?_eq_none hnone, List.map_append]
      rfl
  | cons first rest =>
      -- the one entry of a plain name keeps its place and its number
      have hrest : rest = [] := by
        have hlength := length_slot_plain n es
        rw [hslot, List.length_cons] at hlength
        exact List.length_eq_zero_iff.1 (by omega)
      subst hrest
      rw [hslot, List.length_singleton] at hcount
      refine ⟨dated.map fun d => (d.1, d.2.revalue (.plain n) v), ?_, h.revalue hslot v⟩
      rw [Attribute.put_eq_map hcount, List.map_map, List.map_map]
      rfl

theorem remove (h : Dated es dated) (ns n : String) : ∃ dated',
    dated'.map Prod.snd = Attribute.without (.within ns n) (dated.map Prod.snd) ∧
      Dated (es ++ [.remove ns n]) dated' := by
  refine ⟨dated.eraseP fun d => d.2.name == .within ns n, ?_, ?_, ?_, ?_⟩
  · rw [Attribute.without, List.eraseP_map]
    rfl
  · exact h.ordered.sublist (List.eraseP_sublist.map Prod.fst)
  · intro d hd
    rw [List.length_append, List.length_singleton]
    exact Nat.lt_succ_of_lt (h.past d (List.mem_of_mem_eraseP hd))
  · intro m
    rw [slot_concat, ← h.slots]
    split
    case isTrue hm =>
      rw [← hm, name, Attribute.filter_eraseP_self, List.map_tail]
      rfl
    case isFalse hm =>
      rw [Attribute.filter_eraseP_of_disjoint]
      intro d hd
      rw [beq_iff_eq.1 hd, beq_eq_false_iff_ne]
      exact hm

theorem step (h : Dated es dated) (e : Edit) : ∃ dated',
    dated'.map Prod.snd = e.apply (dated.map Prod.snd) ∧ Dated (es ++ [e]) dated' := by
  cases e with
  | put n v => exact h.put n v
  | append ns n v => exact ⟨_, List.map_append, h.add rfl⟩
  | remove ns n => exact h.remove ns n

theorem run (es : List Edit) : ∃ dated, dated.map Prod.snd = es.foldl Edit.apply [] ∧
    Dated es dated := by
  induction es using List.reverseRecOn with
  | nil => exact ⟨[], rfl, nil⟩
  | append_singleton es e ih =>
      obtain ⟨dated, hdated, h⟩ := ih
      rw [List.foldl_append, ← hdated]
      exact h.step e

end Dated
end WidgetMarkup
