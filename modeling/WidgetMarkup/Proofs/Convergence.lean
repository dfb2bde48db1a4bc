import Mathlib.Algebra.GroupWithZero.Nat
import Mathlib.Algebra.Order.BigOperators.Group.List
import Mathlib.Data.List.Nodup
import Mathlib.Logic.Function.Iterate
import WidgetMarkup.Proofs.Removal
import WidgetMarkup.Proofs.Settling

namespace WidgetMarkup

namespace Attribute

variable {as : List Attribute} {n : Name}

def countWithin (ns : String) (as : List Attribute) : Nat := as.countP fun a => a.name.ns == some ns

theorem countWithin_cons (ns : String) (a : Attribute) : countWithin ns (a :: as) =
    countWithin ns as + if a.name.ns = some ns then 1 else 0 := by
  simp [countWithin, List.countP_cons]

theorem countWithin_eq_of_filter {ns : String} {bs : List Attribute} {keep : Name → Bool}
    (hkeep : ∀ m : Name, m.ns = some ns → keep m = true)
    (h : (as.filter fun a => keep a.name) = bs.filter fun a => keep a.name) :
    countWithin ns as = countWithin ns bs := by
  have hfilter (cs : List Attribute) :
      countWithin ns cs = countWithin ns (cs.filter fun a => keep a.name) := by
    rw [countWithin, countWithin, List.countP_filter]
    apply List.countP_congr
    intro a _
    rw [Bool.and_eq_true, beq_iff_eq]
    exact ⟨fun ha => ⟨ha, hkeep a.name ha⟩, And.left⟩
  rw [hfilter as, hfilter bs, h]

theorem countWithin_put_plain (ns localName : String) (value : Value) :
    countWithin ns (put (.plain localName) value as) = countWithin ns as :=
  countWithin_eq_of_filter (fun _ hm => beq_iff_eq.2 hm)
    (@filter_put _ value as (fun m => m.ns == some ns) (by simp [Name.plain]))

theorem countWithin_without (h : (value? n as).isSome) {ns : String} (hn : n.ns = some ns) :
    countWithin ns (without n as) + 1 = countWithin ns as := by
  induction as with
  | nil => simp at h
  | cons a as ih =>
      rw [value?_cons] at h
      rw [without_cons]
      by_cases ha : a.name = n
      · rw [if_pos ha, countWithin_cons, if_pos (ha ▸ hn)]
      · rw [if_neg ha] at h ⊢
        rw [countWithin_cons, countWithin_cons, ← ih h]
        omega

theorem countWithin_withoutEach {ns : String} {names : List Name} (hnodup : names.Nodup)
    (hns : ∀ n ∈ names, n.ns = some ns) (hpresent : ∀ n ∈ names, (value? n as).isSome) :
    countWithin ns (withoutEach names as) + names.length = countWithin ns as := by
  induction names generalizing as with
  | nil => rfl
  | cons n names ih =>
      rw [List.forall_mem_cons] at hns hpresent
      rw [List.nodup_cons] at hnodup
      have hrest : ∀ m ∈ names, (value? m (without n as)).isSome := by
        intro m hm
        have hne : n ≠ m := fun he => hnodup.1 (he ▸ hm)
        rw [value?_without_of_ne hne]
        exact hpresent.2 m hm
      have hlater := ih hnodup.2 hns.2 hrest
      have hfirst := countWithin_without hpresent.1 hns.1
      rw [withoutEach_cons, List.length_cons]
      omega

end Attribute

namespace Expansion

open Attribute Node

variable (v : Vocabulary) (t : Tag)

def markup : Nat := countWithin v.ns t.attrs + countWithin v.ns t.props

def forestMarkup (ns : List Node) : Nat := ((forestTags ns).map (markup v)).sum

theorem countWithin_inScope (props : List Attribute) :
    countWithin v.ns (inScope v t props) = countWithin v.ns props := by
  rw [inScope]
  split
  · exact countWithin_put_plain v.ns _ _
  · rfl

theorem countWithin_besideId {as bs : List Attribute} (h : besideId as = besideId bs) :
    countWithin v.ns as = countWithin v.ns bs := by
  refine @countWithin_eq_of_filter as v.ns bs (fun m => m != .plain idAttr) ?_ h
  intro m hm
  rw [bne_iff_ne]
  rintro rfl
  cases hm

theorem countWithin_present (localNames : List String) (hnodup : localNames.Nodup) :
    countWithin v.ns (withoutEach (present v t localNames) t.attrs) +
      (present v t localNames).length = countWithin v.ns t.attrs := by
  apply countWithin_withoutEach
  · have hinj : Function.Injective v.name := fun a b h => (name_inj v).1 h
    exact (List.Nodup.map hinj hnodup).filter _
  · intro n hn
    obtain ⟨localName, -, rfl⟩ := List.mem_map.1 (List.mem_filter.1 hn).1
    rfl
  · intro n hn
    exact (List.mem_filter.1 hn).2

theorem countWithin_requests (props : List Attribute) :
    countWithin v.ns (props.filter fun p => !isRequest v p.name) +
      ((props.map Attribute.name).filter (isRequest v)).length = countWithin v.ns props := by
  induction props with
  | nil => rfl
  | cons p props ih =>
      cases hp : isRequest v p.name with
      | false =>
          rw [List.filter_cons_of_pos (by simp [hp]), List.map_cons,
            List.filter_cons_of_neg (by simp [hp]), countWithin_cons, countWithin_cons]
          omega
      | true =>
          have hns : p.name.ns = some v.ns := by
            rw [isRequest, Bool.and_eq_true, beq_iff_eq] at hp
            exact hp.1
          rw [List.filter_cons_of_neg (by simp [hp]), List.map_cons, List.filter_cons_of_pos hp,
            countWithin_cons, if_pos hns, List.length_cons]
          omega

theorem markup_wrapper {w : Tag} (h : (expandTag v t).wrapper = some w) : markup v w = 0 := by
  obtain ⟨path, config, id, elId, rfl⟩ := wrapper_classStage v _ (wrapper_expandTag v t ▸ h)
  rw [markup, attrs_wrapperTag, props_wrapperTag]
  cases config <;> cases id <;> cases elId <;> simp [countWithin, entry, Name.plain]

theorem markup_expandTag : ((expandTag v t).tags.map (markup v)).sum +
    (expandTag v t).plan.removed.length = markup v t := by
  have hwrapper : ((expandTag v t).wrapper.toList.map (markup v)).sum = 0 := by
    cases hw : (expandTag v t).wrapper with
    | none => rfl
    | some w => simp [markup_wrapper v t hw]
  have hattrs := countWithin_besideId v (attrs_expandTag v t)
  have hprops : countWithin v.ns (expandTag v t).tag.props = _ :=
    (congrArg _ (props_expandTag v t)).trans (countWithin_inScope v t _)
  rw [TagExpansion.tags, List.map_append, List.sum_append, hwrapper, List.map_singleton,
    List.sum_singleton, Nat.zero_add, markup, markup, hattrs, hprops, removed_expandTag]
  split
  case isTrue =>
    have hpresent := countWithin_present v t [widgetAttr, idAttr, configAttr, elIdAttr] (by decide)
    omega
  case isFalse =>
    have hpresent := countWithin_present v t [elIdAttr] (by decide)
    have hrequests := countWithin_requests v t.props
    rw [List.length_append]
    omega

/-- A template with what its runs so far have gathered. -/
structure Template where
  nodes : List Node
  session : Session := {}

def rerun (s : Template) : Template :=
  ⟨(expandForest v s.nodes).result, s.session.after (expandForest v s.nodes).effects⟩

def removals (s : Template) : List Name := (expandForest v s.nodes).plans.flatMap Plan.removed

theorem forestMarkup_rerun (s : Template) :
    forestMarkup v (rerun v s).nodes + (removals v s).length = forestMarkup v s.nodes := by
  rw [forestMarkup, forestMarkup, removals, rerun, tags_expandForest, plans_expandForest]
  induction forestTags s.nodes with
  | nil => rfl
  | cons t ts ih =>
      have hstep := markup_expandTag v t
      rw [List.flatMap_cons, List.map_append, List.sum_append, List.map_cons, List.map_cons,
        List.flatMap_cons, List.length_append, List.sum_cons]
      omega

theorem forestMarkup_iterate (s : Template) (k : Nat) :
    forestMarkup v ((rerun v)^[k] s).nodes +
        ((List.range k).flatMap fun i => removals v ((rerun v)^[i] s)).length =
      forestMarkup v s.nodes := by
  induction k with
  | zero => rfl
  | succ k ih =>
      have hstep := forestMarkup_rerun v ((rerun v)^[k] s)
      rw [Function.iterate_succ_apply', List.range_succ, List.flatMap_append, List.length_append,
        List.flatMap_singleton]
      omega

variable {v t}

theorem tidy_of_no_removal (h : (expandTag v t).plan.removed = []) : Tidy v t := by
  obtain ⟨hclass, helId, -⟩ := of_removed_eq_nil v t h
  have hcount {n : Name} (hn : t.attr? n = none) : t.attrs.countP (fun a => a.name == n) ≤ 1 := by
    rw [Tag.attr?, value?_eq_none_iff] at hn
    rw [List.countP_eq_zero.2 (by simpa using hn)]
    omega
  refine ⟨hcount hclass, hcount helId, fun hsome => ?_⟩
  rw [hclass] at hsome
  cases hsome

theorem rerun_rerun {s : Template} (h : ∀ p ∈ (expandForest v s.nodes).plans, p.removed = []) :
    rerun v (rerun v s) = rerun v s := by
  have htidy : ∀ t ∈ forestTags s.nodes, Tidy v t := by
    intro t ht
    apply tidy_of_no_removal
    rw [plans_expandForest] at h
    exact h _ (List.mem_map_of_mem ht)
  -- the run itself may still have given widget tags their scope
  have hsettled : ∀ t ∈ forestTags (rerun v s).nodes, Settled v t := settled_expandForest htidy
  have hnodes := expandForest_eq_self v (rerun v s).nodes fun t ht => tags_of_settled (hsettled t ht)
  have hsession := after_of_forest_settled hsettled (rerun v s).session
  rw [rerun, hnodes, hsession]

theorem iterate_rerun_of_no_removal {s : Template} {i j : Nat}
    (h : ∀ p ∈ (expandForest v ((rerun v)^[i] s).nodes).plans, p.removed = []) (hij : i < j) :
    (rerun v)^[j] s = (rerun v)^[i + 1] s := by
  obtain ⟨d, rfl⟩ := Nat.exists_eq_add_of_le' hij
  have hfixed : rerun v ((rerun v)^[i + 1] s) = (rerun v)^[i + 1] s := by
    rw [Function.iterate_succ_apply']
    exact rerun_rerun h
  rw [Function.iterate_add_apply, Function.iterate_fixed hfixed]

theorem exists_run_without_removal (v : Vocabulary) (s : Template) :
    ∃ i ≤ forestMarkup v s.nodes,
      ∀ p ∈ (expandForest v ((rerun v)^[i] s).nodes).plans, p.removed = [] := by
  by_contra hnot
  -- one name in each of these runs would be more than there are
  have hsome : ∀ i ≤ forestMarkup v s.nodes, 1 ≤ (removals v ((rerun v)^[i] s)).length := by
    intro i hi
    rw [Nat.one_le_iff_ne_zero, Ne, List.length_eq_zero_iff, removals, List.flatMap_eq_nil_iff]
    exact fun hnone => hnot ⟨i, hi, hnone⟩
  have htotal := forestMarkup_iterate v s (forestMarkup v s.nodes + 1)
  have hmany : (List.range (forestMarkup v s.nodes + 1)).length ≤
      ((List.range (forestMarkup v s.nodes + 1)).flatMap
        fun i => removals v ((rerun v)^[i] s)).length := by
    rw [List.length_flatMap, ← List.length_map fun i => (removals v ((rerun v)^[i] s)).length]
    apply List.length_le_sum_of_one_le
    intro m hm
    obtain ⟨i, hi, rfl⟩ := List.mem_map.1 hm
    exact hsome i (Nat.lt_succ_iff.1 (List.mem_range.1 hi))
  rw [List.length_range] at hmany
  omega

/-- Over repeated runs no more names are taken off than there are entries in the namespace. After a
run that takes none off nothing changes any more, and this is so at the latest after one run more
than there are entries. -/
theorem runs_converge (v : Vocabulary) (s : Template) :
    (∀ k, ((List.range k).flatMap fun i => removals v ((rerun v)^[i] s)).length ≤
      forestMarkup v s.nodes) ∧
    (∀ i, (∀ p ∈ (expandForest v ((rerun v)^[i] s).nodes).plans, p.removed = []) →
      ∀ j, i < j → (rerun v)^[j] s = (rerun v)^[i + 1] s) ∧
    ∀ j, forestMarkup v s.nodes + 1 ≤ j →
      (rerun v)^[j] s = (rerun v)^[forestMarkup v s.nodes + 1] s := by
  refine ⟨?_, ?_, ?_⟩
  · intro k
    have htotal := forestMarkup_iterate v s k
    omega
  · intro i hi j hij
    exact iterate_rerun_of_no_removal hi hij
  · intro j hj
    obtain ⟨i, hi, hnone⟩ := exists_run_without_removal v s
    rw [iterate_rerun_of_no_removal hnone (by omega : i < j),
      iterate_rerun_of_no_removal hnone (by omega : i < forestMarkup v s.nodes + 1)]

/-- The first class hides the event, and so does the second one after that. -/
def twoClasses : Template where
  nodes :=
    let v : Vocabulary := {}
    let inner : Attribute := ⟨v.name widgetAttr, .text "./Inner", none⟩
    let outer : Attribute := ⟨v.name widgetAttr, .text "./Outer", none⟩
    let click : Attribute := ⟨v.name "event-click", .text "onClick", none⟩
    [.element { name := .plain "div", attrs := [inner, outer], props := [click] } []]

example : forestMarkup {} twoClasses.nodes = 3 ∧ (List.range 4).map (fun i =>
    (removals {} ((rerun {})^[i] twoClasses)).map Name.localName) =
      [["widget"], ["widget"], ["event-click"], []] := by
  decide

end Expansion
end WidgetMarkup
