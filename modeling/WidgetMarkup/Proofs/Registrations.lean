import Mathlib.Data.List.Induction
import Mathlib.Data.List.Nodup
import WidgetMarkup.Helper

namespace WidgetMarkup.Registry

variable {r : Registry} {h : Helper} {hs : List Helper} {n : String}

theorem find?_add :
    (r.add h).find? n = (r.find? n).or (if h.localName = n then some h else none) := by
  rw [add]
  split
  case h_1 g hg =>
      by_cases hn : h.localName = n
      · subst hn
        rw [hg, Option.some_or]
      · rw [if_neg hn, Option.or_none]
  case h_2 =>
      rw [find?, find?, List.find?_append]
      congr 1
      by_cases hn : h.localName = n <;> simp [hn]

theorem add_of_bound (hb : (r.find? h.localName).isSome) : r.add h = r := by
  obtain ⟨g, hg⟩ := Option.isSome_iff_exists.1 hb
  simp only [add, hg]

theorem find?_addAll :
    (r.addAll hs).find? n = (r.find? n).or (hs.find? fun h => h.localName == n) := by
  induction hs generalizing r with
  | nil => exact Option.or_none.symm
  | cons h hs ih =>
      have hstep : r.addAll (h :: hs) = (r.add h).addAll hs := rfl
      rw [hstep, ih, find?_add, Option.or_assoc]
      by_cases hn : h.localName = n
      · rw [if_pos hn, List.find?_cons_of_pos (by simp [hn]), Option.some_or]
      · rw [if_neg hn, List.find?_cons_of_neg (by simp [hn]), Option.none_or]

theorem addAll_of_bound (hb : ∀ h ∈ hs, (r.find? h.localName).isSome) : r.addAll hs = r := by
  induction hs with
  | nil => rfl
  | cons h hs ih =>
      rw [List.forall_mem_cons] at hb
      have hstep : r.addAll (h :: hs) = (r.add h).addAll hs := rfl
      rw [hstep, add_of_bound hb.1, ih hb.2]

/-- A second registration of the same helpers is absorbed, also where a name was taken by another
helper before the first one. -/
theorem addAll_addAll_self : (r.addAll hs).addAll hs = r.addAll hs := by
  apply addAll_of_bound
  intro h hh
  have hself : (hs.find? fun g => g.localName == h.localName).isSome :=
    List.find?_isSome.2 ⟨h, hh, beq_self_eq_true _⟩
  rw [find?_addAll, Option.isSome_or, hself, Bool.or_true]

def names (r : Registry) : List String := r.helpers.map Helper.localName

theorem mem_names_iff : n ∈ r.names ↔ (r.find? n).isSome := by
  simp [names, find?]

theorem helpers_add (r : Registry) (h : Helper) : (r.add h).helpers =
    r.helpers ++ if (r.find? h.localName).isSome then [] else [h] := by
  rw [add]
  split
  case h_1 g hg => rw [hg, Option.isSome_some, if_pos rfl, List.append_nil]
  case h_2 hnone => rw [hnone, Option.isSome_none, if_neg Bool.false_ne_true]

theorem nodup_names_add (hr : r.names.Nodup) (h : Helper) : (r.add h).names.Nodup := by
  rw [names, helpers_add, List.map_append, ← names]
  split
  case isTrue => rwa [List.map_nil, List.append_nil]
  case isFalse hfree =>
    rw [List.map_singleton, List.nodup_append]
    refine ⟨hr, List.nodup_singleton _, ?_⟩
    intro n hn m hm hnm
    rw [mem_names_iff, hnm, List.mem_singleton.1 hm] at hn
    exact hfree hn

theorem find?_of_mem (hr : r.names.Nodup) (hh : h ∈ r.helpers) : r.find? h.localName = some h := by
  obtain ⟨g, hg⟩ := Option.isSome_iff_exists.1 (mem_names_iff.1 (List.mem_map_of_mem hh))
  have hname : g.localName = h.localName := by simpa using List.find?_some hg
  rw [hg, List.inj_on_of_nodup_map hr (List.mem_of_find?_eq_some hg) hh hname]

/-- The registrations that no earlier one has the name of, in their order. -/
def firsts (hs : List Helper) : List Helper :=
  (hs.zipIdx.filter fun h => (hs.take h.2).all fun g => g.localName != h.1.localName).map Prod.fst

theorem firsts_concat (hs : List Helper) (h : Helper) : firsts (hs ++ [h]) =
    firsts hs ++ if (hs.find? fun g => g.localName == h.localName).isSome then [] else [h] := by
  -- what comes before an old registration is no more in the longer history
  have hold : ∀ g ∈ hs.zipIdx, (((hs ++ [h]).take g.2).all fun f => f.localName != g.1.localName) =
      (hs.take g.2).all fun f => f.localName != g.1.localName := by
    intro g hg
    have hlt := List.snd_lt_of_mem_zipIdx hg
    rw [List.take_append_of_le_length (Nat.le_of_lt hlt)]
  have hnew : (hs ++ [h]).take hs.length = hs := List.take_left
  have hfree : (hs.all fun g => g.localName != h.localName) =
      !(hs.find? fun g => g.localName == h.localName).isSome := by
    rw [Bool.eq_iff_iff]
    simp
  rw [firsts, List.zipIdx_append, List.filter_append, List.filter_congr hold, List.map_append,
    Nat.zero_add, ← firsts]
  simp only [List.zipIdx_singleton, List.filter_cons, List.filter_nil, hnew, hfree]
  cases (hs.find? fun g => g.localName == h.localName).isSome <;> rfl

theorem find?_history (hs : List Helper) (n : String) :
    (addAll {} hs).find? n = hs.find? fun h => h.localName == n := find?_addAll

theorem addAll_concat (r : Registry) (hs : List Helper) (h : Helper) :
    r.addAll (hs ++ [h]) = (r.addAll hs).add h :=
  List.foldl_append

theorem nodup_names_history (hs : List Helper) : (addAll {} hs).names.Nodup := by
  induction hs using List.reverseRecOn with
  | nil => exact .nil
  | append_singleton hs h ih =>
      rw [addAll_concat]
      exact nodup_names_add ih h

theorem helpers_history (hs : List Helper) : (addAll {} hs).helpers = firsts hs := by
  induction hs using List.reverseRecOn with
  | nil => rfl
  | append_singleton hs h ih =>
      rw [addAll_concat, helpers_add, ih, firsts_concat, find?_history]

/-- After any history each name that came up is bound to its first helper, in the order of these,
and has one declaration, which imports that helper. No later registration changes the helper of a
name, and those of bound names change nothing. -/
theorem first_registrations_stay (hs : List Helper) :
    let r := addAll {} hs
    r.helpers = firsts hs ∧
    (∀ n h, r.find? n = some h → ∀ more, (r.addAll more).find? n = some h) ∧
    (∀ again, (∀ h ∈ again, (r.find? h.localName).isSome) → r.addAll again = r) ∧
    r.declarations = (firsts hs).map (fun h =>
      "var " ++ h.localName ++ " = " ++ h.importExpr.code ++ ";") ∧
    r.names.Nodup ∧ (∀ n, n ∈ r.names ↔ n ∈ hs.map Helper.localName) ∧
    ∀ h ∈ r.helpers, hs.find? (fun g => g.localName == h.localName) = some h := by
  intro r
  refine ⟨helpers_history hs, ?_, ?_, ?_, nodup_names_history hs, ?_, ?_⟩
  · intro n h hn more
    rw [find?_addAll, hn, Option.some_or]
  · intro again hbound
    exact addAll_of_bound hbound
  · rw [declarations, helpers_history]
    apply List.map_congr_left
    intro h hh
    rw [Helper.declaration, Expr.statement, ← String.append_assoc]
  · intro n
    rw [mem_names_iff, find?_history]
    simp
  · intro h hh
    rw [← find?_history]
    exact find?_of_mem (nodup_names_history hs) hh

def conflicting : List Helper :=
  [⟨"widgets/taglib/WidgetFunctions", "widgetArgs", false, "_widgetArgs"⟩,
    ⟨"other", "widgetArgs", false, "_widgetArgs"⟩, ⟨"./runtime", "", true, "_runtime"⟩]

theorem conflicting_registrations :
    let first : Helper := ⟨"widgets/taglib/WidgetFunctions", "widgetArgs", false, "_widgetArgs"⟩
    let r := addAll {} conflicting
    r.find? "_widgetArgs" = some first ∧
      (∀ more, (r.addAll more).find? "_widgetArgs" = some first) ∧
      (∀ h ∈ conflicting.reverse, (r.find? h.localName).isSome) ∧
      r.addAll conflicting.reverse = r ∧
      r.declarations = [
        "var _widgetArgs = require(\"widgets/taglib/WidgetFunctions\").widgetArgs;",
        "var _runtime = require(\"./runtime\");"] := by
  intro first r
  obtain ⟨-, hkept, hagain, hdeclarations, -⟩ := first_registrations_stay conflicting
  have hfirst : r.find? "_widgetArgs" = some first := by decide
  have hbound : ∀ h ∈ conflicting.reverse, (r.find? h.localName).isSome := by decide
  refine ⟨hfirst, hkept _ _ hfirst, hbound, hagain _ hbound, ?_⟩
  rw [hdeclarations]
  decide

end WidgetMarkup.Registry
