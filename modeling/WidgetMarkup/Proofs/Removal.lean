import WidgetMarkup.Proofs.Forest
import WidgetMarkup.Proofs.Stages

namespace WidgetMarkup.Expansion

open Attribute Node

variable (v : Vocabulary) (t : Tag)

def present (localNames : List String) : List Name :=
  (localNames.map v.name).filter fun n => (t.attr? n).isSome

/-- Properties after the last stage. A widget tag that has an id by then is given its scope. -/
def inScope (props : List Attribute) : List Attribute :=
  if t.name = v.name v.widgetTag ∧ ((t.attr? (.plain idAttr)).isSome ∨
      (t.attr? (v.name widgetAttr)).isSome ∨ (t.attr? (v.name elIdAttr)).isSome)
  then put (.plain "scope") widgetVariable props else props

theorem props_expandTag :
    (expandTag v t).tag.props = inScope v t (if (t.attr? (v.name widgetAttr)).isSome then t.props
      else t.props.filter fun p => !isRequest v p.name) := by
  rw [tag_expandTag, scopeStage, ← props_afterElId, name_afterElId, isSome_id_afterElId, inScope]
  simp only [Bool.or_eq_true, or_assoc]
  split <;> rfl

theorem removed_classStage (h : (t.attr? (v.name widgetAttr)).isSome) :
    (classStage v t).removed = present v t [widgetAttr, idAttr, configAttr] := by
  obtain ⟨cls, hc⟩ := Option.isSome_iff_exists.1 h
  simp only [classStage, hc, present]
  cases hid : t.attr? (v.name idAttr) <;> cases hconfig : t.attr? (v.name configAttr) <;>
    simp [hc, hid, hconfig]

theorem removed_elIdStage : (elIdStage v t).removed = present v t [elIdAttr] := by
  cases h : t.attr? (v.name elIdAttr) with
  | none =>
      rw [elIdStage_of_no_elId v t h]
      simp [present, h]
  | some value =>
      simp only [elIdStage, h, present]
      split <;> simp [h]

theorem removed_expandTag : (expandTag v t).plan.removed =
    if (t.attr? (v.name widgetAttr)).isSome then present v t [widgetAttr, idAttr, configAttr, elIdAttr]
    else (t.props.map Attribute.name).filter (isRequest v) ++ present v t [elIdAttr] := by
  have hremoved : (expandTag v t).plan.removed = (argsStage v t).removed ++
    (classStage v (afterArgs v t)).removed ++ (elIdStage v (afterClass v t)).removed := rfl
  have hpresent (localNames : List String) :
      present v (afterArgs v t) localNames = present v t localNames := by
    simp only [present, attr?_afterArgs]
  have helId : present v (afterClass v t) [elIdAttr] = present v t [elIdAttr] := by
    simp only [present, List.map_cons, List.map_nil, List.filter_cons, List.filter_nil,
      attr?_afterClass_elId]
  rw [hremoved, removed_elIdStage, helId]
  split
  case isTrue h =>
    rw [argsStage_of_class v t h, removed_classStage v _ (by rwa [attr?_afterArgs]), hpresent,
      List.nil_append, present, present, present, ← List.filter_append, ← List.map_append]
    rfl
  case isFalse h =>
    have hnone : t.attr? (v.name widgetAttr) = none := by simpa using h
    rw [removed_argsStage v t hnone, classStage_of_no_class v _ (by rwa [attr?_afterArgs]),
      List.append_nil]

theorem of_removed_eq_nil (h : (expandTag v t).plan.removed = []) :
    t.attr? (v.name widgetAttr) = none ∧ t.attr? (v.name elIdAttr) = none ∧
      ∀ p ∈ t.props, isRequest v p.name = false := by
  rw [removed_expandTag] at h
  split at h
  case isTrue hclass => simp [present, hclass] at h
  case isFalse hclass =>
    obtain ⟨hrequests, helId⟩ := List.append_eq_nil_iff.1 h
    refine ⟨by simpa using hclass, by simpa [present] using helId, ?_⟩
    intro p hp
    simpa using List.filter_eq_nil_iff.1 hrequests p.name (List.mem_map_of_mem hp)

/-- The attributes but for the id, which an expansion may add. -/
def besideId (as : List Attribute) : List Attribute := as.filter fun a => a.name != .plain idAttr

theorem besideId_put (value : Value) (as : List Attribute) :
    besideId (put (.plain idAttr) value as) = besideId as :=
  @filter_put _ value as (fun n => n != .plain idAttr) (by simp)

theorem besideId_without (localName : String) (as : List Attribute) :
    besideId (without (v.name localName) as) = without (v.name localName) (besideId as) :=
  @filter_without_of_kept _ as (fun n => n != .plain idAttr) (by simp)

theorem besideId_classStage (h : (t.attr? (v.name widgetAttr)).isSome) :
    besideId (classStage v t).tag.attrs =
      besideId (withoutEach ([widgetAttr, idAttr, configAttr].map v.name) t.attrs) := by
  rw [tag_classStage_of_class v t h]
  split
  · rfl
  · exact besideId_put _ _

theorem besideId_elIdStage : besideId (elIdStage v t).tag.attrs =
    without (v.name elIdAttr) (besideId t.attrs) := by
  rw [← besideId_without]
  cases h : t.attr? (v.name elIdAttr) with
  | none => rw [elIdStage_of_no_elId v t h, without_of_value?_eq_none h]
  | some value =>
      rw [tag_elIdStage_of_elId v t h]
      split
      · rfl
      · exact besideId_put _ _

theorem attrs_expandTag : besideId (expandTag v t).tag.attrs = besideId (withoutEach
    (present v t (if (t.attr? (v.name widgetAttr)).isSome
      then [widgetAttr, idAttr, configAttr, elIdAttr] else [elIdAttr])) t.attrs) := by
  have hattrs {A B : Tag} {keepProp : Name → Bool} (h : Tag.Frame (fun _ => true) keepProp A B) :
      B.attrs = A.attrs := by simpa only [List.filter_true] using h.attrs
  have hargs : (afterArgs v t).attrs = t.attrs := attrs_argsStage v t
  rw [tag_expandTag, hattrs (frame_scopeStage v _), afterElId, besideId_elIdStage, afterClass,
    present, show (fun n => (t.attr? n).isSome) = fun n => (value? n t.attrs).isSome from rfl,
    withoutEach_filter_present fun _ h => h]
  split
  case isTrue h =>
    have hsplit : [widgetAttr, idAttr, configAttr, elIdAttr].map v.name =
        [widgetAttr, idAttr, configAttr].map v.name ++ [v.name elIdAttr] := rfl
    rw [besideId_classStage v _ (by rwa [attr?_afterArgs]), hargs, hsplit, withoutEach_append,
      ← besideId_without]
    rfl
  case isFalse h =>
    rw [classStage_of_no_class v _ (by simpa [attr?_afterArgs] using h), hargs, ← besideId_without]
    rfl

theorem attr?_of_mem_result {ns : List Node} {name : Name}
    (h : ∀ t ∈ forestTags ns, (expandTag v t).tag.attr? name = none) :
    ∀ t ∈ forestTags (expandForest v ns).result, t.attr? name = none := by
  intro t ht
  rw [tags_expandForest] at ht
  obtain ⟨t₀, ht₀, ht⟩ := List.mem_flatMap.1 ht
  rw [TagExpansion.tags, List.mem_append, Option.mem_toList, List.mem_singleton] at ht
  rcases ht with hw | rfl
  · exact attr?_wrapper v t₀ hw name
  · exact h t₀ ht₀

theorem taken_of_no_class (h : t.attr? (v.name widgetAttr) = none) :
    (expandTag v t).plan.removed =
      (t.props.map Attribute.name).filter (isRequest v) ++ present v t [elIdAttr] ∧
    (expandTag v t).tag.props = inScope v t (t.props.filter fun p => !isRequest v p.name) ∧
    withoutEach ((t.props.map Attribute.name).filter (isRequest v)) t.props =
      (t.props.filter fun p => !isRequest v p.name) ∧
    besideId (expandTag v t).tag.attrs = besideId (withoutEach (present v t [elIdAttr]) t.attrs) := by
  have hclass : ¬(t.attr? (v.name widgetAttr)).isSome := by simp [h]
  refine ⟨?_, ?_, ?_, ?_⟩
  · rw [removed_expandTag, if_neg hclass]
  · rw [props_expandTag, if_neg hclass]
  · rw [← removed_argsStage v t h, ← props_argsStage, props_argsStage_of_no_class v t h]
  · rw [attrs_expandTag, if_neg hclass]

theorem taken_of_class (h : (t.attr? (v.name widgetAttr)).isSome) :
    (expandTag v t).plan.removed = present v t [widgetAttr, idAttr, configAttr, elIdAttr] ∧
    (expandTag v t).tag.props = inScope v t t.props ∧
    besideId (expandTag v t).tag.attrs =
      besideId (withoutEach (present v t [widgetAttr, idAttr, configAttr, elIdAttr]) t.attrs) := by
  refine ⟨?_, ?_, ?_⟩
  · rw [removed_expandTag, if_pos h]
  · rw [props_expandTag, if_pos h]
  · rw [attrs_expandTag, if_pos h]

theorem no_markup_left {ns : List Node}
    (h : ∀ t ∈ forestTags ns, t.attrs.countP (fun a => a.name == v.name widgetAttr) ≤ 1 ∧
      t.attrs.countP (fun a => a.name == v.name elIdAttr) ≤ 1) :
    ∀ t ∈ forestTags (expandForest v ns).result,
      t.attr? (v.name widgetAttr) = none ∧ t.attr? (v.name elIdAttr) = none := by
  intro t ht
  constructor
  · exact attr?_of_mem_result v (fun t ht => attr?_expandTag_class v t (h t ht).1) t ht
  · exact attr?_of_mem_result v (fun t ht => attr?_expandTag_elId v t (h t ht).2) t ht

/-- The markup on an element is taken off and listed entry by entry, with or without problems in it,
and nothing else is. An element with a widget class keeps its properties. A widget tag with an id is
given a scope besides. Where no element has two widget classes or two element ids, none of them is
left in the template. -/
theorem markup_removed_once (v : Vocabulary) (ns : List Node) :
    (∀ t : Tag, t.attr? (v.name widgetAttr) = none →
      (expandTag v t).plan.removed =
        (t.props.map Attribute.name).filter (isRequest v) ++ present v t [elIdAttr] ∧
      (expandTag v t).tag.props = inScope v t (t.props.filter fun p => !isRequest v p.name) ∧
      withoutEach ((t.props.map Attribute.name).filter (isRequest v)) t.props =
        (t.props.filter fun p => !isRequest v p.name) ∧
      besideId (expandTag v t).tag.attrs =
        besideId (withoutEach (present v t [elIdAttr]) t.attrs)) ∧
    (∀ t : Tag, (t.attr? (v.name widgetAttr)).isSome →
      (expandTag v t).plan.removed = present v t [widgetAttr, idAttr, configAttr, elIdAttr] ∧
      (expandTag v t).tag.props = inScope v t t.props ∧
      besideId (expandTag v t).tag.attrs =
        besideId (withoutEach (present v t [widgetAttr, idAttr, configAttr, elIdAttr]) t.attrs)) ∧
    ((∀ t ∈ forestTags ns, t.attrs.countP (fun a => a.name == v.name widgetAttr) ≤ 1 ∧
        t.attrs.countP (fun a => a.name == v.name elIdAttr) ≤ 1) →
      ∀ t ∈ forestTags (expandForest v ns).result,
        t.attr? (v.name widgetAttr) = none ∧ t.attr? (v.name elIdAttr) = none) :=
  ⟨fun t h => taken_of_no_class v t h, fun t h => taken_of_class v t h, no_markup_left v⟩

def dialog : List Node :=
  let v : Vocabulary := {}
  [.element { name := v.name v.widgetTag, attrs := [⟨v.name widgetAttr, .text "./Dialog", none⟩,
      ⟨v.name elIdAttr, .text "dialog", none⟩] }
    [.element { name := .plain "button", props := [⟨v.name "event-click", .text "onSave", none⟩,
        ⟨.plain "title", .text "Save", none⟩, ⟨v.name "event-click", .text "", none⟩] } []]]

theorem dialog_markup_removed :
    (∀ t ∈ forestTags dialog,
      t.attrs.countP (fun a => a.name == ({} : Vocabulary).name widgetAttr) ≤ 1 ∧
        t.attrs.countP (fun a => a.name == ({} : Vocabulary).name elIdAttr) ≤ 1) ∧
      ∀ t ∈ forestTags (expandForest {} dialog).result,
        t.attr? (({} : Vocabulary).name widgetAttr) = none ∧
          t.attr? (({} : Vocabulary).name elIdAttr) = none := by
  have hsingle : ∀ t ∈ forestTags dialog,
      t.attrs.countP (fun a => a.name == ({} : Vocabulary).name widgetAttr) ≤ 1 ∧
        t.attrs.countP (fun a => a.name == ({} : Vocabulary).name elIdAttr) ≤ 1 := by
    simp only [dialog, forestTags, Node.tags, List.append_nil, List.forall_mem_cons]
    exact ⟨by decide, by decide, by simp⟩
  exact ⟨hsingle, (markup_removed_once {} dialog).2.2 hsingle⟩

/-- A widget tag with an id has a property more afterwards, which is not one of the markup. -/
theorem widget_tag_gains_scope :
    ¬∀ (v : Vocabulary) (t : Tag), t.attr? (v.name widgetAttr) = none →
      (expandTag v t).tag.props = t.props.filter fun p => !isRequest v p.name := by
  intro h
  have hprops := h {} ((Tag.handler "widgets" "widget").putAttr (.plain idAttr) (.text "w1")) rfl
  have hlength := congrArg List.length hprops
  revert hlength
  decide

end WidgetMarkup.Expansion
