import WidgetMarkup.Proofs.Removal
import WidgetMarkup.Proofs.Requests
import WidgetMarkup.Proofs.Settling

namespace WidgetMarkup.Expansion

section
variable (v : Vocabulary) (t : Tag)

theorem code_classStage : (classStage v t).tag.pre = t.pre ∧ (classStage v t).tag.post = t.post := by
  by_cases h : (t.attr? (v.name widgetAttr)).isSome
  · rw [tag_classStage_of_class v t h]
    split <;> exact ⟨rfl, rfl⟩
  · rw [classStage_of_no_class v t (by simpa using h)]
    exact ⟨rfl, rfl⟩

theorem code_elIdStage : (elIdStage v t).tag.pre = t.pre ∧ (elIdStage v t).tag.post = t.post := by
  cases h : t.attr? (v.name elIdAttr) with
  | none =>
      rw [elIdStage_of_no_elId v t h]
      exact ⟨rfl, rfl⟩
  | some value =>
      rw [tag_elIdStage_of_elId v t h]
      split <;> exact ⟨rfl, rfl⟩

theorem code_scopeStage : (scopeStage v t).tag.pre = t.pre ∧ (scopeStage v t).tag.post = t.post := by
  rw [scopeStage]
  split <;> exact ⟨rfl, rfl⟩

theorem pre_expandTag : (expandTag v t).tag.pre = t.pre ++ (expandTag v t).plan.pre.toList := by
  rw [tag_expandTag, (code_scopeStage v _).1, afterElId, (code_elIdStage v _).1, afterClass,
    (code_classStage v _).1, afterArgs, pre_argsStage]
  rfl

theorem post_expandTag : (expandTag v t).tag.post = t.post ++ (expandTag v t).plan.post.toList := by
  rw [tag_expandTag, (code_scopeStage v _).2, afterElId, (code_elIdStage v _).2, afterClass,
    (code_classStage v _).2, afterArgs, post_argsStage]
  rfl

theorem isSome_wrapper_classStage :
    (classStage v t).wrapper.isSome = (t.attr? (v.name widgetAttr)).isSome := by
  rw [classStage]
  cases t.attr? (v.name widgetAttr) <;> rfl

theorem assigned_elIdStage : (elIdStage v t).assigned =
    ((t.attr? (v.name elIdAttr)).isSome && (t.attr? (.plain idAttr)).isNone) := by
  have hid : (t.withoutAttr (v.name elIdAttr)).attr? (.plain idAttr) = t.attr? (.plain idAttr) :=
    Attribute.value?_without_of_ne (by simp)
  rw [elIdStage]
  cases t.attr? (v.name elIdAttr) with
  | none => rfl
  | some value =>
      simp only [hid]
      cases t.attr? (.plain idAttr) <;> rfl

theorem assigned_scopeStage : (scopeStage v t).assigned = true ↔
    t.name = v.name v.widgetTag ∧ (t.attr? (.plain idAttr)).isSome := by
  rw [scopeStage]
  split
  case isTrue h => exact iff_of_true rfl h
  case isFalse h => exact iff_of_false Bool.false_ne_true h

theorem scopeStage_of_not_assigned (h : (scopeStage v t).assigned = false) :
    scopeStage v t = { tag := t } := by
  rw [scopeStage, if_neg]
  rwa [← assigned_scopeStage, Bool.not_eq_true]

theorem widgetClass_plan :
    (expandTag v t).plan.stages.widgetClass = (t.attr? (v.name widgetAttr)).isSome := by
  rw [← attr?_afterArgs v t, ← isSome_wrapper_classStage]
  rfl

theorem elId_plan : (expandTag v t).plan.stages.elId = true ↔
    (t.attr? (v.name elIdAttr)).isSome ∧ t.attr? (v.name widgetAttr) = none ∧
      t.attr? (.plain idAttr) = none := by
  have hassigned : (expandTag v t).plan.stages.elId = (elIdStage v (afterClass v t)).assigned := rfl
  rw [hassigned, assigned_elIdStage, attr?_afterClass_elId, Bool.and_eq_true, ← Option.not_isSome,
    isSome_id_afterClass, Bool.not_or, Bool.and_eq_true, Option.not_isSome, Option.not_isSome,
    Option.isNone_iff_eq_none, Option.isNone_iff_eq_none, and_comm (b := _ = none)]

theorem widgetScope_plan : (expandTag v t).plan.stages.widgetScope = true ↔
    t.name = v.name v.widgetTag ∧ ((t.attr? (.plain idAttr)).isSome ∨
      (t.attr? (v.name widgetAttr)).isSome ∨ (expandTag v t).plan.stages.elId = true) := by
  have hassigned : (expandTag v t).plan.stages.widgetScope =
      (scopeStage v (afterElId v t)).assigned := rfl
  rw [hassigned, assigned_scopeStage, name_afterElId, isSome_id_afterElId, elId_plan]
  cases t.attr? (.plain idAttr) <;> cases t.attr? (v.name widgetAttr) <;> simp

/-- What the plan says is what was done to the element, and it says all of it. -/
structure Faithful (r : TagExpansion) : Prop where
  propertyArgs : r.plan.stages.propertyArgs = true ↔ AsksForCalls v t
  isSome_pre : r.plan.pre.isSome = r.plan.stages.propertyArgs
  isSome_post : r.plan.post.isSome = r.plan.stages.propertyArgs
  pre : r.tag.pre = t.pre ++ r.plan.pre.toList
  post : r.tag.post = t.post ++ r.plan.post.toList
  widgetClass : r.plan.stages.widgetClass = (t.attr? (v.name widgetAttr)).isSome
  wrapped : r.plan.wrapped = r.plan.stages.widgetClass
  isSome_wrapper : r.wrapper.isSome = r.plan.wrapped
  elId : r.plan.stages.elId = true ↔ (t.attr? (v.name elIdAttr)).isSome ∧
    t.attr? (v.name widgetAttr) = none ∧ t.attr? (.plain idAttr) = none
  widgetScope : r.plan.stages.widgetScope = true ↔ t.name = v.name v.widgetTag ∧
    ((t.attr? (.plain idAttr)).isSome ∨ (t.attr? (v.name widgetAttr)).isSome ∨
      r.plan.stages.elId = true)
  class_alone : r.plan.stages.widgetClass = true →
    r.plan.stages.propertyArgs = false ∧ r.plan.stages.elId = false
  unchanged : r.plan.isEmpty = true →
    (∀ children, r.node children = .element t children) ∧ ∀ s : Session, s.after r.effects = s

end

variable {v : Vocabulary} {t : Tag}

theorem class_alone_plan (h : (expandTag v t).plan.stages.widgetClass = true) :
    (expandTag v t).plan.stages.propertyArgs = false ∧ (expandTag v t).plan.stages.elId = false := by
  rw [widgetClass_plan] at h
  have hcalls : ¬AsksForCalls v t := fun hasks => by simp [hasks.1] at h
  rw [← Bool.not_eq_true, ← Bool.not_eq_true, elId_plan]
  constructor
  · exact fun hargs => hcalls (isSome_calls_argsStage_iff.1 hargs)
  · exact fun helId => by simp [helId.2.1] at h

theorem settled_of_isEmpty_plan (h : (expandTag v t).plan.isEmpty = true) : Settled v t := by
  rw [Plan.isEmpty, Bool.and_eq_true, List.isEmpty_iff] at h
  obtain ⟨hclass, helId, hrequests⟩ := of_removed_eq_nil v t h.2
  have hstays : afterElId v t = t := by
    rw [afterElId, afterClass, afterArgs, argsStage_of_no_request v t hrequests,
      classStage_of_no_class v t hclass, elIdStage_of_no_elId v t helId]
  have hscope : (scopeStage v t).assigned = false := by
    have hassigned : (expandTag v t).plan.stages.widgetScope =
        (scopeStage v (afterElId v t)).assigned := rfl
    have hempty := h.1
    simp only [Stages.isEmpty, Bool.and_eq_true, Bool.not_eq_true'] at hempty
    rw [← hempty.2, hassigned, hstays]
  refine ⟨hclass, helId, hrequests, ?_⟩
  rw [scopeStage_of_not_assigned v t hscope]

theorem unchanged_of_isEmpty_plan (h : (expandTag v t).plan.isEmpty = true) :
    (∀ children, (expandTag v t).node children = .element t children) ∧
      ∀ s : Session, s.after (expandTag v t).effects = s := by
  have hsettled := settled_of_isEmpty_plan h
  constructor
  · intro children
    rw [expandTag_of_settled hsettled]
    rfl
  · exact after_of_settled hsettled

/-- The stages in a plan are told by the element as it was, though each of them meets it as the
stages before it have left it. -/
theorem plan_faithful (v : Vocabulary) (t : Tag) : Faithful v t (expandTag v t) where
  propertyArgs := isSome_calls_argsStage_iff
  isSome_pre := Option.isSome_map
  isSome_post := Option.isSome_map
  pre := pre_expandTag v t
  post := post_expandTag v t
  widgetClass := widgetClass_plan v t
  wrapped := rfl
  isSome_wrapper := rfl
  elId := elId_plan v t
  widgetScope := widgetScope_plan v t
  class_alone := class_alone_plan
  unchanged := unchanged_of_isEmpty_plan

end WidgetMarkup.Expansion
