import WidgetMarkup.Proofs.Reports

namespace WidgetMarkup

def Value.placeholderErrors : Value → List String
  | text s =>
    match Interpolation.parse? s.toList with
    | none => [(CoercionProblem.unterminatedPlaceholder s).message]
    | some _ => []
  | code _ => []

theorem Coercion.diagnostics_ofValue (target : Target) (value : Value) (span : Option Span) :
    (Coercion.ofValue target true value).diagnostics span =
      value.placeholderErrors.map (Diagnostic.error span) := by
  cases value with
  | code e => rfl
  | text s =>
      rw [ofValue, ofText, Value.placeholderErrors]
      cases Interpolation.parse? s.toList with
      | none => rfl
      | some parts => cases target <;> rfl

theorem Field.Problem.report_eq (value subject : String) (p : Field.Problem) :
    p.report value subject = "Invalid value of \"" ++
      (value ++ ("\" for " ++ (subject ++ (". Error: " ++ p.message)))) := by
  unfold Field.Problem.report
  simp only [String.append_assoc]

theorem Binding.missingTargetMessage_eq (attr value : String) :
    missingTargetMessage attr value = "Invalid value of \"" ++
      (value ++ ("\" for event attribute \"" ++ (attr ++ "\". Target message not provided"))) := by
  unfold missingTargetMessage
  simp only [String.append_assoc]

theorem Binding.of_mem_diagnostics {attr source value : String} {span : Option Span} {d : Diagnostic}
    (h : d ∈ (Binding.parse attr source value span).2) :
    ∃ rest, d = .error span ("Invalid value of \"" ++ rest) := by
  have hfields : ∀ d ∈ (Field.split schema (options attr span) value).diagnostics
      (options attr span) value, ∃ rest, d = .error span ("Invalid value of \"" ++ rest) := by
    rw [Field.Parsed.diagnostics, List.forall_mem_map]
    intro problem _
    exact ⟨_, congrArg (Diagnostic.error span) (problem.report_eq value _)⟩
  rw [parse] at h
  split at h
  case h_1 => exact hfields d h
  case h_2 =>
    rcases List.mem_append.1 h with h | h
    · exact hfields d h
    · rw [List.mem_singleton.1 h, missingTargetMessage_eq]
      exact ⟨_, rfl⟩

theorem Binding.diagnostics_parse (attr source value : String) (span : Option Span) :
    (Binding.parse attr source value span).2 =
      ((Binding.parse attr source value span).2.map Diagnostic.message).map (Diagnostic.error span) := by
  rw [List.map_map, List.map_congr_left, List.map_id]
  intro d hd
  obtain ⟨rest, rfl⟩ := of_mem_diagnostics hd
  rfl

namespace Expansion

open Coercion Node

variable (v : Vocabulary) (t : Tag)

/-- An element id has no effect on an element that has an id or gets one from its widget. -/
def Conflicted : Prop :=
  (t.attr? (v.name elIdAttr)).isSome ∧
    ((t.attr? (.plain idAttr)).isSome ∨ (t.attr? (v.name widgetAttr)).isSome)

instance : Decidable (Conflicted v t) := inferInstanceAs (Decidable (_ ∧ _))

def propErrors (span : Option Span) (p : Attribute) : List String :=
  if p.name = v.name idAttr then p.value.placeholderErrors
  else if isEvent v p.name then
    (Binding.parse p.name.localName (String.ofList (p.name.localName.toList.drop eventLabel.length))
      p.value.source span).2.map Diagnostic.message
  else []

def attrErrors (n : Name) : List String := (t.attr? n).toList.flatMap Value.placeholderErrors

def errors : List String :=
  (if (t.attr? (v.name widgetAttr)).isSome then
    [v.name widgetAttr, v.name idAttr, v.name configAttr, .plain idAttr].flatMap (attrErrors t)
  else t.props.flatMap (propErrors v t.span)) ++
    if Conflicted v t then [elIdConflictMessage v.label] else []

theorem problems_request? (span : Option Span) (p : Attribute) :
    (request? v p).toList.flatMap (fun r => (r.answer span).problems) =
      (propErrors v span p).map (Diagnostic.error span) := by
  rw [request?_eq, propErrors]
  split
  · exact (List.append_nil _).trans (diagnostics_ofValue .text p.value span)
  · split
    · exact (List.append_nil _).trans (Binding.diagnostics_parse _ _ _ span)
    · rfl

theorem problems_argsStage (h : t.attr? (v.name widgetAttr) = none) : (argsStage v t).problems =
    (t.props.flatMap (propErrors v t.span)).map (Diagnostic.error t.span) := by
  have hproblems : (argsStage v t).problems =
      ((t.props.filterMap (request? v)).map (Request.answer t.span)).flatMap Answer.problems := by
    simp only [argsStage, h]
  rw [hproblems, List.flatMap_map, List.filterMap_eq_flatMap_toList, List.flatMap_assoc,
    List.map_flatMap]
  exact List.flatMap_congr fun p _ => problems_request? v t.span p

theorem problems_classStage (h : (t.attr? (v.name widgetAttr)).isSome) : (classStage v t).problems =
    ([v.name widgetAttr, v.name idAttr, v.name configAttr, .plain idAttr].flatMap (attrErrors t)).map
      (Diagnostic.error t.span) := by
  have hattr (target : Target) (n : Name) :
      ((t.attr? n).map (ofValue target true)).toList.flatMap (diagnostics t.span) =
        (attrErrors t n).map (Diagnostic.error t.span) := by
    rw [attrErrors]
    cases t.attr? n <;> simp [diagnostics_ofValue]
  obtain ⟨cls, hcls⟩ := Option.isSome_iff_exists.1 h
  have hpath := hattr .text (v.name widgetAttr)
  simp only [hcls, Option.map_some, Option.toList_some, List.flatMap_singleton] at hpath
  simp only [classStage, hcls, List.flatMap_cons, List.flatMap_append, List.flatMap_nil, hpath, hattr,
    List.map_append, List.append_assoc, List.append_nil]

theorem problems_elIdStage : (elIdStage v t).problems =
    if (t.attr? (v.name elIdAttr)).isSome ∧ (t.attr? (.plain idAttr)).isSome
    then [.error t.span (elIdConflictMessage v.label)] else [] := by
  cases he : t.attr? (v.name elIdAttr) with
  | none => rw [elIdStage_of_no_elId v t he, if_neg (by simp)]
  | some value =>
      have hid : (t.withoutAttr (v.name elIdAttr)).attr? (.plain idAttr) = t.attr? (.plain idAttr) :=
        Attribute.value?_without_of_ne (by simp)
      simp only [elIdStage, he, hid]
      cases t.attr? (.plain idAttr) <;> rfl

theorem problems_eq_errors : (expandTag v t).effects.filterMap Effect.problem? =
    (errors v t).map (Diagnostic.error t.span) := by
  have hconflict : (elIdStage v (afterClass v t)).problems =
      (if Conflicted v t then [elIdConflictMessage v.label] else []).map (Diagnostic.error t.span) := by
    rw [problems_elIdStage, attr?_afterClass_elId, isSome_id_afterClass, span_afterClass, apply_ite (List.map _)]
    exact if_congr (by rw [Conflicted, Bool.or_eq_true]) rfl rfl
  rw [problems_expandTag, hconflict, errors, List.map_append]
  congr 1
  by_cases hclass : (t.attr? (v.name widgetAttr)).isSome
  · rw [if_pos hclass, afterArgs, argsStage_of_class v t hclass, problems_classStage v t hclass,
      List.nil_append]
  · have hnone : t.attr? (v.name widgetAttr) = none := by simpa using hclass
    rw [if_neg hclass, problems_argsStage v t hnone, classStage_of_no_class v _ (by rwa [attr?_afterArgs]),
      List.append_nil]

/-- What a later stage does to an element is told by what is written on the element, whatever has
been reported before. -/
structure Undeterred (r : TagExpansion) : Prop where
  removed : r.plan.removed = if (t.attr? (v.name widgetAttr)).isSome
    then present v t [widgetAttr, idAttr, configAttr, elIdAttr]
    else (t.props.map Attribute.name).filter (isRequest v) ++ present v t [elIdAttr]
  wrapped : r.wrapper.isSome = (t.attr? (v.name widgetAttr)).isSome
  hasId : (r.tag.attr? (.plain idAttr)).isSome = ((t.attr? (.plain idAttr)).isSome ||
    (t.attr? (v.name widgetAttr)).isSome || (t.attr? (v.name elIdAttr)).isSome)
  inScope : r.plan.stages.widgetScope = true ↔
    t.name = v.name v.widgetTag ∧ (r.tag.attr? (.plain idAttr)).isSome

theorem undeterred : Undeterred v t (expandTag v t) where
  removed := removed_expandTag v t
  wrapped := by
    rw [wrapper_expandTag, isSome_wrapper_classStage, attr?_afterArgs]
  hasId := by
    rw [tag_expandTag, (frame_scopeStage v _).attr?_eq rfl, isSome_id_afterElId]
  inScope := by
    have hassigned : (expandTag v t).plan.stages.widgetScope =
        (scopeStage v (afterElId v t)).assigned := rfl
    rw [hassigned, assigned_scopeStage, name_afterElId, tag_expandTag,
      (frame_scopeStage v _).attr?_eq rfl]

/-- A run appends the errors of one element after the other, parents first, each with the place of
its element. None of them keeps a later stage or a later element from its turn. -/
theorem diagnostics_accounted (v : Vocabulary) (s : Session) (ns : List Node) :
    let run := expandForest v ns
    (s.after run.effects).diagnostics = s.diagnostics ++ (forestTags ns).flatMap (fun t =>
      (errors v t).map fun message => ⟨t.span, message, .error⟩) ∧
    run.plans = (forestTags ns).map (fun t => (expandTag v t).plan) ∧
    forestTags run.result = (forestTags ns).flatMap (fun t => (expandTag v t).tags) ∧
    ∀ t, Undeterred v t (expandTag v t) := by
  intro run
  refine ⟨?_, plans_expandForest v ns, tags_expandForest v ns, undeterred v⟩
  simp only [run, Session.after, effects_expandForest, List.filterMap_flatMap, problems_eq_errors]
  rfl

end Expansion
end WidgetMarkup
