import WidgetMarkup.Proofs.Stages

namespace WidgetMarkup.Expansion

open Coercion

variable {v : Vocabulary} {t : Tag}

theorem id?_request? (span : Option Span) (p : Attribute) :
    (request? v p).bind (Answer.id? ∘ Request.answer span) =
      if p.name = v.name idAttr then some (ofValue .text true p.value).expr else none := by
  rw [request?_eq]
  split
  · rfl
  · split <;> rfl

theorem request?_of_isEvent {p : Attribute} (h : isEvent v p.name = true) :
    ∃ source, request? v p = some (.event p.name.localName source p.value) := by
  have hid : p.name ≠ v.name idAttr := by
    intro hid
    rw [hid, isEvent_id] at h
    cases h
  exact ⟨_, by rw [request?_eq, if_neg hid, if_pos h]⟩

theorem isEvent_of_request? {p : Attribute} {attr source : String} {value : Value}
    (h : request? v p = some (.event attr source value)) :
    isEvent v p.name = true ∧ value = p.value := by
  rw [request?_eq] at h
  split at h
  · cases h
  · split at h
    case isTrue hevent =>
      cases h
      exact ⟨hevent, rfl⟩
    case isFalse => cases h

theorem filterMap_answers {α : Type} {span : Option Span} {part : Answer → Option α}
    {asked : Attribute → Bool} {own : Attribute → Option α}
    (h : ∀ p, (request? v p).bind (part ∘ Request.answer span) = if asked p then own p else none)
    (props : List Attribute) :
    ((props.filterMap (request? v)).map (Request.answer span)).filterMap part =
      (props.filter asked).filterMap own := by
  rw [List.filterMap_map, List.filterMap_filterMap, List.filterMap_filter]
  exact List.filterMap_congr fun p _ => h p

theorem ids_eq (span : Option Span) (props : List Attribute) :
    ((props.filterMap (request? v)).map (Request.answer span)).filterMap Answer.id? =
      (props.filter fun p => p.name == v.name idAttr).map fun p =>
        (ofValue .text true p.value).expr := by
  have hids (p : Attribute) : (request? v p).bind (Answer.id? ∘ Request.answer span) =
      if p.name == v.name idAttr then some (ofValue .text true p.value).expr else none := by
    simpa using id?_request? span p
  rw [filterMap_answers hids, List.filterMap_eq_map']

def binding? (span : Option Span) (p : Attribute) : Option Binding :=
  (Binding.parse p.name.localName
    (String.ofList (p.name.localName.toList.drop eventLabel.length)) p.value.source span).1

theorem binding?_request? (span : Option Span) (p : Attribute) :
    (request? v p).bind (Answer.binding? ∘ Request.answer span) =
      if isEvent v p.name then binding? span p else none := by
  rw [request?_eq]
  by_cases hid : p.name = v.name idAttr
  · rw [if_pos hid, hid, isEvent_id]
    rfl
  · rw [if_neg hid]
    split <;> rfl

theorem bindings_eq (span : Option Span) (props : List Attribute) :
    ((props.filterMap (request? v)).map (Request.answer span)).filterMap Answer.binding? =
      (props.filter fun p => isEvent v p.name).filterMap (binding? span) :=
  filterMap_answers (binding?_request? span) props

/-- The widget id that is used, which is the last one. -/
def usedId? (v : Vocabulary) (t : Tag) : Option Value :=
  (t.props.filter fun p => p.name == v.name idAttr).getLast?.map Attribute.value

theorem argsOf_eq (answers : List Answer) : argsOf answers =
    { id := (answers.filterMap Answer.id?).getLast?
      scope := (answers.filterMap Answer.id?).getLast?.map fun _ => widgetScope
      events := Binding.listExpr? (answers.filterMap Answer.binding?) } := by
  rw [argsOf]
  cases (answers.filterMap Answer.id?).getLast? <;> rfl

theorem id_argsOf (answers : List Answer) :
    (argsOf answers).id = (answers.filterMap Answer.id?).getLast? := by
  rw [argsOf_eq]

theorem events_argsOf (answers : List Answer) :
    (argsOf answers).events = Binding.listExpr? (answers.filterMap Answer.binding?) := by
  rw [argsOf_eq]

theorem calls?_eq_some {args : CallArgs} {c : Calls} (h : calls? v args = some c) :
    c = ⟨.call (.var v.argsHelper.localName) args.toList,
      .call (.var v.cleanupHelper.localName) []⟩ := by
  rw [calls?] at h
  split at h
  · cases h
  · exact (Option.some.inj h).symm

theorem isEmpty_argsOf (answers : List Answer) : (argsOf answers).isEmpty =
    ((answers.filterMap Answer.id?).isEmpty && (answers.filterMap Answer.binding?).isEmpty) := by
  cases hids : (answers.filterMap Answer.id?).getLast? with
  | none =>
      have hempty : answers.filterMap Answer.id? = [] := List.getLast?_eq_none_iff.1 hids
      rw [argsOf, hids, hempty]
      cases answers.filterMap Answer.binding? <;> rfl
  | some e =>
      have hne : answers.filterMap Answer.id? ≠ [] := by
        intro hempty
        rw [hempty] at hids
        cases hids
      rw [argsOf, hids, List.isEmpty_eq_false_iff.2 hne]
      rfl

/-- An element is called around if it has an id of the markup, or an event property that stands for
a binding, and no class that keeps its properties as they are. -/
def AsksForCalls (v : Vocabulary) (t : Tag) : Prop :=
  t.attr? (v.name widgetAttr) = none ∧
    ((∃ p ∈ t.props, p.name = v.name idAttr) ∨
      ∃ p ∈ t.props, isEvent v p.name = true ∧ (binding? t.span p).isSome)

theorem isSome_calls_argsStage_iff : (argsStage v t).calls.isSome = true ↔ AsksForCalls v t := by
  cases hclass : t.attr? (v.name widgetAttr) with
  | some cls => simp [argsStage, AsksForCalls, hclass]
  | none =>
      have hcalls (args : CallArgs) : (calls? v args).isSome = !args.isEmpty := by
        rw [calls?]
        cases args.isEmpty <;> rfl
      simp only [argsStage, hclass, AsksForCalls, true_and]
      rw [hcalls, isEmpty_argsOf, ids_eq, bindings_eq, Bool.not_and, Bool.or_eq_true]
      apply or_congr
      · simp [List.isEmpty_eq_false_iff, List.filter_eq_nil_iff]
      · simp only [Bool.not_eq_true', List.isEmpty_eq_false_iff, Ne, List.filterMap_eq_nil_iff,
          List.mem_filter, not_forall, Option.isSome_iff_ne_none, and_assoc, exists_prop]

end WidgetMarkup.Expansion
