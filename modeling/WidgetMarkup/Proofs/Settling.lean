import WidgetMarkup.Proofs.Sessions

namespace WidgetMarkup

/-- A plan under which nothing is taken off, added, wrapped or called. It may still give a widget
tag the scope that it has already. -/
structure Plan.Idle (p : Plan) : Prop where
  removed : p.removed = []
  wrapped : p.wrapped = false
  pre : p.pre = none
  post : p.post = none
  bindings : p.bindings = []
  propertyArgs : p.stages.propertyArgs = false
  widgetClass : p.stages.widgetClass = false
  elId : p.stages.elId = false

namespace Expansion

open Node

variable (v : Vocabulary)

/-- An element that a single run takes all widget markup off. -/
structure Tidy (t : Tag) : Prop where
  one_class : t.attrs.countP (fun a => a.name == v.name widgetAttr) ≤ 1
  one_elId : t.attrs.countP (fun a => a.name == v.name elIdAttr) ≤ 1
  no_request : (t.attr? (v.name widgetAttr)).isSome → ∀ p ∈ t.props, isRequest v p.name = false

/-- An element with no widget markup left. If it is a widget tag with an id, it has its scope. -/
structure Settled (t : Tag) : Prop where
  no_class : t.attr? (v.name widgetAttr) = none
  no_elId : t.attr? (v.name elIdAttr) = none
  no_request : ∀ p ∈ t.props, isRequest v p.name = false
  in_scope : (scopeStage v t).tag = t

variable {v} {t : Tag}

theorem expandTag_of_settled (h : Settled v t) :
    expandTag v t =
      { tag := t
        wrapper := none
        plan := { stages := { widgetScope := (scopeStage v t).assigned } }
        effects := if (scopeStage v t).assigned then
          [.expanded t.name { widgetScope := true } 0] else [] } := by
  have hargs := argsStage_of_no_request v t h.no_request
  have hclass := classStage_of_no_class v t h.no_class
  have helId := elIdStage_of_no_elId v t h.no_elId
  rw [expandTag, hargs, hclass, helId]
  cases (scopeStage v t).assigned <;> simp [h.in_scope, Plan.isEmpty, Stages.isEmpty]

theorem tags_of_settled (h : Settled v t) : (expandTag v t).tags = [t] := by
  rw [expandTag_of_settled h]
  rfl

theorem idle_of_settled (h : Settled v t) : (expandTag v t).plan.Idle := by
  rw [expandTag_of_settled h]
  exact ⟨rfl, rfl, rfl, rfl, rfl, rfl, rfl, rfl⟩

theorem after_of_settled (h : Settled v t) (s : Session) : s.after (expandTag v t).effects = s := by
  rw [expandTag_of_settled h, Session.after]
  cases (scopeStage v t).assigned
  · simp [Registry.addAll]
  · simp [List.filterMap_cons, Effect.problem?, Effect.helper?, Registry.addAll]

theorem scopeStage_scopeStage (t : Tag) :
    (scopeStage v (scopeStage v t).tag).tag = (scopeStage v t).tag := by
  by_cases h : t.name = v.name v.widgetTag ∧ (t.attr? (.plain idAttr)).isSome
  · have ht : (scopeStage v t).tag = t.putProp (.plain "scope") widgetVariable := by
      rw [scopeStage, if_pos h]
    have htwice : (scopeStage v (t.putProp (.plain "scope") widgetVariable)).tag =
        (t.putProp (.plain "scope") widgetVariable).putProp (.plain "scope") widgetVariable := by
      rw [scopeStage]
      exact congrArg ScopeStage.tag (if_pos h)
    rw [ht, htwice]
    simp only [Tag.putProp, Attribute.put_put]
  · have ht : (scopeStage v t).tag = t := by rw [scopeStage, if_neg h]
    rw [ht, ht]

theorem mem_props_scopeStage {p : Attribute} (h : p ∈ (scopeStage v t).tag.props) :
    p.name = .plain "scope" ∨ ∃ q ∈ t.props, q.name = p.name := by
  rw [scopeStage] at h
  split at h
  · exact (Attribute.of_mem_put h).imp And.left fun hp => ⟨p, hp, rfl⟩
  · exact .inr ⟨p, h, rfl⟩

theorem no_request_afterElId (h : Tidy v t) :
    ∀ p ∈ (afterElId v t).props, isRequest v p.name = false := by
  rw [props_afterElId]
  split
  case isTrue hc => exact h.no_request hc
  case isFalse =>
    intro p hp
    simpa using (List.mem_filter.1 hp).2

theorem settled_tag (h : Tidy v t) : Settled v (expandTag v t).tag := by
  constructor
  case no_class => exact attr?_expandTag_class v t h.one_class
  case no_elId => exact attr?_expandTag_elId v t h.one_elId
  case no_request =>
    intro p hp
    rcases mem_props_scopeStage hp with hs | ⟨q, hq, he⟩
    · rw [hs, isRequest_plain]
    · rw [← he]
      exact no_request_afterElId h q hq
  case in_scope => exact scopeStage_scopeStage _

theorem settled_wrapper {w : Tag} (h : (expandTag v t).wrapper = some w) : Settled v w := by
  have hattr := attr?_wrapper v t h
  obtain ⟨path, config, id, elId, rfl⟩ := wrapper_classStage v _ (wrapper_expandTag v t ▸ h)
  constructor
  case no_class => exact hattr _
  case no_elId => exact hattr _
  case no_request =>
    rw [props_wrapperTag]
    cases config <;> cases id <;> cases elId <;> simp [entry]
  case in_scope => rw [scopeStage, if_neg (by simp [hattr])]

theorem settled_expandForest {ns : List Node} (h : ∀ t ∈ forestTags ns, Tidy v t) :
    ∀ t ∈ forestTags (expandForest v ns).result, Settled v t := by
  intro t ht
  rw [tags_expandForest] at ht
  obtain ⟨t₀, ht₀, ht⟩ := List.mem_flatMap.1 ht
  rw [TagExpansion.tags, List.mem_append, Option.mem_toList, List.mem_singleton] at ht
  rcases ht with hw | rfl
  · exact settled_wrapper hw
  · exact settled_tag (h t₀ ht₀)

theorem idle_of_forest_settled {ns : List Node} (h : ∀ t ∈ forestTags ns, Settled v t) :
    ∀ p ∈ (expandForest v ns).plans, p.Idle := by
  intro p hp
  rw [plans_expandForest] at hp
  obtain ⟨t, ht, rfl⟩ := List.mem_map.1 hp
  exact idle_of_settled (h t ht)

theorem after_of_forest_settled {ns : List Node} (h : ∀ t ∈ forestTags ns, Settled v t)
    (s : Session) : s.after (expandForest v ns).effects = s := by
  rw [effects_expandForest]
  exact Session.after_flatMap_of_forall (fun t ht => after_of_settled (h t ht)) s

/-- A second run over a tidy template changes no node, registers no helper and reports nothing. -/
theorem expandForest_idempotent (v : Vocabulary) (s : Session) (ns : List Node)
    (h : ∀ t ∈ forestTags ns, Tidy v t) :
    let once := expandForest v ns
    let twice := expandForest v once.result
    twice.result = once.result ∧
      (s.after once.effects).after twice.effects = s.after once.effects ∧
        ∀ p ∈ twice.plans, p.Idle := by
  intro once twice
  have hs : ∀ t ∈ forestTags once.result, Settled v t := settled_expandForest h
  refine ⟨?_, ?_, ?_⟩
  · exact expandForest_eq_self v once.result fun t ht => tags_of_settled (hs t ht)
  · exact after_of_forest_settled hs _
  · exact idle_of_forest_settled hs

def page : List Node :=
  let v : Vocabulary := {}
  [.element { name := .plain "section", attrs := [⟨v.name widgetAttr, .text "./Tabs", none⟩,
      ⟨v.name elIdAttr, .text "tabs", none⟩] }
    [.element { name := .plain "button", props := [⟨v.name "event-click", .text "onSave", none⟩] } [],
      .element { name := v.name v.widgetTag, attrs := [⟨.plain idAttr, .text "a", none⟩] } []]]

theorem page_idempotent :
    let once := expandForest {} page
    let twice := expandForest {} once.result
    (∀ t ∈ forestTags page, Tidy {} t) ∧ twice.result = once.result ∧
      (Session.after {} once.effects).after twice.effects = Session.after {} once.effects ∧
        ∀ p ∈ twice.plans, p.Idle := by
  have tidy : ∀ t ∈ forestTags page, Tidy {} t := by
    simp only [page, forestTags, Node.tags, List.cons_append, List.nil_append, List.forall_mem_cons]
    refine ⟨⟨by decide, by decide, by simp⟩, ⟨by decide, by decide, ?_⟩,
      ⟨by decide, by decide, by simp⟩, by simp⟩
    intro h
    simp [Tag.attr?] at h
  exact ⟨tidy, expandForest_idempotent {} {} page tidy⟩

end Expansion
end WidgetMarkup
