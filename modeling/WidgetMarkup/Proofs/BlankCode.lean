import WidgetMarkup.Proofs.FilledCode
import WidgetMarkup.Proofs.Requests
import WidgetMarkup.Proofs.Sessions
import WidgetMarkup.Proofs.StoredFields

namespace WidgetMarkup

structure Tag.Filled (t : Tag) : Prop where
  attrs : ∀ a ∈ t.attrs, a.value.filled = true
  props : ∀ p ∈ t.props, p.value.filled = true
  pre : ∀ e ∈ t.pre, e.filled = true
  post : ∀ e ∈ t.post, e.filled = true

namespace Tag.Filled

variable {t : Tag} {n : Name} {value : Value}

theorem of_attr? (h : t.Filled) (hvalue : t.attr? n = some value) : value.filled = true := by
  obtain ⟨a, ha, rfl⟩ := Attribute.mem_of_value?_eq_some hvalue
  exact h.attrs a ha

theorem withoutAttr (h : t.Filled) : (t.withoutAttr n).Filled :=
  { h with attrs := fun a ha => h.attrs a (List.mem_of_mem_eraseP ha) }

theorem filled_of_mem_put {as : List Attribute} (has : ∀ a ∈ as, a.value.filled = true)
    (hvalue : value.filled = true) : ∀ a ∈ Attribute.put n value as, a.value.filled = true := by
  intro a ha
  rcases Attribute.of_mem_put ha with ⟨-, rfl⟩ | ha
  · exact hvalue
  · exact has a ha

theorem putAttr (h : t.Filled) (hvalue : value.filled = true) : (t.putAttr n value).Filled :=
  { h with attrs := filled_of_mem_put h.attrs hvalue }

theorem putProp (h : t.Filled) (hvalue : value.filled = true) : (t.putProp n value).Filled :=
  { h with props := filled_of_mem_put h.props hvalue }

end Tag.Filled

namespace Expansion

open Coercion Node

variable (v : Vocabulary) (t : Tag)

theorem mem_props_argsStage {p : Attribute} (h : p ∈ (argsStage v t).tag.props) :
    p ∈ t.props := by
  rw [argsStage] at h
  split at h
  · exact h
  · exact List.mem_of_mem_filter h

variable {v t}

theorem filled_argsStage (h : t.Filled) (hcalls : (argsStage v t).calls.all Calls.filled = true) :
    (argsStage v t).tag.Filled := by
  constructor
  case attrs =>
    rw [attrs_argsStage]
    exact h.attrs
  case props => exact fun p hp => h.props p (mem_props_argsStage v t hp)
  case pre =>
    rw [pre_argsStage, List.forall_mem_append]
    refine ⟨h.pre, ?_⟩
    cases hc : (argsStage v t).calls <;> simp_all [Calls.filled]
  case post =>
    rw [post_argsStage, List.forall_mem_append]
    refine ⟨h.post, ?_⟩
    cases hc : (argsStage v t).calls <;> simp_all [Calls.filled]

theorem filled_classStage (h : t.Filled) : (classStage v t).tag.Filled := by
  by_cases hc : (t.attr? (v.name widgetAttr)).isSome
  · have hrest : (withoutClass v t).Filled := h.withoutAttr.withoutAttr.withoutAttr
    rw [tag_classStage_of_class v t hc]
    split
    · exact hrest
    · exact hrest.putAttr rfl
  · rwa [classStage_of_no_class v t (by simpa using hc)]

theorem filled_elIdStage (h : t.Filled) : (elIdStage v t).tag.Filled := by
  cases he : t.attr? (v.name elIdAttr) with
  | none => rwa [elIdStage_of_no_elId v t he]
  | some value =>
      have hvalue : (scopedId value).filled = true := by
        have hfilled := h.of_attr? he
        cases value with
        | text s => rfl
        | code e => simpa [scopedId, Value.filled] using hfilled
      rw [tag_elIdStage_of_elId v t he]
      split
      · exact h.withoutAttr
      · exact h.withoutAttr.putAttr hvalue

theorem filled_scope : (Expr.raw widgetScope).filled = true := by decide

theorem filled_scopeStage (h : t.Filled) : (scopeStage v t).tag.Filled := by
  rw [scopeStage]
  split
  · exact h.putProp filled_scope
  · exact h

theorem filled_tag_iff (h : t.Filled) :
    (expandTag v t).tag.Filled ↔ (argsStage v t).calls.all Calls.filled = true := by
  constructor
  · intro hfilled
    -- the later stages leave the calls where the first one has put them
    have hpre : (afterArgs v t).pre <+: (expandTag v t).tag.pre :=
      ((frame_classStage v _).pre.trans (frame_elIdStage v _).pre).trans
        (frame_scopeStage v _).pre
    have hpost : (afterArgs v t).post <+: (expandTag v t).tag.post :=
      ((frame_classStage v _).post.trans (frame_elIdStage v _).post).trans
        (frame_scopeStage v _).post
    rw [afterArgs, pre_argsStage] at hpre
    rw [afterArgs, post_argsStage] at hpost
    cases hc : (argsStage v t).calls with
    | none => rfl
    | some c =>
        rw [hc] at hpre hpost
        have hbefore := hfilled.pre c.before (hpre.subset (by simp))
        have hafter := hfilled.post c.after (hpost.subset (by simp))
        rw [Option.all_some, Calls.filled, hbefore, hafter, Bool.and_self]
  · intro hcalls
    exact filled_scopeStage (filled_elIdStage (filled_classStage (filled_argsStage h hcalls)))

theorem filled_wrapperTag_iff {span : Option Span} {path : Expr} {config id elId : Option Expr} :
    (wrapperTag v span path config id elId).Filled ↔
      path.filled = true ∧ config.all Expr.filled = true ∧ id.all Expr.filled = true ∧
        elId.all Expr.filled = true := by
  have hprops : (wrapperTag v span path config id elId).Filled ↔
      ∀ p ∈ (wrapperTag v span path config id elId).props, p.value.filled = true := by
    refine ⟨Tag.Filled.props, fun h => ⟨?_, h, ?_, ?_⟩⟩
    · rw [attrs_wrapperTag]
      simp
    all_goals cases config <;> cases id <;> cases elId <;> exact List.forall_mem_nil _
  rw [hprops, props_wrapperTag]
  cases config <;> cases id <;> cases elId <;>
    simp [entry, Value.filled, filled_scope, -Expr.filled_raw]

variable (v t)

/-- Whether an element with the widget class `cls` writes blank source into its wrapper. -/
def blankInClass (cls : Value) : Bool :=
  cls.hasBlankPlaceholder || (t.attr? (v.name configAttr)).any Value.isBlankCode ||
    (t.attr? (v.name idAttr)).any Value.hasBlankPlaceholder ||
    (t.attr? (.plain idAttr)).any Value.hasBlankPlaceholder

/-- Whether an element without a widget class writes blank source into its calls. -/
def blankInArgs : Bool :=
  (usedId? v t).any Value.hasBlankPlaceholder ||
    t.props.any fun p => isEvent v p.name && Field.hasBlankNamed p.value.source

def writesBlank : Bool :=
  match t.attr? (v.name widgetAttr) with
  | some cls => blankInClass v t cls
  | none => blankInArgs v t

variable {v t}

theorem filled_wrapper_iff {cls : Value} (h : t.Filled)
    (hc : t.attr? (v.name widgetAttr) = some cls) :
    (classWrapper v t cls).Filled ↔ blankInClass v t cls = false := by
  have htext (n : Name) : ((t.attr? n).map fun value =>
      (ofValue .text true value).expr).all Expr.filled =
        !(t.attr? n).any Value.hasBlankPlaceholder := by
    cases hn : t.attr? n with
    | none => rfl
    | some value => exact filled_ofValue_text (h.of_attr? hn)
  have hconfig : ((t.attr? (v.name configAttr)).map fun value =>
      (ofValue .expression true value).expr).all Expr.filled =
        !(t.attr? (v.name configAttr)).any Value.isBlankCode := by
    cases hn : t.attr? (v.name configAttr) with
    | none => rfl
    | some value => exact filled_ofValue_expression (h.of_attr? hn)
  rw [classWrapper, filled_wrapperTag_iff, htext, htext, hconfig,
    filled_ofValue_text (h.of_attr? hc), blankInClass]
  simp only [Bool.not_eq_true', Bool.or_eq_false_iff, and_assoc]

theorem binding?_event {attr source : String} {value : Value} {span : Option Span}
    (h : ((Request.event attr source value).answer span).problems = []) :
    ∃ b, ((Request.event attr source value).answer span).binding? = some b ∧
      b.expr.filled = !Field.hasBlankNamed value.source := by
  obtain ⟨b, hb, hblank⟩ := Binding.any_blank_prop h
  exact ⟨b, hb, by rw [Binding.filled_expr, hblank]⟩

theorem filled_bindings_iff {span : Option Span} {props : List Attribute}
    (hquiet : ∀ p ∈ props, ∀ r, request? v p = some r → (r.answer span).problems = []) :
    (∀ b ∈ ((props.filterMap (request? v)).map (Request.answer span)).filterMap Answer.binding?,
        b.expr.filled = true) ↔
      ∀ p ∈ props, isEvent v p.name = true → Field.hasBlankNamed p.value.source = false := by
  simp only [List.mem_filterMap, List.mem_map]
  constructor
  · intro h p hp hevent
    obtain ⟨source, hr⟩ := request?_of_isEvent hevent
    obtain ⟨b, hb, hfilled⟩ := binding?_event (hquiet p hp _ hr)
    simpa [hfilled] using h b ⟨_, ⟨_, ⟨p, hp, hr⟩, rfl⟩, hb⟩
  · rintro h b ⟨_, ⟨r, ⟨p, hp, hr⟩, rfl⟩, hb⟩
    cases r with
    | id value => cases hb
    | event attr source value =>
        obtain ⟨hevent, rfl⟩ := isEvent_of_request? hr
        obtain ⟨b', hb', hfilled⟩ := binding?_event (hquiet p hp _ hr)
        obtain rfl := Option.some.inj (hb'.symm.trans hb)
        rw [hfilled, h p hp hevent]
        rfl

theorem filled_calls_iff (h : t.Filled) (hnone : t.attr? (v.name widgetAttr) = none)
    (hquiet : (argsStage v t).problems = []) :
    (argsStage v t).calls.all Calls.filled = true ↔ blankInArgs v t = false := by
  simp only [argsStage, hnone] at hquiet ⊢
  have hanswers : ∀ p ∈ t.props, ∀ r, request? v p = some r → (r.answer t.span).problems = [] := by
    intro p hp r hr
    exact List.flatMap_eq_nil_iff.1 hquiet _
      (List.mem_map_of_mem (List.mem_filterMap.2 ⟨p, hp, hr⟩))
  have hid : ((t.props.filter fun p => p.name == v.name idAttr).map fun p =>
        (ofValue .text true p.value).expr).getLast?.all Expr.filled =
      !(usedId? v t).any Value.hasBlankPlaceholder := by
    rw [List.getLast?_map, usedId?]
    cases hlast : (t.props.filter fun p => p.name == v.name idAttr).getLast? with
    | none => rfl
    | some p =>
        have hp : p ∈ t.props := List.mem_of_mem_filter (List.mem_of_getLast? hlast)
        exact filled_ofValue_text (h.props p hp)
  rw [filled_calls?, id_argsOf, events_argsOf, Binding.filled_listExpr?, ids_eq, hid,
    Bool.and_eq_true, List.all_eq_true, filled_bindings_iff hanswers, blankInArgs,
    Bool.or_eq_false_iff]
  simp

theorem filled_tags_iff (h : t.Filled) (hquiet : (argsStage v t).problems = []) :
    (∀ u ∈ (expandTag v t).tags, u.Filled) ↔ writesBlank v t = false := by
  have htags : (∀ u ∈ (expandTag v t).tags, u.Filled) ↔
      (∀ w, (expandTag v t).wrapper = some w → w.Filled) ∧
        (argsStage v t).calls.all Calls.filled = true := by
    rw [TagExpansion.tags, List.forall_mem_append, List.forall_mem_singleton, filled_tag_iff h]
    simp
  rw [htags, wrapper_expandTag, writesBlank]
  cases hc : t.attr? (v.name widgetAttr) with
  | none =>
      rw [classStage_of_no_class v _ (by rwa [attr?_afterArgs]), filled_calls_iff h hc hquiet]
      simp
  | some cls =>
      have hargs : argsStage v t = { tag := t } := argsStage_of_class v t (by simp [hc])
      rw [afterArgs, hargs]
      constructor
      · rintro ⟨hwrapper, -⟩
        exact (filled_wrapper_iff h hc).1 (hwrapper _ (wrapper_of_class v t hc))
      · intro hclass
        refine ⟨?_, rfl⟩
        intro w hw
        rw [wrapper_of_class v t hc] at hw
        cases hw
        exact (filled_wrapper_iff h hc).2 hclass

theorem problems_eq_nil {s : Session} {ns : List Node}
    (h : (s.after (expandForest v ns).effects).diagnostics = s.diagnostics) :
    ∀ t ∈ forestTags ns, (argsStage v t).problems = [] := by
  have hall : (expandForest v ns).effects.filterMap Effect.problem? = [] := by
    rw [Session.after] at h
    exact List.append_right_eq_self.1 h
  rw [effects_expandForest, List.filterMap_flatMap, List.flatMap_eq_nil_iff] at hall
  intro t ht
  have ht := hall t ht
  rw [problems_expandTag, List.append_assoc, List.append_eq_nil_iff] at ht
  exact ht.1

/-- A template without blank source that is expanded without a diagnostic comes out with blank
source just where it is written in it: as a further property of an event, as a placeholder in an id
or a class, or as a configuration. -/
theorem blank_source_iff_written (v : Vocabulary) (s : Session) (ns : List Node)
    (hfilled : ∀ t ∈ forestTags ns, t.Filled)
    (hquiet : (s.after (expandForest v ns).effects).diagnostics = s.diagnostics) :
    (∀ t ∈ forestTags (expandForest v ns).result, t.Filled) ↔
      ∀ t ∈ forestTags ns, writesBlank v t = false := by
  have hproblems := problems_eq_nil hquiet
  rw [tags_expandForest, List.forall_mem_flatMap]
  exact forall₂_congr fun t ht => filled_tags_iff (hfilled t ht) (hproblems t ht)

theorem filled_listener (value : String) : ∀ t ∈ forestTags [listener value], t.Filled := by
  have hbutton : (Tag.html "button").Filled := by constructor <;> exact List.forall_mem_nil _
  simp only [listener, forestTags, Node.tags, List.append_nil, List.forall_mem_singleton]
  exact hbutton.putProp rfl

theorem named_code_kept :
    (∀ t ∈ forestTags [listener "onClick; foo=bar"], t.Filled) ∧
      (Session.after {} (expandForest {} [listener "onClick; foo=bar"]).effects).diagnostics = [] ∧
      ∀ t ∈ forestTags (expandForest {} [listener "onClick; foo=bar"]).result, t.Filled := by
  have hquiet : (Session.after {}
      (expandForest {} [listener "onClick; foo=bar"]).effects).diagnostics = [] := rfl
  have hwritten : ∀ t ∈ forestTags [listener "onClick; foo=bar"], writesBlank {} t = false :=
    List.forall_mem_singleton.2 rfl
  refine ⟨filled_listener _, hquiet, ?_⟩
  exact (blank_source_iff_written {} {} _ (filled_listener _) hquiet).2 hwritten

/-- A further property with nothing after its name is taken for code, and nobody is told. -/
theorem empty_property_unnoticed :
    ¬∀ (v : Vocabulary) (s : Session) (ns : List Node), (∀ t ∈ forestTags ns, t.Filled) →
      (s.after (expandForest v ns).effects).diagnostics = s.diagnostics →
        ∀ t ∈ forestTags (expandForest v ns).result, t.Filled := by
  intro h
  have hfilled := h {} {} [listener "onClick; foo="] (filled_listener _) rfl
  have hpre : ((forestTags (expandForest {} [listener "onClick; foo="]).result).all fun t =>
      t.pre.all Expr.filled) = true := by
    simp only [List.all_eq_true]
    exact fun t ht => (hfilled t ht).pre
  cases hpre

end Expansion
end WidgetMarkup
