import WidgetMarkup.Expansion.Walk
import WidgetMarkup.Proofs.LogLines

namespace WidgetMarkup.Expansion

open Attribute

namespace Walk

def after (w : Walk) (plans : List Plan) (es : List Effect) : Walk where
  session := w.session.after es
  log := w.log ++ logOf w.session.registry es
  plans := w.plans ++ plans

theorem after_after (w : Walk) (ps qs : List Plan) (es fs : List Effect) :
    (w.after ps es).after qs fs = w.after (ps ++ qs) (es ++ fs) := by
  simp only [after, Session.after_append, logOf_append, List.append_assoc]
  rfl

theorem act_eq (w : Walk) (e : Effect) : w.act e = w.after [] [e] := by
  cases e <;>
    simp [act, after, logOf, Session.after, Registry.addAll, List.filterMap_cons, Effect.helper?,
      Effect.problem?]

theorem foldl_act (w : Walk) (es : List Effect) : es.foldl act w = w.after [] es := by
  induction es generalizing w with
  | nil => simp [after, Session.after, Registry.addAll, logOf]
  | cons e es ih =>
      rw [List.foldl_cons, ih, act_eq, after_after, List.singleton_append, List.nil_append]

end Walk

/-- Each of the names has an entry when its turn to be taken off comes. -/
def AllPresent : List Name → List Attribute → Prop
  | [], _ => True
  | n :: ns, as => (value? n as).isSome ∧ AllPresent ns (without n as)

theorem allPresent_cons {ns : List Name} {a : Attribute} {as : List Attribute} (ha : a.name ∉ ns)
    (h : AllPresent ns as) : AllPresent ns (a :: as) := by
  induction ns generalizing as with
  | nil => trivial
  | cons n ns ih =>
      rw [List.mem_cons, not_or] at ha
      rw [AllPresent, value?_cons, if_neg ha.1, without_cons, if_neg ha.1]
      exact ⟨h.1, ih ha.2 h.2⟩

theorem allPresent_names (listed : Name → Bool) (as : List Attribute) :
    AllPresent ((as.map Attribute.name).filter listed) as := by
  induction as with
  | nil => trivial
  | cons a as ih =>
      rw [List.map_cons]
      cases ha : listed a.name with
      | false =>
          rw [List.filter_cons_of_neg (by simp [ha])]
          exact allPresent_cons (by simp [ha]) ih
      | true =>
          rw [List.filter_cons_of_pos ha, AllPresent, value?_cons, if_pos rfl, without_cons,
            if_pos rfl]
          exact ⟨rfl, ih⟩

def TagExpansion.element (r : TagExpansion) (children : List Node) : Element :=
  match r.wrapper with
  | none => ⟨r.tag, children⟩
  | some wrapper => ⟨wrapper, [.element r.tag children]⟩

theorem tag_element (r : TagExpansion) (children : List Node) :
    (r.element children).tag = r.wrapper.getD r.tag := by
  rw [TagExpansion.element]
  cases r.wrapper <;> rfl

namespace Visit

variable (v : Vocabulary)

theorem foldl_takeProp (x : Visit) {ns : List Name} (h : AllPresent ns x.element.tag.props) :
    ns.foldl takeProp x =
      { x.putTag { x.element.tag with props := withoutEach ns x.element.tag.props } with
        plan := { x.plan with removed := x.plan.removed ++ ns } } := by
  induction ns generalizing x with
  | nil => simp [withoutEach, putTag]
  | cons n ns ih =>
      obtain ⟨value, hvalue⟩ := Option.isSome_iff_exists.1 h.1
      have htake : x.takeProp n = { x.putTag (x.element.tag.withoutProp n) with
          plan := { x.plan with removed := x.plan.removed ++ [n] } } := by
        rw [takeProp, Tag.prop?, hvalue]
      rw [List.foldl_cons, htake, ih]
      · simp [putTag, Tag.withoutProp, withoutEach_cons]
      · exact h.2

theorem allPresent_removed (t : Tag) : AllPresent (argsStage v t).removed t.props := by
  cases h : t.attr? (v.name widgetAttr) with
  | none =>
      rw [removed_argsStage v t h]
      exact allPresent_names _ _
  | some cls =>
      rw [argsStage_of_class v t (by simp [h])]
      trivial

theorem tag_argsStage (t : Tag) : (argsStage v t).tag =
    { t with
      props := withoutEach (argsStage v t).removed t.props
      pre := t.pre ++ ((argsStage v t).calls.map Calls.before).toList
      post := t.post ++ ((argsStage v t).calls.map Calls.after).toList } := by
  rw [← props_argsStage, ← pre_argsStage, ← post_argsStage, argsStage]
  split <;> rfl

theorem passArgs_eq (t : Tag) (children : List Node) (w : Walk) :
    passArgs v { element := ⟨t, children⟩, walk := w } =
      let a := argsStage v t
      { element := ⟨a.tag, children⟩
        plan :=
          { stages := { propertyArgs := a.calls.isSome }
            removed := a.removed
            pre := a.calls.map Calls.before
            post := a.calls.map Calls.after
            bindings := a.bindings }
        walk := (a.problems.map Effect.problem ++
          if a.calls.isSome then v.helpers.map Effect.helper else []).foldl Walk.act w } := by
  dsimp only
  rw [passArgs, foldl_takeProp _ (allPresent_removed v t)]
  simp only [acts, putTag]
  rw [tag_argsStage]
  cases (argsStage v t).calls with
  | none => simp
  | some calls => simp [addCalls, putTag]

theorem announced_eq (x : Visit) : x.announced = x.acts (if x.plan.isEmpty then []
    else [.expanded x.element.tag.name x.plan.stages x.plan.removed.length]) := by
  rw [announced]
  split <;> rfl

theorem wrap_passStages (t : Tag) (children : List Node) (w : Walk) :
    (passStages v ⟨t, children⟩ w).1.wrap (passStages v ⟨t, children⟩ w).2 =
      let a := argsStage v t
      { element := (expandTag v t).element children
        plan := (expandTag v t).plan
        walk := (a.problems.map Effect.problem ++
          (if a.calls.isSome then v.helpers.map Effect.helper else []) ++
          ((classStage v (afterArgs v t)).problems ++
            (elIdStage v (afterClass v t)).problems).map Effect.problem).foldl Walk.act w } := by
  dsimp only
  rw [passStages, passArgs_eq]
  simp only [passClass, passElId, passScope, acts, putTag, TagExpansion.element, expandTag,
    List.map_append, List.foldl_append, afterClass, afterArgs]
  cases (classStage v (argsStage v t).tag).wrapper <;> rfl

theorem pass_eq (t : Tag) (children : List Node) (w : Walk) :
    pass v ⟨t, children⟩ w =
      { element := (expandTag v t).element children
        plan := (expandTag v t).plan
        walk := (expandTag v t).effects.foldl Walk.act w } := by
  have hpass : pass v ⟨t, children⟩ w =
    ((passStages v ⟨t, children⟩ w).1.wrap (passStages v ⟨t, children⟩ w).2).announced := rfl
  rw [hpass, wrap_passStages, announced_eq, acts, tag_element, ← List.foldl_append]
  rfl

end Visit

variable (v : Vocabulary)

theorem walkElement_of_wrapped {e : Element} {w : Walk}
    (hw : (Visit.pass v e w).plan.wrapped = true)
    {before : List Node} {t : Tag} {children : List Node}
    (hlast : (Visit.pass v e w).element.children = before ++ [.element t children]) :
    walkElement v e w =
      ({ (Visit.pass v e w).element with
          children := before ++ [.element t (walkNodes v children (Visit.pass v e w).noted).1] },
        (walkNodes v children (Visit.pass v e w).noted).2) := by
  rw [walkElement.eq_def]
  dsimp only
  rw [dif_pos hw]
  split
  case h_1 t' children' hl =>
    rw [hlast, List.getLast?_concat] at hl
    cases hl
    rw [hlast, List.dropLast_concat]
  case h_2 hne => exact absurd (by rw [hlast, List.getLast?_concat]) (hne t children)

theorem walkElement_of_not_wrapped {e : Element} {w : Walk}
    (hw : (Visit.pass v e w).plan.wrapped = false) :
    walkElement v e w =
      ({ (Visit.pass v e w).element with
          children :=
            (walkNodes v (Visit.pass v e w).element.children (Visit.pass v e w).noted).1 },
        (walkNodes v (Visit.pass v e w).element.children (Visit.pass v e w).noted).2) := by
  rw [walkElement.eq_def]
  dsimp only
  rw [dif_neg (by simp [hw])]

-- One induction over the tree, with the state of the walk left open.
mutual

theorem walkElement_eq (t : Tag) (children : List Node) (w : Walk) :
    (walkElement v ⟨t, children⟩ w).1.node = (expandNode v (.element t children)).result ∧
      (walkElement v ⟨t, children⟩ w).2 = w.after (expandNode v (.element t children)).plans
        (expandNode v (.element t children)).effects := by
  have below := walkNodes_eq children (w.after [(expandTag v t).plan] (expandTag v t).effects)
  have hpass := Visit.pass_eq v t children w
  have hnoted : (Visit.pass v ⟨t, children⟩ w).noted =
      w.after [(expandTag v t).plan] (expandTag v t).effects := by
    rw [hpass, Visit.noted, Walk.foldl_act, Walk.after, List.append_nil]
    rfl
  have hwrapped : (Visit.pass v ⟨t, children⟩ w).plan.wrapped = (expandTag v t).wrapper.isSome := by
    rw [hpass]
    rfl
  rw [Walk.after_after] at below
  cases hw : (expandTag v t).wrapper with
  | none =>
      rw [hw] at hwrapped
      rw [walkElement_of_not_wrapped v hwrapped, hnoted]
      simp [hpass, TagExpansion.element, hw, below, expandNode, TagExpansion.node, Element.node]
  | some wrapper =>
      -- below a new wrapper there is the element only, which has been visited
      have hlast : (Visit.pass v ⟨t, children⟩ w).element.children =
          [] ++ [.element (expandTag v t).tag children] := by
        rw [hpass, TagExpansion.element, hw]
        rfl
      rw [hw] at hwrapped
      rw [walkElement_of_wrapped v hwrapped hlast, hnoted, below]
      simp [hpass, TagExpansion.element, hw, expandNode, TagExpansion.node, Element.node]

/-- The walk that changes a template where it stands, with one session and one log for all of it,
comes to what expanding the template as a whole comes to. -/
theorem walkNodes_eq (ns : List Node) (w : Walk) :
    walkNodes v ns w = ((expandForest v ns).result,
      w.after (expandForest v ns).plans (expandForest v ns).effects) := by
  match ns with
  | [] => simp [walkNodes, expandForest, Walk.after, Session.after, Registry.addAll, logOf]
  | .text s :: ns =>
      have rest := walkNodes_eq ns w
      rw [walkNodes, rest]
      rfl
  | .element t children :: ns =>
      obtain ⟨hresult, hwalk⟩ := walkElement_eq t children w
      have rest := walkNodes_eq ns (walkElement v ⟨t, children⟩ w).2
      rw [walkNodes, rest, hresult, hwalk, Walk.after_after]
      rfl

end

end WidgetMarkup.Expansion
