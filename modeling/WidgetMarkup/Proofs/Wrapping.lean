import WidgetMarkup.Proofs.Placeholders
import WidgetMarkup.Proofs.Stages

namespace WidgetMarkup.Expansion

open Attribute Coercion

variable (v : Vocabulary) (t : Tag)

def wrapperProps (cls : Value) : List Attribute :=
  [entry "path" (.call (.prop (.var "require") "resolve") [(ofValue .text true cls).expr])] ++
  (match t.attr? (v.name configAttr) with
    | none => []
    | some config => [entry "config" (ofValue .expression true config).expr]) ++
  (match t.attr? (v.name idAttr) with
    | none => []
    | some id => [entry "assignedId" (ofValue .text true id).expr, entry "scope" (.raw widgetScope)]) ++
  match t.attr? (.plain idAttr) with
  | none => []
  | some elId => [entry "elId" (ofValue .text true elId).expr]

def inWrapper : Tag :=
  { t with
    attrs := withoutEach ([widgetAttr, idAttr, configAttr, elIdAttr].map v.name) t.attrs ++
      if (t.attr? (.plain idAttr)).isSome then [] else [⟨.plain idAttr, generatedId, none⟩]
    props := if t.name = v.name v.widgetTag then put (.plain "scope") widgetVariable t.props
      else t.props }

theorem classWrapper_eq (cls : Value) : classWrapper v t cls =
    { name := v.name v.widgetTag
      isHandler := true
      attrs := []
      props := wrapperProps v t cls
      pre := []
      post := []
      span := t.span } := by
  have hprops : (classWrapper v t cls).props = wrapperProps v t cls := by
    rw [classWrapper, props_wrapperTag, wrapperProps]
    cases t.attr? (v.name configAttr) <;> cases t.attr? (v.name idAttr) <;>
      cases t.attr? (.plain idAttr) <;> rfl
  rw [← hprops, classWrapper]
  cases t.attr? (v.name configAttr) <;> cases t.attr? (v.name idAttr) <;>
    cases t.attr? (.plain idAttr) <;> rfl

variable {v t}

theorem afterArgs_of_class (h : (t.attr? (v.name widgetAttr)).isSome) : afterArgs v t = t := by
  rw [afterArgs, argsStage_of_class v t h]

theorem isSome_id_of_class (h : (t.attr? (v.name widgetAttr)).isSome) :
    ((afterClass v t).attr? (.plain idAttr)).isSome := by
  rw [isSome_id_afterClass, h, Bool.or_true]

theorem afterElId_of_class (h : (t.attr? (v.name widgetAttr)).isSome) :
    afterElId v t = { t with attrs := (inWrapper v t).attrs } := by
  rw [afterElId, tag_elIdStage_of_id v _ (isSome_id_of_class h), afterClass, afterArgs_of_class h,
    tag_classStage_of_class v t h]
  by_cases hid : (t.attr? (.plain idAttr)).isSome
  · rw [if_pos hid, inWrapper, if_pos hid, List.append_nil]
    rfl
  · -- the new id goes to the end, the element id is taken off in front of it
    have hnone : value? (.plain idAttr)
        (withoutEach ([widgetAttr, idAttr, configAttr, elIdAttr].map v.name) t.attrs) = none :=
      value?_withoutEach_eq_none (by simpa [Tag.attr?] using hid)
    rw [if_neg hid, inWrapper, if_neg hid, ← put_of_value?_eq_none hnone, Tag.withoutAttr,
      Tag.putAttr, without_put_of_ne (by simp)]
    rfl

theorem tag_of_class (h : (t.attr? (v.name widgetAttr)).isSome) :
    (expandTag v t).tag = inWrapper v t := by
  have hid : ((afterElId v t).attr? (.plain idAttr)).isSome := by
    rw [isSome_id_afterElId, h, Bool.or_true, Bool.true_or]
  rw [tag_expandTag, scopeStage, name_afterElId]
  by_cases hname : t.name = v.name v.widgetTag
  · rw [if_pos ⟨hname, hid⟩, afterElId_of_class h, inWrapper, if_pos hname]
    rfl
  · rw [if_neg fun hscope => hname hscope.1, afterElId_of_class h, inWrapper, if_neg hname]

/-- An element with a widget class ends up inside a new widget tag, which has taken its place. -/
theorem expandRoot_wraps (v : Vocabulary) (t : Tag) (children : List Node) (cls : Value)
    (h : t.attr? (v.name widgetAttr) = some cls) :
    (expandRoot v (.element t children)).result = .element
        { name := v.name v.widgetTag
          isHandler := true
          attrs := []
          props := wrapperProps v t cls
          pre := []
          post := []
          span := t.span }
        [.element (inWrapper v t) children] ∧
      (inWrapper v t).attr? (.plain idAttr) =
        some ((t.attr? (.plain idAttr)).getD generatedId) := by
  have hclass : (t.attr? (v.name widgetAttr)).isSome := by rw [h, Option.isSome_some]
  have hwrapper : (expandTag v t).wrapper = some (classWrapper v t cls) := by
    rw [wrapper_expandTag, afterArgs_of_class hclass, wrapper_of_class v t h]
  constructor
  · simp only [expandRoot, TagExpansion.node, hwrapper]
    rw [tag_of_class hclass, classWrapper_eq]
  · rw [← tag_of_class hclass, attr?_id_expandTag, if_pos hclass]
    cases t.attr? (.plain idAttr) <;> rfl

def tabs : Tag :=
  let markup localName value : Attribute := ⟨Vocabulary.name {} localName, value, none⟩
  { Tag.html "section" with attrs :=
    [⟨.plain "class", .text "wide", none⟩, markup "id" (.code (.var "tabsId")),
      markup "widget" (.text "./Tabs"), markup "el-id" (.text "tabs"),
      markup "widget" (.text "./Other")] }

theorem tabs_wrapped : tabs.attr? (Vocabulary.name {} widgetAttr) = some (.text "./Tabs") ∧
    (expandRoot {} (.element tabs [.text "Home"])).result = .element
      { Tag.handler "widgets" "widget" with props :=
        [entry "path" (.call (.prop (.var "require") "resolve") [.text "./Tabs"]),
          entry "assignedId" (.var "tabsId"), entry "scope" (.raw "widget")] }
      [.element
        { Tag.html "section" with attrs :=
          [⟨.plain "class", .text "wide", none⟩, ⟨Vocabulary.name {} widgetAttr, .text "./Other", none⟩,
            ⟨.plain "id", .text "$\x7bwidget.elId()\x7d", none⟩] }
        [.text "Home"]] := by
  have hclass : tabs.attr? (Vocabulary.name {} widgetAttr) = some (.text "./Tabs") := rfl
  have hpath : ofValue .text true (.text "./Tabs") = ⟨.text "./Tabs", none⟩ := by
    have hmarker : ¬Interpolation.marker <:+: "./Tabs".toList := fun h =>
      absurd (h.subset List.mem_cons_self) (by decide)
    rw [ofValue, ofText, Interpolation.parse?_plain hmarker]
    rfl
  refine ⟨hclass, ?_⟩
  rw [(expandRoot_wraps {} tabs [.text "Home"] _ hclass).1, wrapperProps, hpath]
  rfl

end WidgetMarkup.Expansion
