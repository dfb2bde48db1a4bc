import WidgetMarkup.Expansion.Tree
import WidgetMarkup.Proofs.Frame

namespace WidgetMarkup.Expansion

open Tag (Frame)

variable (v : Vocabulary) (t : Tag)

@[simp] theorem name_inj {a b : String} : v.name a = v.name b ↔ a = b := by
  simp [Vocabulary.name, Name.within]

@[simp] theorem name_ne_plain (a b : String) : v.name a ≠ .plain b := by
  simp [Vocabulary.name, Name.within, Name.plain]

@[simp] theorem plain_ne_name (a b : String) : Name.plain a ≠ v.name b := (name_ne_plain v b a).symm

def isRequest (n : Name) : Bool :=
  n.ns == some v.ns && (n.localName == idAttr || eventLabel.toList.isPrefixOf n.localName.toList)

@[simp] theorem isRequest_plain (localName : String) : isRequest v (.plain localName) = false := by
  simp [isRequest, Name.plain]

theorem isNone_request? (p : Attribute) : (request? v p).isNone = !isRequest v p.name := by
  by_cases hns : p.name.ns = some v.ns
  · by_cases hid : p.name.localName = idAttr
    · simp [request?, isRequest, hns, hid]
    · cases he : eventLabel.toList.isPrefixOf p.name.localName.toList <;>
        simp only [request?, eventSource?, isRequest, hns, hid, he] <;> simp [hid]
  · simp [request?, isRequest, hns]

def isEvent (n : Name) : Bool :=
  n.ns == some v.ns && eventLabel.toList.isPrefixOf n.localName.toList

theorem isEvent_id : isEvent v (v.name idAttr) = false := by
  have hlabel : eventLabel.toList.isPrefixOf idAttr.toList = false := by decide
  rw [isEvent, Vocabulary.name, Name.within, hlabel, Bool.and_false]

theorem isRequest_eq (n : Name) : isRequest v n = (n == v.name idAttr || isEvent v n) := by
  obtain ⟨ns, localName⟩ := n
  rw [Bool.eq_iff_iff]
  simp only [isRequest, isEvent, Vocabulary.name, Name.within, Bool.and_eq_true, Bool.or_eq_true,
    beq_iff_eq, Name.mk.injEq, and_or_left]

theorem request?_eq (p : Attribute) : request? v p =
    if p.name = v.name idAttr then some (.id p.value)
    else if isEvent v p.name then some (.event p.name.localName
      (String.ofList (p.name.localName.toList.drop eventLabel.length)) p.value)
    else none := by
  obtain ⟨⟨ns, localName⟩, value, s⟩ := p
  by_cases hns : ns = some v.ns
  · subst hns
    by_cases hid : localName = idAttr
    · simp [request?, Vocabulary.name, Name.within, hid]
    · cases he : eventLabel.toList.isPrefixOf localName.toList <;>
        simp [request?, eventSource?, isEvent, Vocabulary.name, Name.within, hid, he]
  · simp [request?, isEvent, Vocabulary.name, Name.within, hns]

theorem argsStage_of_class (h : (t.attr? (v.name widgetAttr)).isSome) :
    argsStage v t = { tag := t } := by
  obtain ⟨cls, hc⟩ := Option.isSome_iff_exists.1 h
  simp [argsStage, hc]

theorem argsStage_of_no_request (h : ∀ p ∈ t.props, isRequest v p.name = false) :
    argsStage v t = { tag := t } := by
  have hnone : ∀ p ∈ t.props, request? v p = none := by
    intro p hp
    rw [← Option.isNone_iff_eq_none, isNone_request?, h p hp]
    rfl
  have hrequests : t.props.filterMap (request? v) = [] := List.filterMap_eq_nil_iff.2 hnone
  have hprops : (t.props.filter fun p => (request? v p).isNone) = t.props :=
    List.filter_eq_self.2 fun p hp => by simp [hnone p hp]
  have hcalls : calls? v (argsOf []) = none := rfl
  rw [argsStage]
  split
  · rfl
  · simp only [hrequests, hprops, List.map_nil, hcalls, Option.map_none, Option.toList_none,
      List.append_nil, List.filterMap_nil, List.flatMap_nil]

theorem attrs_argsStage : (argsStage v t).tag.attrs = t.attrs := by
  rw [argsStage]
  split <;> rfl

theorem pre_argsStage :
    (argsStage v t).tag.pre = t.pre ++ ((argsStage v t).calls.map Calls.before).toList := by
  rw [argsStage]
  split <;> simp

theorem post_argsStage :
    (argsStage v t).tag.post = t.post ++ ((argsStage v t).calls.map Calls.after).toList := by
  rw [argsStage]
  split <;> simp

theorem props_argsStage_of_no_class (h : t.attr? (v.name widgetAttr) = none) :
    (argsStage v t).tag.props = t.props.filter fun p => !isRequest v p.name := by
  simp only [argsStage, h, isNone_request?]

theorem map_request? (p : Attribute) : (request? v p).map (fun r => v.name r.localName) =
    if isRequest v p.name then some p.name else none := by
  rw [request?_eq, isRequest_eq]
  by_cases hid : p.name = v.name idAttr
  · simp [hid, Request.localName]
  · cases hevent : isEvent v p.name with
    | false => simp [hid]
    | true =>
        rw [isEvent, Bool.and_eq_true, beq_iff_eq] at hevent
        have hname : v.name p.name.localName = p.name := by rw [Vocabulary.name, Name.within, ← hevent.1]
        simp [hid, Request.localName, hname]

theorem removed_argsStage (h : t.attr? (v.name widgetAttr) = none) :
    (argsStage v t).removed = (t.props.map Attribute.name).filter (isRequest v) := by
  have hremoved : (argsStage v t).removed =
      (t.props.filterMap (request? v)).map fun r => v.name r.localName := by
    simp only [argsStage, h]
  calc (argsStage v t).removed
      = t.props.filterMap fun p => (request? v p).map fun r => v.name r.localName := by
        rw [hremoved, List.map_filterMap]
    _ = t.props.filterMap fun p => Option.guard (isRequest v) p.name := by
        simp only [map_request?, Option.guard]
    _ = (t.props.map Attribute.name).filter (isRequest v) := by
        rw [← List.filterMap_eq_filter, List.filterMap_map]
        rfl

/-- The properties that are listed are taken off one by one, for each name the first that has it. -/
theorem props_argsStage :
    (argsStage v t).tag.props = Attribute.withoutEach (argsStage v t).removed t.props := by
  cases h : t.attr? (v.name widgetAttr) with
  | none =>
      rw [props_argsStage_of_no_class v t h, removed_argsStage v t h, Attribute.withoutEach_names]
  | some cls =>
      rw [argsStage_of_class v t (by simp [h])]
      rfl

theorem frame_argsStage :
    Frame (fun _ => true) (fun n => !isRequest v n) t (argsStage v t).tag := by
  by_cases h : (t.attr? (v.name widgetAttr)).isSome
  · rw [argsStage_of_class v t h]
    exact .refl t
  · have hc : t.attr? (v.name widgetAttr) = none := by simpa using h
    constructor
    case props =>
      rw [props_argsStage_of_no_class v t hc, List.filter_filter]
      simp only [Bool.and_self]
    all_goals simp only [argsStage, hc]
    case pre | post => exact List.prefix_append _ _

theorem classStage_of_no_class (h : t.attr? (v.name widgetAttr) = none) :
    classStage v t = { tag := t } := by
  simp only [classStage, h]

/-- An element without the first widget class, widget id and widget configuration of its own. -/
def withoutClass : Tag :=
  ((t.withoutAttr (v.name widgetAttr)).withoutAttr (v.name idAttr)).withoutAttr (v.name configAttr)

theorem tag_classStage_of_class (h : (t.attr? (v.name widgetAttr)).isSome) :
    (classStage v t).tag = if (t.attr? (.plain idAttr)).isSome then withoutClass v t
      else (withoutClass v t).putAttr (.plain idAttr) generatedId := by
  obtain ⟨cls, hc⟩ := Option.isSome_iff_exists.1 h
  simp only [classStage, hc, Option.isSome_map]
  rfl

def besideClass (n : Name) : Bool :=
  n ∉ [v.name widgetAttr, v.name idAttr, v.name configAttr, .plain idAttr]

theorem frame_withoutClass : Frame (besideClass v) (fun _ => true) t (withoutClass v t) := by
  have hclass : Frame (besideClass v) (fun _ => true) t (t.withoutAttr (v.name widgetAttr)) :=
    .withoutAttr (by simp [besideClass])
  have hid : Frame (besideClass v) (fun _ => true) (t.withoutAttr (v.name widgetAttr))
      ((t.withoutAttr (v.name widgetAttr)).withoutAttr (v.name idAttr)) :=
    .withoutAttr (by simp [besideClass])
  exact (hclass.trans hid).trans (.withoutAttr (by simp [besideClass]))

theorem frame_classStage : Frame (besideClass v) (fun _ => true) t (classStage v t).tag := by
  by_cases h : (t.attr? (v.name widgetAttr)).isSome
  · rw [tag_classStage_of_class v t h]
    split
    · exact frame_withoutClass v t
    · exact (frame_withoutClass v t).trans (.putAttr (by simp [besideClass]) _)
  · rw [classStage_of_no_class v t (by simpa using h)]
    exact .refl t

theorem attr?_classStage_class (h : t.attrs.countP (fun a => a.name == v.name widgetAttr) ≤ 1) :
    (classStage v t).tag.attr? (v.name widgetAttr) = none := by
  by_cases hc : (t.attr? (v.name widgetAttr)).isSome
  · have hrest : (withoutClass v t).attr? (v.name widgetAttr) = none := by
      rw [withoutClass, Tag.attr?, Tag.withoutAttr,
        Attribute.value?_without_of_ne (by simp [configAttr, widgetAttr]), Tag.withoutAttr,
        Attribute.value?_without_of_ne (by simp [idAttr, widgetAttr])]
      exact Attribute.value?_without_self h
    rw [tag_classStage_of_class v t hc, ← hrest]
    split
    · rfl
    · exact Attribute.value?_put_of_ne (by simp)
  · have hnone : t.attr? (v.name widgetAttr) = none := by simpa using hc
    rw [classStage_of_no_class v t hnone, hnone]

def entry (localName : String) (e : Expr) : Attribute := ⟨.plain localName, .code e, none⟩

theorem props_wrapperTag (span : Option Span) (path : Expr) (config id elId : Option Expr) :
    (wrapperTag v span path config id elId).props =
      entry "path" (.call (.prop (.var "require") "resolve") [path]) ::
        ((config.map (entry "config")).toList ++
          (id.map fun e => [entry "assignedId" e, entry "scope" (.raw widgetScope)]).getD [] ++
            (elId.map (entry "elId")).toList) := by
  cases config <;> cases id <;> cases elId <;>
    simp [wrapperTag, widgetVariable, Tag.handler, Tag.putProp, Attribute.put, Name.plain, entry]

theorem attrs_wrapperTag (span : Option Span) (path : Expr) (config id elId : Option Expr) :
    (wrapperTag v span path config id elId).attrs = [] := by
  cases config <;> cases id <;> cases elId <;> rfl

theorem wrapper_classStage {w : Tag} (h : (classStage v t).wrapper = some w) :
    ∃ path config id elId, w = wrapperTag v t.span path config id elId := by
  rw [classStage] at h
  split at h
  case h_1 => cases h
  case h_2 => exact ⟨_, _, _, _, (Option.some.inj h).symm⟩

def classWrapper (cls : Value) : Tag :=
  wrapperTag v t.span (Coercion.ofValue .text true cls).expr
    ((t.attr? (v.name configAttr)).map fun value => (Coercion.ofValue .expression true value).expr)
    ((t.attr? (v.name idAttr)).map fun value => (Coercion.ofValue .text true value).expr)
    ((t.attr? (.plain idAttr)).map fun value => (Coercion.ofValue .text true value).expr)

theorem wrapper_of_class {cls : Value} (h : t.attr? (v.name widgetAttr) = some cls) :
    (classStage v t).wrapper = some (classWrapper v t cls) := by
  simp only [classStage, h, Option.map_map]
  rfl

theorem elIdStage_of_no_elId (h : t.attr? (v.name elIdAttr) = none) :
    elIdStage v t = { tag := t } := by
  simp only [elIdStage, h]

theorem tag_elIdStage_of_elId {value : Value} (h : t.attr? (v.name elIdAttr) = some value) :
    (elIdStage v t).tag = if (t.attr? (.plain idAttr)).isSome then t.withoutAttr (v.name elIdAttr)
      else (t.withoutAttr (v.name elIdAttr)).putAttr (.plain idAttr) (scopedId value) := by
  have hid : (t.withoutAttr (v.name elIdAttr)).attr? (.plain idAttr) = t.attr? (.plain idAttr) :=
    Attribute.value?_without_of_ne (by simp)
  simp only [elIdStage, h, hid]
  cases t.attr? (.plain idAttr) <;> rfl

theorem tag_elIdStage_of_id (h : (t.attr? (.plain idAttr)).isSome) :
    (elIdStage v t).tag = t.withoutAttr (v.name elIdAttr) := by
  cases he : t.attr? (v.name elIdAttr) with
  | none => rw [elIdStage_of_no_elId v t he, Tag.withoutAttr, Attribute.without_of_value?_eq_none he]
  | some value => rw [tag_elIdStage_of_elId v t he, if_pos h]

def besideElId (n : Name) : Bool := n ∉ [v.name elIdAttr, .plain idAttr]

theorem frame_elIdStage : Frame (besideElId v) (fun _ => true) t (elIdStage v t).tag := by
  cases h : t.attr? (v.name elIdAttr) with
  | none =>
      rw [elIdStage_of_no_elId v t h]
      exact .refl t
  | some value =>
      have hrest : Frame (besideElId v) (fun _ => true) t (t.withoutAttr (v.name elIdAttr)) :=
        .withoutAttr (by simp [besideElId])
      rw [tag_elIdStage_of_elId v t h]
      split
      · exact hrest
      · exact hrest.trans (.putAttr (by simp [besideElId]) _)

theorem attr?_elIdStage_elId (h : t.attrs.countP (fun a => a.name == v.name elIdAttr) ≤ 1) :
    (elIdStage v t).tag.attr? (v.name elIdAttr) = none := by
  cases he : t.attr? (v.name elIdAttr) with
  | none => rw [elIdStage_of_no_elId v t he, he]
  | some value =>
      have hrest : (t.withoutAttr (v.name elIdAttr)).attr? (v.name elIdAttr) = none :=
        Attribute.value?_without_self h
      rw [tag_elIdStage_of_elId v t he, ← hrest]
      split
      · rfl
      · exact Attribute.value?_put_of_ne (by simp)

def scopeProp : Name := .plain "scope"

theorem frame_scopeStage :
    Frame (fun _ => true) (fun n => n != scopeProp) t (scopeStage v t).tag := by
  rw [scopeStage]
  split
  · exact .putProp (by simp [scopeProp]) _
  · exact .refl t

def afterArgs : Tag := (argsStage v t).tag

def afterClass : Tag := (classStage v (afterArgs v t)).tag

def afterElId : Tag := (elIdStage v (afterClass v t)).tag

theorem tag_expandTag : (expandTag v t).tag = (scopeStage v (afterElId v t)).tag := rfl

theorem wrapper_expandTag :
    (expandTag v t).wrapper = (classStage v (afterArgs v t)).wrapper := rfl

theorem attr?_afterArgs (n : Name) : (afterArgs v t).attr? n = t.attr? n :=
  (frame_argsStage v t).attr?_eq rfl

theorem besideClass_elId : besideClass v (v.name elIdAttr) = true := by
  simp [besideClass, elIdAttr, widgetAttr, idAttr, configAttr]

theorem attr?_afterClass_elId :
    (afterClass v t).attr? (v.name elIdAttr) = t.attr? (v.name elIdAttr) := by
  rw [afterClass, (frame_classStage v _).attr?_eq (besideClass_elId v), attr?_afterArgs]

theorem countP_afterClass_elId :
    ((afterClass v t).attrs.countP fun a => a.name == v.name elIdAttr) =
      t.attrs.countP fun a => a.name == v.name elIdAttr := by
  rw [afterClass, (frame_classStage v _).countP_eq (besideClass_elId v), afterArgs,
    (frame_argsStage v t).countP_eq rfl]

theorem props_afterElId : (afterElId v t).props =
    if (t.attr? (v.name widgetAttr)).isSome then t.props
    else t.props.filter fun p => !isRequest v p.name := by
  rw [afterElId, (frame_elIdStage v _).props_eq, afterClass, (frame_classStage v _).props_eq, afterArgs]
  split
  case isTrue h => rw [argsStage_of_class v t h]
  case isFalse h => exact props_argsStage_of_no_class v t (by simpa using h)

theorem span_afterClass : (afterClass v t).span = t.span :=
  (frame_classStage v _).span.trans (frame_argsStage v t).span

theorem name_afterElId : (afterElId v t).name = t.name := by
  rw [afterElId, (frame_elIdStage v _).name, afterClass, (frame_classStage v _).name, afterArgs,
    (frame_argsStage v t).name]

theorem attr?_withoutClass_plain (localName : String) :
    (withoutClass v t).attr? (.plain localName) = t.attr? (.plain localName) := by
  simp [withoutClass, Tag.attr?, Tag.withoutAttr, Attribute.value?_without_of_ne]

theorem attr?_id_afterClass : (afterClass v t).attr? (.plain idAttr) =
    (t.attr? (.plain idAttr)).or
      (if (t.attr? (v.name widgetAttr)).isSome then some generatedId else none) := by
  rw [afterClass, ← attr?_afterArgs v t, ← attr?_afterArgs v t]
  by_cases hc : ((afterArgs v t).attr? (v.name widgetAttr)).isSome
  · rw [tag_classStage_of_class v _ hc, if_pos hc]
    cases hid : (afterArgs v t).attr? (.plain idAttr) with
    | none =>
        rw [if_neg (by simp), Option.none_or, Tag.attr?, Tag.putAttr, Attribute.value?_put_self]
    | some value => rw [if_pos (Option.isSome_some), attr?_withoutClass_plain, hid, Option.some_or]
  · rw [classStage_of_no_class v _ (by simpa using hc), if_neg hc, Option.or_none]

theorem isSome_id_afterClass : ((afterClass v t).attr? (.plain idAttr)).isSome =
    ((t.attr? (.plain idAttr)).isSome || (t.attr? (v.name widgetAttr)).isSome) := by
  rw [attr?_id_afterClass, Option.isSome_or]
  cases (t.attr? (v.name widgetAttr)).isSome <;> rfl

theorem attr?_id_afterElId : (afterElId v t).attr? (.plain idAttr) =
    ((afterClass v t).attr? (.plain idAttr)).or ((t.attr? (v.name elIdAttr)).map scopedId) := by
  rw [afterElId, ← attr?_afterClass_elId]
  cases he : (afterClass v t).attr? (v.name elIdAttr) with
  | none => rw [elIdStage_of_no_elId v _ he, Option.map_none, Option.or_none]
  | some value =>
      rw [tag_elIdStage_of_elId v _ he]
      cases hid : (afterClass v t).attr? (.plain idAttr) with
      | none =>
          rw [if_neg (by simp), Option.none_or, Option.map_some, Tag.attr?, Tag.putAttr,
            Attribute.value?_put_self]
      | some id =>
          rw [if_pos (Option.isSome_some), Option.some_or, ← hid]
          exact Attribute.value?_without_of_ne (by simp)

theorem isSome_id_afterElId : ((afterElId v t).attr? (.plain idAttr)).isSome =
    ((t.attr? (.plain idAttr)).isSome || (t.attr? (v.name widgetAttr)).isSome ||
      (t.attr? (v.name elIdAttr)).isSome) := by
  rw [attr?_id_afterElId, Option.isSome_or, isSome_id_afterClass, Option.isSome_map]

/-- The id that an element comes out with: its own one, else the one of its widget, else the one
that the element id stands for. -/
theorem attr?_id_expandTag : (expandTag v t).tag.attr? (.plain idAttr) =
    ((t.attr? (.plain idAttr)).or
      (if (t.attr? (v.name widgetAttr)).isSome then some generatedId else none)).or
        ((t.attr? (v.name elIdAttr)).map scopedId) := by
  rw [tag_expandTag, (frame_scopeStage v _).attr?_eq rfl, attr?_id_afterElId, attr?_id_afterClass]

theorem attr?_expandTag_class (h : t.attrs.countP (fun a => a.name == v.name widgetAttr) ≤ 1) :
    (expandTag v t).tag.attr? (v.name widgetAttr) = none := by
  rw [tag_expandTag, (frame_scopeStage v _).attr?_eq rfl, afterElId,
    (frame_elIdStage v _).attr?_eq (by simp [besideElId, elIdAttr, widgetAttr])]
  apply attr?_classStage_class
  rw [afterArgs, (frame_argsStage v t).countP_eq rfl]
  exact h

theorem attr?_expandTag_elId (h : t.attrs.countP (fun a => a.name == v.name elIdAttr) ≤ 1) :
    (expandTag v t).tag.attr? (v.name elIdAttr) = none := by
  rw [tag_expandTag, (frame_scopeStage v _).attr?_eq rfl]
  apply attr?_elIdStage_elId
  rwa [countP_afterClass_elId]

theorem attr?_wrapper {w : Tag} (h : (expandTag v t).wrapper = some w) (n : Name) :
    w.attr? n = none := by
  obtain ⟨path, config, id, elId, rfl⟩ := wrapper_classStage v _ (wrapper_expandTag v t ▸ h)
  rw [Tag.attr?, attrs_wrapperTag]
  rfl

end WidgetMarkup.Expansion
