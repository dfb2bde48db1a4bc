import Mathlib.Logic.Equiv.Basic
import WidgetMarkup.Proofs.Sessions

namespace WidgetMarkup

def Name.rename (f : String → String) (n : Name) : Name := { n with ns := n.ns.map f }

def Attribute.rename (f : String → String) (a : Attribute) : Attribute :=
  { a with name := a.name.rename f }

def Tag.rename (f : String → String) (t : Tag) : Tag :=
  { t with
    name := t.name.rename f
    attrs := t.attrs.map (Attribute.rename f)
    props := t.props.map (Attribute.rename f) }

mutual

def Node.rename (f : String → String) : Node → Node
  | .text s => .text s
  | .element t children => .element (t.rename f) (forestRename f children)

def Node.forestRename (f : String → String) : List Node → List Node
  | [] => []
  | n :: ns => n.rename f :: forestRename f ns

end

namespace Node

variable (f : String → String)

mutual

theorem tags_rename (n : Node) : (n.rename f).tags = n.tags.map (Tag.rename f) := by
  match n with
  | .text s => rfl
  | .element t children =>
      have below := forestTags_rename children
      simp only [rename, tags, List.map_cons, below]

theorem forestTags_rename (ns : List Node) :
    forestTags (forestRename f ns) = (forestTags ns).map (Tag.rename f) := by
  match ns with
  | [] => rfl
  | n :: ns =>
      have first := tags_rename n
      have rest := forestTags_rename ns
      simp only [forestRename, forestTags, List.map_append, first, rest]

end

end Node

def Plan.rename (f : String → String) (p : Plan) : Plan :=
  { p with removed := p.removed.map (Name.rename f) }

def Vocabulary.rename (f : String → String) (v : Vocabulary) : Vocabulary := { v with ns := f v.ns }

variable {f : String → String} (hf : Function.Injective f)

include hf in
theorem Name.rename_injective : Function.Injective (Name.rename f) := by
  rintro ⟨ns, localName⟩ ⟨ns', localName'⟩ h
  obtain ⟨hns, hlocal⟩ := Name.mk.inj h
  exact congrArg₂ Name.mk (Option.map_injective hf hns) hlocal

@[simp] theorem Vocabulary.name_rename (v : Vocabulary) (localName : String) :
    (v.rename f).name localName = (v.name localName).rename f := rfl

namespace Attribute

include hf

theorem value?_rename (n : Name) (as : List Attribute) :
    value? (n.rename f) (as.map (rename f)) = value? n as := by
  induction as with
  | nil => rfl
  | cons a as ih =>
      rw [List.map_cons, value?_cons, value?_cons, ih]
      exact if_congr (Name.rename_injective hf).eq_iff rfl rfl

theorem without_rename (n : Name) (as : List Attribute) :
    without (n.rename f) (as.map (rename f)) = (without n as).map (rename f) := by
  induction as with
  | nil => rfl
  | cons a as ih =>
      rw [List.map_cons, without_cons, without_cons, ih, apply_ite (List.map (rename f))]
      exact if_congr (Name.rename_injective hf).eq_iff rfl rfl

theorem put_rename (n : Name) (value : Value) (as : List Attribute) :
    put (n.rename f) value (as.map (rename f)) = (put n value as).map (rename f) := by
  induction as with
  | nil => rfl
  | cons a as ih =>
      rw [List.map_cons, put, put, ih, apply_ite (List.map (rename f))]
      exact if_congr (Name.rename_injective hf).eq_iff rfl rfl

end Attribute

namespace Tag

include hf

theorem attr?_rename (n : Name) (t : Tag) : (t.rename f).attr? (n.rename f) = t.attr? n :=
  Attribute.value?_rename hf n t.attrs

theorem withoutAttr_rename (n : Name) (t : Tag) :
    (t.rename f).withoutAttr (n.rename f) = (t.withoutAttr n).rename f :=
  congrArg (fun attrs => { t.rename f with attrs }) (Attribute.without_rename hf n t.attrs)

theorem putAttr_rename (n : Name) (value : Value) (t : Tag) :
    (t.rename f).putAttr (n.rename f) value = (t.putAttr n value).rename f :=
  congrArg (fun attrs => { t.rename f with attrs }) (Attribute.put_rename hf n value t.attrs)

theorem putProp_rename (n : Name) (value : Value) (t : Tag) :
    (t.rename f).putProp (n.rename f) value = (t.putProp n value).rename f :=
  congrArg (fun props => { t.rename f with props }) (Attribute.put_rename hf n value t.props)

theorem attr?_rename_plain (localName : String) (t : Tag) :
    (t.rename f).attr? (.plain localName) = t.attr? (.plain localName) :=
  attr?_rename hf (.plain localName) t

theorem putAttr_rename_plain (localName : String) (value : Value) (t : Tag) :
    (t.rename f).putAttr (.plain localName) value = (t.putAttr (.plain localName) value).rename f :=
  putAttr_rename hf (.plain localName) value t

end Tag

namespace Expansion

open Node

variable (v : Vocabulary) (t : Tag)

def ArgsStage.rename (f : String → String) (s : ArgsStage) : ArgsStage :=
  { s with tag := s.tag.rename f, removed := s.removed.map (Name.rename f) }

def ClassStage.rename (f : String → String) (s : ClassStage) : ClassStage :=
  { s with
    tag := s.tag.rename f
    removed := s.removed.map (Name.rename f)
    wrapper := s.wrapper.map (Tag.rename f) }

def ElIdStage.rename (f : String → String) (s : ElIdStage) : ElIdStage :=
  { s with tag := s.tag.rename f, removed := s.removed.map (Name.rename f) }

def ScopeStage.rename (f : String → String) (s : ScopeStage) : ScopeStage :=
  { s with tag := s.tag.rename f }

section
include hf

theorem request?_rename (p : Attribute) : request? (v.rename f) (p.rename f) = request? v p := by
  have hns : (p.name.ns.map f = some (f v.ns)) ↔ p.name.ns = some v.ns :=
    (Option.map_injective hf).eq_iff (b := some v.ns)
  exact if_congr hns rfl rfl

theorem argsStage_rename :
    argsStage (v.rename f) (t.rename f) = (argsStage v t).rename f := by
  have hrequests : (t.rename f).props.filterMap (request? (v.rename f)) =
      t.props.filterMap (request? v) := by
    rw [Tag.rename, List.filterMap_map]
    exact List.filterMap_congr fun p _ => request?_rename hf v p
  have hprops : ((t.rename f).props.filter fun p => (request? (v.rename f) p).isNone) =
      (t.props.filter fun p => (request? v p).isNone).map (Attribute.rename f) := by
    rw [Tag.rename, List.filter_map]
    simp only [Function.comp_def, request?_rename hf]
  simp only [argsStage, Vocabulary.name_rename, Tag.attr?_rename hf, hrequests, hprops]
  cases t.attr? (v.name widgetAttr) with
  | some cls => rfl
  | none =>
      simp only [ArgsStage.rename, List.map_map]
      rfl

omit hf in
theorem wrapperTag_rename (span : Option Span) (path : Expr) (config id elId : Option Expr) :
    wrapperTag (v.rename f) span path config id elId =
      (wrapperTag v span path config id elId).rename f := by
  cases config <;> cases id <;> cases elId <;> rfl

theorem classStage_rename :
    classStage (v.rename f) (t.rename f) = (classStage v t).rename f := by
  simp only [classStage, Vocabulary.name_rename, Tag.attr?_rename hf, Tag.attr?_rename_plain hf,
    Tag.withoutAttr_rename hf, Tag.putAttr_rename_plain hf, wrapperTag_rename]
  cases t.attr? (v.name widgetAttr) with
  | none => rfl
  | some cls =>
      cases t.attr? (v.name idAttr) <;> cases t.attr? (v.name configAttr) <;>
        cases t.attr? (.plain idAttr) <;> rfl

theorem elIdStage_rename :
    elIdStage (v.rename f) (t.rename f) = (elIdStage v t).rename f := by
  simp only [elIdStage, Vocabulary.name_rename, Tag.attr?_rename hf, Tag.withoutAttr_rename hf,
    Tag.attr?_rename_plain hf, Tag.putAttr_rename_plain hf]
  cases t.attr? (v.name elIdAttr) with
  | none => rfl
  | some value => cases (t.withoutAttr (v.name elIdAttr)).attr? (.plain idAttr) <;> rfl

theorem scopeStage_rename :
    scopeStage (v.rename f) (t.rename f) = (scopeStage v t).rename f := by
  have hname : (t.rename f).name = (v.rename f).name (v.rename f).widgetTag ↔
      t.name = v.name v.widgetTag := (Name.rename_injective hf).eq_iff (b := v.name v.widgetTag)
  have hput : (t.rename f).putProp (.plain "scope") widgetVariable =
      (t.putProp (.plain "scope") widgetVariable).rename f :=
    Tag.putProp_rename hf (.plain "scope") _ t
  rw [scopeStage, scopeStage, Tag.attr?_rename_plain hf, hput, apply_ite (ScopeStage.rename f)]
  exact if_congr (and_congr_left' hname) rfl rfl

theorem plan_rename :
    (expandTag (v.rename f) (t.rename f)).plan = (expandTag v t).plan.rename f := by
  simp only [expandTag, argsStage_rename hf, ArgsStage.rename, classStage_rename hf,
    ClassStage.rename, elIdStage_rename hf, ElIdStage.rename, scopeStage_rename hf,
    ScopeStage.rename, Plan.rename, List.map_append, Option.isSome_map]

theorem afterArgs_rename : afterArgs (v.rename f) (t.rename f) = (afterArgs v t).rename f :=
  congrArg ArgsStage.tag (argsStage_rename hf v t)

theorem afterClass_rename : afterClass (v.rename f) (t.rename f) = (afterClass v t).rename f := by
  rw [afterClass, afterArgs_rename hf, classStage_rename hf]
  rfl

theorem afterElId_rename : afterElId (v.rename f) (t.rename f) = (afterElId v t).rename f := by
  rw [afterElId, afterClass_rename hf, elIdStage_rename hf]
  rfl

theorem tag_rename : (expandTag (v.rename f) (t.rename f)).tag = (expandTag v t).tag.rename f := by
  rw [tag_expandTag, afterElId_rename hf, scopeStage_rename hf]
  rfl

theorem wrapper_rename : (expandTag (v.rename f) (t.rename f)).wrapper =
    (expandTag v t).wrapper.map (Tag.rename f) := by
  rw [wrapper_expandTag, afterArgs_rename hf, classStage_rename hf]
  rfl

theorem visit_rename (s : Session) : visit (v.rename f) s (t.rename f) = visit v s t := by
  have hhelpers : (expandTag (v.rename f) (t.rename f)).effects.filterMap Effect.helper? =
      (expandTag v t).effects.filterMap Effect.helper? := by
    rw [helpers_expandTag, helpers_expandTag, plan_rename hf]
    rfl
  have hproblems : (expandTag (v.rename f) (t.rename f)).effects.filterMap Effect.problem? =
      (expandTag v t).effects.filterMap Effect.problem? := by
    rw [problems_expandTag, problems_expandTag, afterArgs_rename hf, afterClass_rename hf,
      argsStage_rename hf, classStage_rename hf, elIdStage_rename hf]
    rfl
  rw [visit, visit, Session.after, Session.after, hhelpers, hproblems]

end

theorem node_rename {r r' : TagExpansion} (htag : r'.tag = r.tag.rename f)
    (hwrapper : r'.wrapper = r.wrapper.map (Tag.rename f)) (children : List Node) :
    r'.node (forestRename f children) = (r.node children).rename f := by
  rw [TagExpansion.node, TagExpansion.node, htag, hwrapper]
  cases r.wrapper <;> rfl

-- The values of attributes and the code around an element name no namespace, so a run over renamed
-- elements is the renamed run, element by element.
mutual

theorem expandNode_rename (hf : Function.Injective f) (n : Node) :
    (expandNode (v.rename f) (n.rename f)).result = (expandNode v n).result.rename f := by
  match n with
  | .text s => rfl
  | .element t children =>
      have below := expandForest_rename hf children
      have htag := tag_rename hf v t
      have hwrapper := wrapper_rename hf v t
      simp only [expandNode, Node.rename, below, node_rename htag hwrapper]

theorem expandForest_rename (hf : Function.Injective f) (ns : List Node) :
    (expandForest (v.rename f) (forestRename f ns)).result =
      forestRename f (expandForest v ns).result := by
  match ns with
  | [] => rfl
  | n :: ns =>
      have first := expandNode_rename hf n
      have rest := expandForest_rename hf ns
      simp only [expandForest, forestRename, first, rest]

end

include hf in
theorem plans_rename (ns : List Node) :
    (expandForest (v.rename f) (forestRename f ns)).plans =
      (expandForest v ns).plans.map (Plan.rename f) := by
  rw [plans_expandForest, plans_expandForest, forestTags_rename, List.map_map, List.map_map]
  exact List.map_congr_left fun t _ => plan_rename hf v t

include hf in
theorem session_rename (s : Session) (ns : List Node) :
    s.after (expandForest (v.rename f) (forestRename f ns)).effects =
      s.after (expandForest v ns).effects := by
  rw [after_expandForest, after_expandForest, forestTags_rename, List.foldl_map]
  congr 1
  funext s t
  exact visit_rename hf v t s

/-- With another namespace for the markup a template in that namespace expands as before. The two
namespaces change places everywhere, in case the other one was in use. -/
theorem expandForest_swap (v : Vocabulary) (ns : String) (s : Session) (nodes : List Node) :
    let swap := Equiv.swap v.ns ns
    let here := expandForest v nodes
    let there := expandForest { v with ns } (forestRename swap nodes)
    there.result = forestRename swap here.result ∧
      there.plans = here.plans.map (Plan.rename swap) ∧
        s.after there.effects = s.after here.effects := by
  intro swap here there
  have hinj : Function.Injective swap := swap.injective
  have hthere : there = expandForest (v.rename swap) (forestRename swap nodes) := by
    rw [Vocabulary.rename, Equiv.swap_apply_left]
  rw [hthere]
  exact ⟨expandForest_rename v hinj nodes, plans_rename hinj v nodes, session_rename hinj v s nodes⟩

end Expansion
end WidgetMarkup
