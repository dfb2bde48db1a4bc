import WidgetMarkup.Proofs.EventValues
import WidgetMarkup.Proofs.Requests

namespace WidgetMarkup

def Binding.tuple (b : Binding) : List Expr :=
  match b.props with
  | [] => [.text b.source, .text b.target]
  | props => [.text b.source, .text b.target,
      .object (props.map fun f => ⟨f.key, .raw f.text, true⟩)]

theorem Binding.expr_eq (b : Binding) : b.expr = .array b.tuple := by
  obtain ⟨source, target, props⟩ := b
  cases props <;> rfl

namespace Expansion

open Coercion

section
variable (v : Vocabulary) (t : Tag)

def isBound (span : Option Span) (p : Attribute) : Bool :=
  isEvent v p.name && (binding? span p).isSome

def idExpr? : Option Expr := (usedId? v t).map fun value => (ofValue .text true value).expr

def scopeArg : Expr := if (usedId? v t).isSome then .text widgetScope else .null

def bindingsArg : List Binding → List Expr
  | [] => []
  | bs => [.array (bs.map fun b => .array b.tuple)]

/-- How the calls in a plan are put together from the properties of the element. -/
structure Assembled (p : Plan) : Prop where
  pre : p.pre = some (.call (.var v.argsHelper.localName)
    ([(idExpr? v t).getD .null, scopeArg v t] ++ bindingsArg p.bindings))
  post : p.post = some (.call (.var v.cleanupHelper.localName) [])
  bindings : p.bindings.map some = (t.props.filter (isBound v t.span)).map (binding? t.span)
  sources : p.bindings.map (fun b => eventLabel ++ b.source) =
    (t.props.filter (isBound v t.span)).map fun q => q.name.localName
  interleaved : ∀ props, usedId? v { t with props } = usedId? v t →
    props.filter (isBound v t.span) = t.props.filter (isBound v t.span) →
      (expandTag v { t with props }).plan.pre = p.pre ∧
        (expandTag v { t with props }).plan.post = p.post ∧
          (expandTag v { t with props }).plan.bindings = p.bindings

end

variable {v : Vocabulary} {t : Tag}

theorem bindings_argsStage (h : t.attr? (v.name widgetAttr) = none) : (argsStage v t).bindings =
    (t.props.filter (isBound v t.span)).filterMap (binding? t.span) := by
  simp only [argsStage, h]
  rw [bindings_eq, List.filterMap_filter, List.filterMap_filter]
  apply List.filterMap_congr
  intro p _
  rw [isBound]
  cases isEvent v p.name <;> cases binding? t.span p <;> rfl

theorem calls_argsStage (h : t.attr? (v.name widgetAttr) = none) : (argsStage v t).calls =
    calls? v { id := idExpr? v t
               scope := (idExpr? v t).map fun _ => widgetScope
               events := Binding.listExpr? (argsStage v t).bindings } := by
  simp only [argsStage, h]
  rw [argsOf_eq, ids_eq, List.getLast?_map, idExpr?, usedId?]
  simp only [Option.map_map]
  rfl

theorem source_of_binding? {span : Option Span} {p : Attribute} {b : Binding}
    (hevent : isEvent v p.name = true) (h : binding? span p = some b) :
    eventLabel ++ b.source = p.name.localName := by
  obtain ⟨_, -, -, rfl⟩ := Binding.ofFields?_eq_some_iff.1 (Binding.parse_eq_some_iff.1 h)
  have hlabel : eventLabel.toList <+: p.name.localName.toList :=
    List.isPrefixOf_iff_prefix.1 (Bool.and_eq_true_iff.1 hevent).2
  apply String.toList_inj.1
  rw [String.toList_append, String.toList_ofList, ← String.length_toList]
  exact List.prefix_iff_eq_append.1 hlabel

theorem map_bindings {α : Type} {span : Option Span} {part : Binding → α} {own : Attribute → α}
    (h : ∀ p b, isEvent v p.name = true → binding? span p = some b → part b = own p)
    (props : List Attribute) :
    ((props.filter (isBound v span)).filterMap (binding? span)).map part =
      (props.filter (isBound v span)).map own := by
  rw [List.map_filterMap, ← List.filterMap_eq_map]
  apply List.filterMap_congr
  intro p hp
  obtain ⟨hevent, hsome⟩ := Bool.and_eq_true_iff.1 (List.mem_filter.1 hp).2
  obtain ⟨b, hb⟩ := Option.isSome_iff_exists.1 hsome
  rw [hb, Option.map_some, h p b hevent hb]
  rfl

theorem toList_args (id : Option Expr) (bs : List Binding) :
    CallArgs.toList ⟨id, id.map fun _ => widgetScope, Binding.listExpr? bs⟩ =
      [id.getD .null, if id.isSome then .text widgetScope else .null] ++ bindingsArg bs := by
  have hevents : (Binding.listExpr? bs).toList = bindingsArg bs := by
    cases bs with
    | nil => rfl
    | cons b bs => simp [Binding.listExpr?, bindingsArg, Binding.expr_eq]
  rw [CallArgs.toList, hevents]
  cases id <;> rfl

theorem argsStage_interleaved {props : List Attribute} (hclass : t.attr? (v.name widgetAttr) = none)
    (hid : usedId? v { t with props } = usedId? v t)
    (hbound : props.filter (isBound v t.span) = t.props.filter (isBound v t.span)) :
    (argsStage v { t with props }).calls = (argsStage v t).calls ∧
      (argsStage v { t with props }).bindings = (argsStage v t).bindings := by
  have hbindings : (argsStage v { t with props }).bindings = (argsStage v t).bindings := by
    rw [bindings_argsStage hclass, ← hbound]
    exact bindings_argsStage (t := { t with props }) hclass
  refine ⟨?_, hbindings⟩
  rw [calls_argsStage (t := { t with props }) hclass, calls_argsStage hclass, hbindings, idExpr?,
    idExpr?, hid]

/-- The call before an element passes its last id and its bindings in order, whichever way the
properties are mixed. -/
theorem calls_assembled (v : Vocabulary) (t : Tag)
    (h : (expandTag v t).plan.pre.isSome = true ∨ (expandTag v t).plan.post.isSome = true) :
    Assembled v t (expandTag v t).plan := by
  have hsome : (argsStage v t).calls.isSome = true := by
    simpa [expandTag] using h
  have hclass : t.attr? (v.name widgetAttr) = none := (isSome_calls_argsStage_iff.1 hsome).1
  obtain ⟨c, hc⟩ := Option.isSome_iff_exists.1 hsome
  have hwritten := calls?_eq_some ((calls_argsStage hclass).symm.trans hc)
  have hbindings : (expandTag v t).plan.bindings =
      (t.props.filter (isBound v t.span)).filterMap (binding? t.span) := bindings_argsStage hclass
  constructor
  case pre =>
    have hpre : (expandTag v t).plan.pre = some c.before := congrArg (Option.map Calls.before) hc
    rw [hpre, hwritten, toList_args, scopeArg, idExpr?, Option.isSome_map]
    rfl
  case post =>
    have hpost : (expandTag v t).plan.post = some c.after := congrArg (Option.map Calls.after) hc
    rw [hpost, hwritten]
  case bindings =>
    rw [hbindings]
    exact map_bindings (fun _ _ _ hb => hb.symm) _
  case sources =>
    rw [hbindings]
    exact map_bindings (fun _ _ => source_of_binding?) _
  case interleaved =>
    intro props hid hbound
    obtain ⟨hcalls, hsame⟩ := argsStage_interleaved hclass hid hbound
    exact ⟨congrArg (Option.map Calls.before) hcalls, congrArg (Option.map Calls.after) hcalls, hsame⟩

def mixedProps : Tag :=
  let prop localName value : Attribute := ⟨Vocabulary.name {} localName, value, none⟩
  { Tag.html "li" with props :=
    [prop "event-click" (.text "onClick"), prop "id" (.text "first"),
      prop "event-hover" (.text "delay=1"), prop "id" (.code (.raw "row.id")),
      prop "event-tap" (.text "delay=100; target=onTap")] }

theorem calls_mixedProps :
    (expandTag {} mixedProps).plan.pre.isSome = true ∧
      (expandTag {} mixedProps).plan.pre = some (.call (.var "_widgetArgs")
        [.raw "row.id", .text "widget",
          .array [.array [.text "click", .text "onClick"],
            .array [.text "tap", .text "onTap", .object [⟨"delay", .raw "100", true⟩]]]]) := by
  have hsome : (expandTag {} mixedProps).plan.pre.isSome = true := rfl
  refine ⟨hsome, ?_⟩
  rw [(calls_assembled {} mixedProps (.inl hsome)).pre]
  rfl

end Expansion
end WidgetMarkup
