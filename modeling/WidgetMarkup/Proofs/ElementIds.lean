import Mathlib.Data.List.Count
import WidgetMarkup.Proofs.ElementProblems

namespace WidgetMarkup

theorem CoercionProblem.message_unterminatedPlaceholder (value : String) :
    (unterminatedPlaceholder value).message =
      "Unterminated \"$\x7b\" placeholder in \"" ++ (value ++ "\"") := by
  unfold CoercionProblem.message
  exact String.append_assoc

/-- The code of a value whose text is not searched for placeholders. -/
def Value.verbatim : Value → Expr
  | text s => .text s
  | code e => e

namespace Expansion

open Attribute

section
variable {v : Vocabulary} {t : Tag} {n : Name}

theorem argsStage_withoutAttr (h : besideClass v n = true) : argsStage v (t.withoutAttr n) =
    { argsStage v t with tag := (argsStage v t).tag.withoutAttr n } := by
  have hne : n ≠ v.name widgetAttr := List.ne_of_not_mem_cons (of_decide_eq_true h)
  have hclass : (t.withoutAttr n).attr? (v.name widgetAttr) = t.attr? (v.name widgetAttr) :=
    value?_without_of_ne hne
  simp only [argsStage, hclass]
  cases t.attr? (v.name widgetAttr) <;> rfl

theorem classStage_withoutAttr (h : besideClass v n = true) : classStage v (t.withoutAttr n) =
    { classStage v t with tag := (classStage v t).tag.withoutAttr n } := by
  have hattr {m : Name} (hm : n ≠ m) : (t.withoutAttr n).attr? m = t.attr? m := value?_without_of_ne hm
  have hne : n ∉ [v.name widgetAttr, v.name idAttr, v.name configAttr, .plain idAttr] :=
    of_decide_eq_true h
  simp only [List.mem_cons, List.not_mem_nil, or_false, not_or] at hne
  obtain ⟨hclass, hid, hconfig, hplain⟩ := hne
  have hrest : withoutClass v (t.withoutAttr n) = (withoutClass v t).withoutAttr n := by
    simp only [withoutClass, Tag.withoutAttr]
    rw [without_comm (n := n), without_comm (n := n) (m := v.name idAttr), without_comm (n := n)]
  have hput : ((withoutClass v t).withoutAttr n).putAttr (.plain idAttr) generatedId =
      ((withoutClass v t).putAttr (.plain idAttr) generatedId).withoutAttr n := by
    simp only [Tag.putAttr, Tag.withoutAttr, without_put_of_ne hplain]
  rw [withoutClass] at hrest
  simp only [classStage, hattr hclass, hattr hid, hattr hconfig, hattr hplain, hrest, hput]
  cases t.attr? (v.name widgetAttr) with
  | none => rfl
  | some cls => cases t.attr? (.plain idAttr) <;> rfl

theorem afterClass_withoutAttr (h : besideClass v n = true) :
    afterClass v (t.withoutAttr n) = (afterClass v t).withoutAttr n := by
  rw [afterClass, afterArgs, argsStage_withoutAttr h, classStage_withoutAttr h]
  rfl

end

variable (v : Vocabulary) (t : Tag)

/-- An element id that is of no use is as if it had not been written, but for the report. -/
structure Ignored (r bare : TagExpansion) : Prop where
  node : ∀ children, r.node children = bare.node children
  registry : ∀ s : Session, (s.after r.effects).registry = (s.after bare.effects).registry
  plan : r.plan = { bare.plan with removed := bare.plan.removed ++ [v.name elIdAttr] }
  diagnostics : ∀ s : Session, (s.after r.effects).diagnostics =
    (s.after bare.effects).diagnostics ++ [.error t.span (elIdConflictMessage v.label)]

variable {v t}

theorem isSome_id_of_conflicted (h : Conflicted v t) :
    ((afterClass v t).attr? (.plain idAttr)).isSome := by
  rw [isSome_id_afterClass, Bool.or_eq_true]
  exact h.2

theorem elIdStage_of_conflicted (h : Conflicted v t) : elIdStage v (afterClass v t) =
    { tag := (afterClass v t).withoutAttr (v.name elIdAttr)
      removed := [v.name elIdAttr]
      problems := [.error t.span (elIdConflictMessage v.label)] } := by
  obtain ⟨value, hvalue⟩ := Option.isSome_iff_exists.1 h.1
  obtain ⟨id, hid⟩ := Option.isSome_iff_exists.1 (isSome_id_of_conflicted h)
  rw [← attr?_afterClass_elId] at hvalue
  have hrest : ((afterClass v t).withoutAttr (v.name elIdAttr)).attr? (.plain idAttr) = some id :=
    (value?_without_of_ne (by simp)).trans hid
  simp only [elIdStage, hvalue, hrest, span_afterClass]

theorem elIdStage_bare (h : t.attrs.countP (fun a => a.name == v.name elIdAttr) = 1) :
    elIdStage v (afterClass v (t.withoutAttr (v.name elIdAttr))) =
      { tag := (afterClass v t).withoutAttr (v.name elIdAttr) } := by
  rw [afterClass_withoutAttr (besideClass_elId v)]
  apply elIdStage_of_no_elId
  apply value?_without_self
  exact Nat.le_of_eq ((countP_afterClass_elId v t).trans h)

theorem expandTag_of_conflicted (h : Conflicted v t)
    (hone : t.attrs.countP (fun a => a.name == v.name elIdAttr) = 1) :
    let bare := expandTag v (t.withoutAttr (v.name elIdAttr))
    (expandTag v t).tag = bare.tag ∧ (expandTag v t).wrapper = bare.wrapper ∧
      (expandTag v t).plan = { bare.plan with removed := bare.plan.removed ++ [v.name elIdAttr] } := by
  have hbeside := besideClass_elId v
  have hconflict := elIdStage_of_conflicted h
  have hbare := elIdStage_bare hone
  rw [afterClass_withoutAttr hbeside] at hbare
  rw [afterClass, afterArgs] at hconflict hbare
  simp only [expandTag, argsStage_withoutAttr hbeside, classStage_withoutAttr hbeside,
    hconflict, hbare, List.append_nil, and_self]

theorem problems_of_conflicted (h : Conflicted v t)
    (hone : t.attrs.countP (fun a => a.name == v.name elIdAttr) = 1) :
    (expandTag v t).effects.filterMap Effect.problem? =
      (expandTag v (t.withoutAttr (v.name elIdAttr))).effects.filterMap Effect.problem? ++
        [.error t.span (elIdConflictMessage v.label)] := by
  have hbeside := besideClass_elId v
  rw [problems_expandTag, problems_expandTag, elIdStage_of_conflicted h, elIdStage_bare hone,
    afterArgs, afterArgs, argsStage_withoutAttr hbeside, classStage_withoutAttr hbeside,
    List.append_nil]

theorem ignored_of_conflicted (h : Conflicted v t)
    (hone : t.attrs.countP (fun a => a.name == v.name elIdAttr) = 1) :
    Ignored v t (expandTag v t) (expandTag v (t.withoutAttr (v.name elIdAttr))) := by
  obtain ⟨htag, hwrapper, hplan⟩ := expandTag_of_conflicted h hone
  constructor
  case node =>
    intro children
    rw [TagExpansion.node, TagExpansion.node, htag, hwrapper]
  case registry =>
    intro s
    rw [Session.after, Session.after, helpers_expandTag, helpers_expandTag, hplan]
  case plan => exact hplan
  case diagnostics =>
    intro s
    rw [Session.after, Session.after, problems_of_conflicted h hone, ← List.append_assoc]

theorem head_elIdConflictMessage (label : String) :
    (elIdConflictMessage label).toList.head? = some 'T' := by
  rw [elIdConflictMessage, String.toList_append, String.toList_append]
  rfl

theorem head_placeholderErrors {value : Value} {message : String}
    (h : message ∈ value.placeholderErrors) : message.toList.head? = some 'U' := by
  cases value with
  | code e => cases h
  | text s =>
      rw [Value.placeholderErrors] at h
      split at h
      case h_1 =>
        rw [List.mem_singleton.1 h, CoercionProblem.message_unterminatedPlaceholder, String.toList_append]
        rfl
      case h_2 => cases h

theorem head_propErrors {span : Option Span} {p : Attribute} {message : String}
    (h : message ∈ propErrors v span p) :
    message.toList.head? = some 'U' ∨ message.toList.head? = some 'I' := by
  rw [propErrors] at h
  split at h
  · exact .inl (head_placeholderErrors h)
  · split at h
    · obtain ⟨d, hd, rfl⟩ := List.mem_map.1 h
      obtain ⟨rest, rfl⟩ := Binding.of_mem_diagnostics hd
      right
      rw [Diagnostic.error, String.toList_append]
      rfl
    · cases h

theorem count_errors :
    (errors v t).count (elIdConflictMessage v.label) = if Conflicted v t then 1 else 0 := by
  -- no other message begins with the same letter
  have hmessage := head_elIdConflictMessage v.label
  have hattrs (names : List Name) : elIdConflictMessage v.label ∉ names.flatMap (attrErrors t) := by
    intro h
    simp only [attrErrors, List.mem_flatMap] at h
    obtain ⟨n, -, value, -, h⟩ := h
    rw [head_placeholderErrors h] at hmessage
    simp at hmessage
  have hprops : elIdConflictMessage v.label ∉ t.props.flatMap (propErrors v t.span) := by
    intro h
    obtain ⟨p, -, h⟩ := List.mem_flatMap.1 h
    obtain hhead | hhead := head_propErrors h <;> simp [hhead] at hmessage
  rw [errors, List.count_append, List.count_eq_zero_of_not_mem (by split <;> simp only [hattrs, hprops,
    not_false_eq_true]), Nat.zero_add]
  split
  · exact List.count_singleton_self
  · rfl

theorem count_conflict (s : Session) :
    (s.after (expandTag v t).effects).diagnostics.count (.error t.span (elIdConflictMessage v.label)) =
      s.diagnostics.count (.error t.span (elIdConflictMessage v.label)) +
        if Conflicted v t then 1 else 0 := by
  have hinj : Function.Injective (Diagnostic.error t.span) :=
    fun a b h => congrArg Diagnostic.message h
  rw [Session.after, List.count_append, problems_eq_errors, List.count_map_of_injective _ _ hinj,
    count_errors]

/-- The id of an element is its own one, else the one of its widget, else the one its element id
stands for. An element id beside another id is reported once and changes nothing else. -/
theorem elId_resolved (v : Vocabulary) (t : Tag) :
    ((expandTag v t).tag.attr? (.plain idAttr) =
      match t.attr? (.plain idAttr), t.attr? (v.name widgetAttr), t.attr? (v.name elIdAttr) with
      | some id, _, _ => some id
      | none, some _, _ => some (.text "$\x7bwidget.elId()\x7d")
      | none, none, some value => some (.code (.call (.prop (.var "widget") "elId") [value.verbatim]))
      | none, none, none => none) ∧
    (∀ s : Session,
      let conflict := .error t.span (elIdConflictMessage v.label)
      (s.after (expandTag v t).effects).diagnostics.count conflict =
        s.diagnostics.count conflict + if Conflicted v t then 1 else 0) ∧
    (Conflicted v t → t.attrs.countP (fun a => a.name == v.name elIdAttr) = 1 →
      Ignored v t (expandTag v t) (expandTag v (t.withoutAttr (v.name elIdAttr)))) := by
  refine ⟨?_, count_conflict, ignored_of_conflicted⟩
  rw [attr?_id_expandTag]
  cases t.attr? (.plain idAttr) with
  | some id => rfl
  | none =>
      cases t.attr? (v.name widgetAttr) with
      | some cls => rfl
      | none =>
          cases t.attr? (v.name elIdAttr) with
          | none => rfl
          | some value => cases value <;> rfl

def label : Tag :=
  { Tag.html "label" with
    attrs := [⟨.plain "for", .text "name", none⟩, ⟨Vocabulary.name {} elIdAttr, .text "$\x7brow\x7d", none⟩,
      ⟨.plain "id", .text "caption", none⟩]
    props := [⟨Vocabulary.name {} "event-click", .text "target=self; message=select", none⟩] }

theorem label_ignores_elId : Conflicted {} label ∧
    label.attrs.countP (fun a => a.name == Vocabulary.name {} elIdAttr) = 1 ∧
    (expandTag {} label).tag.attr? (.plain idAttr) = some (.text "caption") ∧
    Ignored {} label (expandTag {} label)
      (expandTag {} { label with attrs := [⟨.plain "for", .text "name", none⟩,
        ⟨.plain "id", .text "caption", none⟩] }) := by
  have hconflict : Conflicted {} label := ⟨rfl, .inl rfl⟩
  have hone : label.attrs.countP (fun a => a.name == Vocabulary.name {} elIdAttr) = 1 := rfl
  obtain ⟨hid, -, hignored⟩ := elId_resolved {} label
  exact ⟨hconflict, hone, hid, hignored hconflict hone⟩

end Expansion
end WidgetMarkup
