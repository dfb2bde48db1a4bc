import WidgetMarkup.Proofs.Forest
import WidgetMarkup.Proofs.Stages

namespace WidgetMarkup

namespace Node

mutual

/-- Takes off the wrappers. The plans, one for each element that was there before the wrappers,
tell which elements are wrappers. Gives the plans of what comes after the node. -/
def unwrap? : List Plan → Node → Option (Node × List Plan)
  | ps, text s => some (text s, ps)
  | [], element _ _ => none
  | p :: ps, element t children =>
      if p.wrapped then onlyChild? ps children
      else (forestUnwrap? ps children).map fun r => (element t r.1, r.2)

def onlyChild? : List Plan → List Node → Option (Node × List Plan)
  | ps, [element t children] => (forestUnwrap? ps children).map fun r => (element t r.1, r.2)
  | _, _ => none

def forestUnwrap? : List Plan → List Node → Option (List Node × List Plan)
  | ps, [] => some ([], ps)
  | ps, n :: ns =>
      match unwrap? ps n with
      | none => none
      | some (m, qs) => (forestUnwrap? qs ns).map fun r => (m :: r.1, r.2)

end

mutual

/-- The same texts at the same places, and elements at the same places whose tags are related. -/
def Alike (R : Tag → Tag → Prop) : Node → Node → Prop
  | text s, text s' => s = s'
  | element t children, element t' children' => R t t' ∧ ForestAlike R children children'
  | _, _ => False

def ForestAlike (R : Tag → Tag → Prop) : List Node → List Node → Prop
  | [], [] => True
  | n :: ns, n' :: ns' => Alike R n n' ∧ ForestAlike R ns ns'
  | _, _ => False

end

end Node

namespace Expansion

open Node
open Tag (Frame)

variable (v : Vocabulary)

def leavesAttr (n : Name) : Bool :=
  n ∉ [v.name widgetAttr, v.name idAttr, v.name configAttr, v.name elIdAttr, .plain idAttr]

def leavesProp (n : Name) : Bool := !isRequest v n && n != .plain "scope"

theorem frame_expandTag (t : Tag) : Frame (leavesAttr v) (leavesProp v) t (expandTag v t).tag := by
  have hargs : Frame (leavesAttr v) (leavesProp v) t (afterArgs v t) :=
    (frame_argsStage v t).mono (by simp) (by simp +contextual [leavesProp])
  have hclass : Frame (leavesAttr v) (leavesProp v) (afterArgs v t) (afterClass v t) :=
    (frame_classStage v _).mono (by simp +contextual [leavesAttr, besideClass]) (by simp)
  have helId : Frame (leavesAttr v) (leavesProp v) (afterClass v t) (afterElId v t) :=
    (frame_elIdStage v _).mono (by simp +contextual [leavesAttr, besideElId]) (by simp)
  have hscope : Frame (leavesAttr v) (leavesProp v) (afterElId v t) (expandTag v t).tag :=
    (frame_scopeStage v _).mono (by simp) (by simp [leavesProp, scopeProp])
  exact ((hargs.trans hclass).trans helId).trans hscope

theorem wrapped_plan (t : Tag) :
    (expandTag v t).plan.wrapped = (expandTag v t).wrapper.isSome := rfl

mutual

theorem unwrap?_expandNode (n : Node) (ps : List Plan) :
    ∃ m, (expandNode v n).result.unwrap? ((expandNode v n).plans ++ ps) = some (m, ps) ∧
      Alike (Frame (leavesAttr v) (leavesProp v)) n m := by
  match n with
  | .text s => exact ⟨.text s, rfl, rfl⟩
  | .element t children =>
      obtain ⟨below, hbelow, halike⟩ := forestUnwrap?_expandForest children ps
      refine ⟨.element (expandTag v t).tag below, ?_, frame_expandTag v t, halike⟩
      simp only [expandNode, TagExpansion.node, List.cons_append]
      have hwrapped := wrapped_plan v t
      cases hw : (expandTag v t).wrapper with
      | none =>
          rw [hw] at hwrapped
          simp [unwrap?, hwrapped, hbelow]
      | some w =>
          -- the walk goes on below the element inside, and no plan is for the wrapper
          rw [hw] at hwrapped
          simp [unwrap?, onlyChild?, hwrapped, hbelow]

theorem forestUnwrap?_expandForest (ns : List Node) (ps : List Plan) :
    ∃ ms, forestUnwrap? ((expandForest v ns).plans ++ ps) (expandForest v ns).result =
      some (ms, ps) ∧ ForestAlike (Frame (leavesAttr v) (leavesProp v)) ns ms := by
  match ns with
  | [] => exact ⟨[], rfl, trivial⟩
  | n :: ns =>
      obtain ⟨m, hm, hn⟩ := unwrap?_expandNode n ((expandForest v ns).plans ++ ps)
      obtain ⟨ms, hms, hns⟩ := forestUnwrap?_expandForest ns ps
      refine ⟨m :: ms, ?_, hn, hns⟩
      simp only [expandForest, List.append_assoc, forestUnwrap?, hm, hms, Option.map_some]

end

/-- A run has one plan for each element of the template, parents first. Seen without the new
wrappers, its result is the template again, up to what the widget markup is about. -/
theorem expandForest_unwraps_to_input (ns : List Node) :
    (expandForest v ns).plans = (forestTags ns).map (fun t => (expandTag v t).plan) ∧
      ∃ ms, forestUnwrap? (expandForest v ns).plans (expandForest v ns).result = some (ms, []) ∧
        ForestAlike (Frame (leavesAttr v) (leavesProp v)) ns ms := by
  refine ⟨plans_expandForest v ns, ?_⟩
  obtain ⟨ms, hms, halike⟩ := forestUnwrap?_expandForest v ns []
  rw [List.append_nil] at hms
  exact ⟨ms, hms, halike⟩

end Expansion
end WidgetMarkup
