import WidgetMarkup.Proofs.Forest
import WidgetMarkup.Proofs.Registrations
import WidgetMarkup.Proofs.Stages

namespace WidgetMarkup

namespace Effect

@[simp] theorem filterMap_helper?_problems (ds : List Diagnostic) :
    (ds.map problem).filterMap helper? = [] := by
  simp [helper?]

@[simp] theorem filterMap_helper?_helpers (hs : List Helper) :
    (hs.map helper).filterMap helper? = hs := by
  rw [List.filterMap_map]
  exact List.filterMap_some

@[simp] theorem filterMap_problem?_problems (ds : List Diagnostic) :
    (ds.map problem).filterMap problem? = ds := by
  rw [List.filterMap_map]
  exact List.filterMap_some

@[simp] theorem filterMap_problem?_helpers (hs : List Helper) :
    (hs.map helper).filterMap problem? = [] := by
  simp [problem?]

end Effect

namespace Session

theorem after_append (s : Session) (es fs : List Effect) :
    s.after (es ++ fs) = (s.after es).after fs := by
  simp only [after, Registry.addAll, List.filterMap_append, List.foldl_append, List.append_assoc]

theorem after_flatMap_of_forall {α : Type} {f : α → List Effect} {xs : List α}
    (h : ∀ x ∈ xs, ∀ s : Session, s.after (f x) = s) (s : Session) :
    s.after (xs.flatMap f) = s := by
  induction xs with
  | nil => simp [after, Registry.addAll]
  | cons x xs ih =>
      rw [List.forall_mem_cons] at h
      rw [List.flatMap_cons, after_append, h.1, ih h.2]

theorem diagnostics_after (s : Session) (es : List Effect) :
    (s.after es).diagnostics = s.diagnostics ++ (after {} es).diagnostics := by
  simp only [after, List.nil_append]

end Session

namespace Expansion

open Node

variable (v : Vocabulary)

theorem helpers_expandTag (t : Tag) : (expandTag v t).effects.filterMap Effect.helper? =
    if (expandTag v t).plan.stages.propertyArgs then v.helpers else [] := by
  simp only [expandTag, List.filterMap_append, Effect.filterMap_helper?_problems]
  cases (argsStage v t).calls.isSome <;> split <;> simp [-List.filterMap_map, Effect.helper?]

theorem problems_expandTag (t : Tag) : (expandTag v t).effects.filterMap Effect.problem? =
    (argsStage v t).problems ++ (classStage v (afterArgs v t)).problems ++
      (elIdStage v (afterClass v t)).problems := by
  simp only [expandTag, List.filterMap_append, Effect.filterMap_problem?_problems]
  cases (argsStage v t).calls.isSome <;> split <;>
    simp [-List.filterMap_map, Effect.problem?, afterArgs, afterClass]

def visit (s : Session) (t : Tag) : Session := s.after (expandTag v t).effects

theorem registry_visit (s : Session) (t : Tag) : (visit v s t).registry =
    if (expandTag v t).plan.stages.propertyArgs then s.registry.addAll v.helpers else s.registry := by
  rw [visit, Session.after, helpers_expandTag]
  split <;> rfl

theorem after_expandForest (s : Session) (ns : List Node) :
    s.after (expandForest v ns).effects = (forestTags ns).foldl (visit v) s := by
  rw [effects_expandForest]
  induction forestTags ns generalizing s with
  | nil => simp [Session.after, Registry.addAll]
  | cons t ts ih => rw [List.flatMap_cons, Session.after_append, List.foldl_cons, ih, visit]

theorem registry_foldl_visit (s : Session) (ts : List Tag) : (ts.foldl (visit v) s).registry =
    if ts.any fun t => (expandTag v t).plan.stages.propertyArgs then s.registry.addAll v.helpers
    else s.registry := by
  induction ts generalizing s with
  | nil => rfl
  | cons t ts ih =>
      rw [List.foldl_cons, ih, registry_visit, List.any_cons]
      cases (expandTag v t).plan.stages.propertyArgs
      · rfl
      · simp [Registry.addAll_addAll_self]

/-- However many elements ask for the helpers, the registry gets them once. -/
theorem registry_after_expandForest (s : Session) (ns : List Node) :
    (s.after (expandForest v ns).effects).registry =
      if (expandForest v ns).plans.any fun p => p.stages.propertyArgs
      then s.registry.addAll v.helpers else s.registry := by
  rw [after_expandForest, registry_foldl_visit, plans_expandForest, List.any_map]
  rfl

def listener (value : String) : Node :=
  .element ((Tag.html "button").putProp (.within "widgets" "event-click") (.text value)) []

end Expansion
end WidgetMarkup
