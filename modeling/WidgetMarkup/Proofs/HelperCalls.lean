import WidgetMarkup.Proofs.Requests
import WidgetMarkup.Proofs.Sessions

namespace WidgetMarkup

def Expr.calledName? : Expr → Option String
  | .call (.var name _) _ _ => some name
  | _ => none

/-- The helper that a call reaches when the generated code runs. -/
def Registry.called? (r : Registry) (e : Expr) : Option Helper := e.calledName?.bind r.find?

namespace Expansion

variable {v : Vocabulary} {t : Tag} {ns : List Node} {p : Plan} {e : Expr}

theorem calls?_of_calls {c : Calls} (h : (argsStage v t).calls = some c) :
    ∃ args, calls? v args = some c := by
  rw [argsStage] at h
  split at h
  · cases h
  · exact ⟨_, h⟩

theorem calledName?_of_calls? {args : CallArgs} {c : Calls} (h : calls? v args = some c) :
    c.before.calledName? = some v.argsHelper.localName ∧
      c.after.calledName? = some v.cleanupHelper.localName := by
  obtain rfl := calls?_eq_some h
  exact ⟨rfl, rfl⟩

theorem calls_of_mem_plans (hp : p ∈ (expandForest v ns).plans) :
    (p.pre = none ∧ p.post = none) ∨
      p.stages.propertyArgs = true ∧
        ∃ c : Calls, p.pre = some c.before ∧ p.post = some c.after ∧
          c.before.calledName? = some v.argsHelper.localName ∧
            c.after.calledName? = some v.cleanupHelper.localName := by
  rw [plans_expandForest] at hp
  obtain ⟨t, -, rfl⟩ := List.mem_map.1 hp
  cases hc : (argsStage v t).calls with
  | none => exact .inl (by simp [expandTag, hc])
  | some c =>
      obtain ⟨args, hargs⟩ := calls?_of_calls hc
      obtain ⟨hbefore, hafter⟩ := calledName?_of_calls? hargs
      refine .inr ⟨?_, c, ?_, ?_, hbefore, hafter⟩
      all_goals simp [expandTag, hc]

def registryOf (v : Vocabulary) (ns : List Node) : Registry :=
  (Session.after {} (expandForest v ns).effects).registry

theorem find?_registryOf (hp : p ∈ (expandForest v ns).plans) (h : p.stages.propertyArgs = true)
    (name : String) : (registryOf v ns).find? name = v.helpers.find? fun h => h.localName == name := by
  have hany : ((expandForest v ns).plans.any fun p => p.stages.propertyArgs) = true :=
    List.any_eq_true.2 ⟨p, hp, h⟩
  rw [registryOf, registry_after_expandForest, if_pos hany, Registry.find?_addAll]
  rfl

theorem find?_helpers_args :
    (v.helpers.find? fun h => h.localName == v.argsHelper.localName) = some (v.helper v.argsHelper) :=
  List.find?_cons_of_pos (beq_self_eq_true _)

/-- Under one name for both helpers the second one is never reached. -/
theorem find?_helpers_cleanup :
    (v.helpers.find? fun h => h.localName == v.cleanupHelper.localName) =
        some (v.helper v.cleanupHelper) ↔
      v.argsHelper.localName ≠ v.cleanupHelper.localName ∨
        v.argsHelper.exported = v.cleanupHelper.exported := by
  by_cases hn : v.argsHelper.localName = v.cleanupHelper.localName
  · rw [Vocabulary.helpers, List.find?_cons_of_pos (by simp [Vocabulary.helper, hn])]
    simp [Vocabulary.helper, hn]
  · rw [Vocabulary.helpers, List.find?_cons_of_neg (by simp [Vocabulary.helper, hn]),
      List.find?_cons_of_pos (by simp [Vocabulary.helper])]
    simp [hn]

theorem called?_pre (hp : p ∈ (expandForest v ns).plans) (he : p.pre = some e) :
    (registryOf v ns).called? e = some (v.helper v.argsHelper) := by
  rcases calls_of_mem_plans hp with ⟨hpre, -⟩ | ⟨hargs, c, hpre, -, hname, -⟩
  · rw [hpre] at he
    cases he
  · obtain rfl := Option.some.inj (hpre.symm.trans he)
    rw [Registry.called?, hname, Option.bind_some, find?_registryOf hp hargs, find?_helpers_args]

theorem called?_post_iff (hp : p ∈ (expandForest v ns).plans) (he : p.post = some e) :
    (registryOf v ns).called? e = some (v.helper v.cleanupHelper) ↔
      v.argsHelper.localName ≠ v.cleanupHelper.localName ∨
        v.argsHelper.exported = v.cleanupHelper.exported := by
  rcases calls_of_mem_plans hp with ⟨-, hpost⟩ | ⟨hargs, c, -, hpost, -, hname⟩
  · rw [hpost] at he
    cases he
  · obtain rfl := Option.some.inj (hpost.symm.trans he)
    rw [Registry.called?, hname, Option.bind_some, find?_registryOf hp hargs, find?_helpers_cleanup]

/-- In a template that started without helpers every call before an element reaches the helper that
is configured for it. The calls after elements do unless a single name was given to two different
exports. -/
theorem calls_bound_iff (v : Vocabulary) (ns : List Node) :
    (∀ p ∈ (expandForest v ns).plans, ∀ e, p.pre = some e →
      (registryOf v ns).called? e = some (v.helper v.argsHelper)) ∧
    ((∀ p ∈ (expandForest v ns).plans, ∀ e, p.post = some e →
        (registryOf v ns).called? e = some (v.helper v.cleanupHelper)) ↔
      v.argsHelper.localName ≠ v.cleanupHelper.localName ∨
        v.argsHelper.exported = v.cleanupHelper.exported ∨
          ∀ p ∈ (expandForest v ns).plans, p.post = none) := by
  refine ⟨fun p hp e he => called?_pre hp he, ?_⟩
  rw [← or_assoc]
  constructor
  · intro h
    by_cases hnone : ∀ p ∈ (expandForest v ns).plans, p.post = none
    · exact .inr hnone
    · simp only [not_forall] at hnone
      obtain ⟨p, hp, hne⟩ := hnone
      obtain ⟨e, he⟩ := Option.ne_none_iff_exists'.1 hne
      exact .inl ((called?_post_iff hp he).1 (h p hp e he))
  · rintro (h | hnone) p hp e he
    · exact (called?_post_iff hp he).2 h
    · rw [hnone p hp] at he
      cases he

def sharedName : Vocabulary :=
  { argsHelper := ⟨"widgetArgs", "_widget"⟩, cleanupHelper := ⟨"cleanupWidgetArgs", "_widget"⟩ }

/-- A vocabulary with one name for both helpers passes the check, and what runs after the element is
the function that ran before it. -/
theorem shared_name_runs_args_helper_twice :
    sharedName.problem? = none ∧
      ((expandForest sharedName [listener "onSave"]).plans.map fun p =>
          (p.pre.bind (registryOf sharedName [listener "onSave"]).called?,
            p.post.bind (registryOf sharedName [listener "onSave"]).called?)) =
        [(some (sharedName.helper sharedName.argsHelper),
          some (sharedName.helper sharedName.argsHelper))] ∧
      sharedName.helper sharedName.argsHelper ≠ sharedName.helper sharedName.cleanupHelper := by
  decide

end Expansion
end WidgetMarkup
