import WidgetMarkup.Proofs.Sessions

namespace WidgetMarkup.Expansion

open Node

structure Part where
  result : List Node
  plans : List Plan
  diagnostics : List Diagnostic

def joined (ps : List Part) : Part :=
  ⟨ps.flatMap Part.result, ps.flatMap Part.plans, ps.flatMap Part.diagnostics⟩

variable (v : Vocabulary)

/-- A part in a session of its own, with no helpers and no diagnostics before it. -/
def alone (ns : List Node) : Part where
  result := (expandForest v ns).result
  plans := (expandForest v ns).plans
  diagnostics := (Session.after {} (expandForest v ns).effects).diagnostics

def roots (ns : List Node) : List Part := ns.map fun n => alone v [n]

theorem expandForest_append (xs ys : List Node) : expandForest v (xs ++ ys) =
    ⟨(expandForest v xs).result ++ (expandForest v ys).result,
      (expandForest v xs).plans ++ (expandForest v ys).plans,
      (expandForest v xs).effects ++ (expandForest v ys).effects⟩ := by
  induction xs with
  | nil => rfl
  | cons n xs ih => simp only [List.cons_append, expandForest, ih, List.append_assoc]

theorem alone_append (xs ys : List Node) : alone v (xs ++ ys) =
    ⟨(alone v xs).result ++ (alone v ys).result, (alone v xs).plans ++ (alone v ys).plans,
      (alone v xs).diagnostics ++ (alone v ys).diagnostics⟩ := by
  simp only [alone, expandForest_append, Session.after_append, ← Session.diagnostics_after]

theorem alone_eq_joined (ns : List Node) : alone v ns = joined (roots v ns) := by
  induction ns with
  | nil => rfl
  | cons n ns ih =>
      rw [← List.singleton_append, alone_append, ih]
      rfl

theorem diagnostics_run (s : Session) (ns : List Node) :
    (s.after (expandForest v ns).effects).diagnostics = s.diagnostics ++ (alone v ns).diagnostics :=
  Session.diagnostics_after s _

theorem registry_perm {xs ys : List Node} (h : xs.Perm ys) (s : Session) :
    (s.after (expandForest v xs).effects).registry =
      (s.after (expandForest v ys).effects).registry := by
  have hplans : (alone v xs).plans.Perm (alone v ys).plans := by
    rw [alone_eq_joined, alone_eq_joined]
    exact (h.map _).flatMap_right _
  rw [registry_after_expandForest, registry_after_expandForest]
  exact if_congr (by rw [← Bool.eq_iff_iff]; exact hplans.any_eq) rfl rfl

/-- Two parts of a template expand side by side as they do alone, and the helpers come in once. So
with its roots in another order a template gets the same pieces in that order, and the same helpers,
also where their names were taken before. -/
theorem expandForest_composes (v : Vocabulary) (s : Session) (xs ys : List Node) :
    let run := expandForest v (xs ++ ys)
    run.result = (alone v xs).result ++ (alone v ys).result ∧
    run.plans = (alone v xs).plans ++ (alone v ys).plans ∧
    (s.after run.effects).diagnostics =
      s.diagnostics ++ (alone v xs).diagnostics ++ (alone v ys).diagnostics ∧
    (s.after run.effects).registry =
      (if run.plans.any fun p => p.stages.propertyArgs
        then (s.registry.add (v.helper v.argsHelper)).add (v.helper v.cleanupHelper)
        else s.registry) ∧
    ∀ zs : List Node, zs.Perm (xs ++ ys) →
      (roots v zs).Perm (roots v (xs ++ ys)) ∧
      (expandForest v zs).result = (roots v zs).flatMap Part.result ∧
      (expandForest v zs).plans = (roots v zs).flatMap Part.plans ∧
      (s.after (expandForest v zs).effects).diagnostics =
        s.diagnostics ++ (roots v zs).flatMap Part.diagnostics ∧
      (s.after (expandForest v zs).effects).registry = (s.after run.effects).registry := by
  intro run
  refine ⟨?_, ?_, ?_, registry_after_expandForest v s _, ?_⟩
  · exact congrArg Part.result (alone_append v xs ys)
  · exact congrArg Part.plans (alone_append v xs ys)
  · rw [diagnostics_run, alone_append, List.append_assoc]
  · intro zs hzs
    have hjoined := alone_eq_joined v zs
    refine ⟨hzs.map _, ?_, ?_, ?_, registry_perm v hzs s⟩
    · exact congrArg Part.result hjoined
    · exact congrArg Part.plans hjoined
    · rw [diagnostics_run, hjoined]
      rfl

def titleField : Node :=
  .element { name := .plain "input", props := [⟨.within "widgets" "id", .text "title", none⟩] } []

def takenName : Session := { registry := ⟨[⟨"./other", "args", false, "_widgetArgs"⟩]⟩ }

theorem swapped_roots :
    [titleField, listener "onSave"].Perm ([listener "onSave"] ++ [titleField]) ∧
      (roots {} [titleField, listener "onSave"]).Perm (roots {} ([listener "onSave"] ++ [titleField])) ∧
      (takenName.after (expandForest {} [titleField, listener "onSave"]).effects).registry =
        (takenName.after (expandForest {} ([listener "onSave"] ++ [titleField])).effects).registry := by
  have hswap : [titleField, listener "onSave"].Perm ([listener "onSave"] ++ [titleField]) := .swap _ _ _
  obtain ⟨hroots, -, -, -, hregistry⟩ :=
    (expandForest_composes {} takenName [listener "onSave"] [titleField]).2.2.2.2 _ hswap
  exact ⟨hswap, hroots, hregistry⟩

end WidgetMarkup.Expansion
