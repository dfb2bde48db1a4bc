import WidgetMarkup.Log
import WidgetMarkup.Proofs.HelperCalls

namespace WidgetMarkup

variable {r : Registry} {h : Helper} {hs : List Helper} {es : List Effect}

theorem logOf_append (r : Registry) (es fs : List Effect) :
    logOf r (es ++ fs) = logOf r es ++ logOf (r.addAll (es.filterMap Effect.helper?)) fs := by
  induction es generalizing r with
  | nil => rfl
  | cons e es ih =>
      rw [List.cons_append, logOf, logOf, ih, List.append_assoc]
      cases e <;> rfl

def linesOf (s : Severity) (log : List LogEntry) : List LogEntry :=
  log.filter fun e => e.severity == s

theorem linesOf_append (s : Severity) (log more : List LogEntry) :
    linesOf s (log ++ more) = linesOf s log ++ linesOf s more := List.filter_append ..

theorem traces_logOf (r : Registry) (es : List Effect) :
    linesOf .trace (logOf r es) = (es.filterMap Effect.problem?).map Diagnostic.logEntry := by
  induction es generalizing r with
  | nil => rfl
  | cons e es ih =>
      rw [logOf, linesOf_append, ih, List.filterMap_cons]
      cases e with
      | problem d => rfl
      | expanded name stages removed => rfl
      | helper h =>
          have hsilent : linesOf .trace (r.logEntry? h).toList = [] := by
            rw [Registry.logEntry?]
            repeat' split
            all_goals rfl
          rw [Effect.logEntry?, hsilent]
          rfl

namespace Registry

theorem find?_addAll_cons : (r.addAll (h :: hs)).find? h.localName =
    some ((r.find? h.localName).getD h) := by
  rw [find?_addAll, List.find?_cons_of_pos (by simp)]
  cases r.find? h.localName <;> rfl

/-- What there is to warn about when `h` was registered on the way to the registry. -/
def refusal? (r : Registry) (h : Helper) : Option LogEntry :=
  ((r.find? h.localName).filter fun old => old != h).map h.refusedEntry

theorem warnings_logEntry? : linesOf .warn (r.logEntry? h).toList =
    ((r.addAll (h :: hs)).refusal? h).toList := by
  rw [refusal?, find?_addAll_cons, logEntry?]
  cases hold : r.find? h.localName with
  | none => simp [linesOf, Helper.addedEntry]
  | some old =>
      by_cases he : old = h <;> simp [he, linesOf, Helper.refusedEntry, Option.filter_some]

/-- Every helper that a registry takes in is announced, in the same order, and no other one. -/
theorem announcements (r : Registry) (hs : List Helper) : ∃ new,
    (r.addAll hs).helpers = r.helpers ++ new ∧
      linesOf .debug (logOf r (hs.map .helper)) = new.map Helper.addedEntry := by
  induction hs generalizing r with
  | nil => exact ⟨[], (List.append_nil _).symm, rfl⟩
  | cons h hs ih =>
      obtain ⟨new, hhelpers, hlines⟩ := ih (r.add h)
      have hstep : logOf r ((h :: hs).map .helper) =
        (r.logEntry? h).toList ++ logOf (r.add h) (hs.map .helper) := rfl
      have hadd : r.addAll (h :: hs) = (r.add h).addAll hs := rfl
      rw [hstep, linesOf_append, hlines, hadd, hhelpers, helpers_add, logEntry?]
      cases hold : r.find? h.localName with
      | none => exact ⟨h :: new, by simp, rfl⟩
      | some old =>
          refine ⟨new, by simp, ?_⟩
          by_cases he : old = h <;> simp [he, linesOf, Helper.refusedEntry]

end Registry

/-- A registration is warned about just when the name ends up with another helper. -/
theorem warnings_logOf (r : Registry) (es : List Effect) :
    let hs := es.filterMap Effect.helper?
    linesOf .warn (logOf r es) = hs.filterMap (r.addAll hs).refusal? := by
  induction es generalizing r with
  | nil => rfl
  | cons e es ih =>
      have hstep := ih (r.addAll e.helper?.toList)
      dsimp only at hstep ⊢
      rw [logOf, linesOf_append, hstep]
      cases e with
      | problem d => rfl
      | expanded name stages removed => rfl
      | helper h =>
          have hhelpers : (Effect.helper h :: es).filterMap Effect.helper? =
            h :: es.filterMap Effect.helper? := rfl
          have hadd (hs : List Helper) : (r.addAll [h]).addAll hs = r.addAll (h :: hs) := rfl
          rw [Effect.logEntry?, Registry.warnings_logEntry?, hhelpers, Effect.helper?,
            Option.toList_some, hadd, List.filterMap_cons]
          cases (r.addAll (h :: es.filterMap Effect.helper?)).refusal? h <;> rfl

namespace Expansion

variable (v : Vocabulary)

theorem helpers_expandForest (ns : List Node) :
    (expandForest v ns).effects.filterMap Effect.helper? =
      (expandForest v ns).plans.flatMap fun p =>
        if p.stages.propertyArgs then v.helpers else [] := by
  rw [effects_expandForest, plans_expandForest, List.filterMap_flatMap, List.flatMap_map]
  simp only [helpers_expandTag]

def sharedNameLine? : Option LogEntry :=
  if v.argsHelper.localName = v.cleanupHelper.localName ∧
      v.argsHelper.exported ≠ v.cleanupHelper.exported then
    some ((v.helper v.cleanupHelper).refusedEntry (v.helper v.argsHelper))
  else none

theorem refusals_helpers {r : Registry}
    (h : ∀ n, r.find? n = v.helpers.find? fun h => h.localName == n) :
    v.helpers.filterMap r.refusal? = (sharedNameLine? v).toList := by
  have hargs : r.refusal? (v.helper v.argsHelper) = none := by
    have hfind : r.find? (v.helper v.argsHelper).localName = some (v.helper v.argsHelper) :=
      (h _).trans find?_helpers_args
    rw [Registry.refusal?, hfind, Option.filter_some, if_neg (by simp), Option.map_none]
  have hcleanup : r.refusal? (v.helper v.cleanupHelper) = sharedNameLine? v := by
    rw [Registry.refusal?, h, sharedNameLine?, Vocabulary.helpers]
    by_cases hname : v.argsHelper.localName = v.cleanupHelper.localName
    case pos =>
      by_cases hexported : v.argsHelper.exported = v.cleanupHelper.exported <;>
        simp [Vocabulary.helper, hname, hexported, Option.filter_some]
    case neg => simp [Vocabulary.helper, hname, Option.filter_some]
  rw [Vocabulary.helpers, List.filterMap_cons_none hargs, List.filterMap_cons, hcleanup]
  cases sharedNameLine? v <;> rfl

/-- In a template that starts without helpers the only thing to warn about is a name that is given
to two functions, once for each element with calls. -/
theorem warnings_expandForest (ns : List Node) :
    linesOf .warn (logOf {} (expandForest v ns).effects) =
      (expandForest v ns).plans.flatMap fun p =>
        if p.stages.propertyArgs then (sharedNameLine? v).toList else [] := by
  have hregistry : ({} : Registry).addAll ((expandForest v ns).effects.filterMap Effect.helper?) =
    registryOf v ns := rfl
  rw [warnings_logOf, hregistry, helpers_expandForest, List.filterMap_flatMap]
  apply List.flatMap_congr
  intro p hp
  split
  case isTrue hargs => exact refusals_helpers v (find?_registryOf hp hargs)
  case isFalse => rfl

end Expansion
end WidgetMarkup
