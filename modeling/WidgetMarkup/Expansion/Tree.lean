import WidgetMarkup.Expansion.Effect
import WidgetMarkup.Expansion.Stages

namespace WidgetMarkup.Expansion

structure TagExpansion where
  tag : Tag
  wrapper : Option Tag
  plan : Plan
  effects : List Effect

variable (v : Vocabulary)

/-- Takes an element through the four stages. The wrapper is put around it last, since the later
stages look at the element itself. -/
def expandTag (t : Tag) : TagExpansion :=
  let a := argsStage v t
  let c := classStage v a.tag
  let e := elIdStage v c.tag
  let s := scopeStage v e.tag
  let plan : Plan :=
    { stages := ⟨a.calls.isSome, c.wrapper.isSome, e.assigned, s.assigned⟩
      removed := a.removed ++ c.removed ++ e.removed
      pre := a.calls.map Calls.before
      post := a.calls.map Calls.after
      bindings := a.bindings
      wrapped := c.wrapper.isSome }
  let outer := c.wrapper.getD s.tag
  { tag := s.tag
    wrapper := c.wrapper
    plan
    effects := a.problems.map .problem ++
      (if a.calls.isSome then v.helpers.map .helper else []) ++
      (c.problems ++ e.problems).map .problem ++
      if plan.isEmpty then [] else [.expanded outer.name plan.stages plan.removed.length] }

def TagExpansion.node (r : TagExpansion) (children : List Node) : Node :=
  match r.wrapper with
  | none => .element r.tag children
  | some w => .element w [.element r.tag children]

/-- An expanded part of a template, with the plans of its elements, parents first. -/
structure Expanded (α : Type) where
  result : α
  plans : List Plan := []
  effects : List Effect := []

mutual

/-- Expands an element and all below it. A new wrapper is not expanded in turn. -/
def expandNode : Node → Expanded Node
  | .text s => { result := .text s }
  | .element t children =>
    let r := expandTag v t
    let below := expandForest children
    ⟨r.node below.result, r.plan :: below.plans, r.effects ++ below.effects⟩

def expandForest : List Node → Expanded (List Node)
  | [] => { result := [] }
  | n :: ns =>
    let first := expandNode n
    let rest := expandForest ns
    ⟨first.result :: rest.result, first.plans ++ rest.plans, first.effects ++ rest.effects⟩

end

/-- Expands an element alone, and leaves its children as they are. -/
def expandRoot : Node → Expanded Node
  | .text s => { result := .text s }
  | .element t children =>
    let r := expandTag v t
    ⟨r.node children, [r.plan], r.effects⟩

def expandRoots (ns : List Node) : Expanded (List Node) :=
  let rs := ns.map (expandRoot v)
  ⟨rs.map Expanded.result, rs.flatMap Expanded.plans, rs.flatMap Expanded.effects⟩

end WidgetMarkup.Expansion
