import WidgetMarkup.Expansion.Tree
import WidgetMarkup.Log

namespace WidgetMarkup.Expansion

/-- What a walk through a template carries along, with the plans of the elements it has been to. -/
structure Walk where
  session : Session := {}
  log : List LogEntry := []
  plans : List Plan := []

def Walk.act (w : Walk) (e : Effect) : Walk :=
  { w with
    session := match e with
      | .problem d => { w.session with diagnostics := w.session.diagnostics ++ [d] }
      | .helper h => { w.session with registry := w.session.registry.add h }
      | .expanded _ _ _ => w.session
    log := w.log ++ (e.logEntry? w.session.registry).toList }

/-- An element on its way through the stages, and its plan as far as they have got. -/
structure Visit where
  element : Element
  plan : Plan := {}
  walk : Walk := {}

namespace Visit

variable (v : Vocabulary)

def acts (x : Visit) (es : List Effect) : Visit := { x with walk := es.foldl Walk.act x.walk }

def putTag (x : Visit) (t : Tag) : Visit := { x with element := { x.element with tag := t } }

/-- Takes the first property of a name off, and lists the name when there is one. -/
def takeProp (x : Visit) (n : Name) : Visit :=
  match x.element.tag.prop? n with
  | none => x
  | some _ =>
    { x.putTag (x.element.tag.withoutProp n) with
      plan := { x.plan with removed := x.plan.removed ++ [n] } }

def addCalls (x : Visit) (calls : Calls) : Visit :=
  let t := x.element.tag
  { x.putTag { t with pre := t.pre ++ [calls.before], post := t.post ++ [calls.after] } with
    plan := { x.plan with
      stages := { x.plan.stages with propertyArgs := true }
      pre := some calls.before
      post := some calls.after } }

def passArgs (x : Visit) : Visit :=
  let a := argsStage v x.element.tag
  let x := a.removed.foldl takeProp (x.acts (a.problems.map .problem))
  let x := { x with plan := { x.plan with bindings := a.bindings } }
  match a.calls with
  | none => x
  | some calls => (x.acts (v.helpers.map .helper)).addCalls calls

/-- The wrapper is not put around the element yet. -/
def passClass (x : Visit) : Visit × Option Element :=
  let c := classStage v x.element.tag
  let x := (x.putTag c.tag).acts (c.problems.map .problem)
  ({ x with
      plan := { x.plan with
        stages := { x.plan.stages with widgetClass := c.wrapper.isSome }
        removed := x.plan.removed ++ c.removed } },
    c.wrapper.map fun tag => { tag })

def passElId (x : Visit) : Visit :=
  let i := elIdStage v x.element.tag
  let x := (x.putTag i.tag).acts (i.problems.map .problem)
  { x with
    plan := { x.plan with
      stages := { x.plan.stages with elId := i.assigned }
      removed := x.plan.removed ++ i.removed } }

def passScope (x : Visit) : Visit :=
  let s := scopeStage v x.element.tag
  let x := x.putTag s.tag
  { x with plan := { x.plan with stages := { x.plan.stages with widgetScope := s.assigned } } }

def wrap (x : Visit) : Option Element → Visit
  | none => x
  | some wrapper =>
    { x with element := x.element.wrapIn wrapper, plan := { x.plan with wrapped := true } }

/-- The four stages. The last two look at the element itself, so its wrapper waits for them. -/
def passStages (e : Element) (w : Walk) : Visit × Option Element :=
  let (x, wrapper) := passClass v (passArgs v { element := e, walk := w })
  (passScope v (passElId v x), wrapper)

def announced (x : Visit) : Visit :=
  if x.plan.isEmpty then x
  else x.acts [.expanded x.element.tag.name x.plan.stages x.plan.removed.length]

def pass (e : Element) (w : Walk) : Visit :=
  let (x, wrapper) := passStages v e w
  (x.wrap wrapper).announced

def noted (x : Visit) : Walk := { x.walk with plans := x.walk.plans ++ [x.plan] }

/-- The stages leave alone what is below an element. -/
structure Keeps (x y : Visit) : Prop where
  children : y.element.children = x.element.children
  wrapped : y.plan.wrapped = x.plan.wrapped

theorem Keeps.trans {x y z : Visit} (hxy : Keeps x y) (hyz : Keeps y z) : Keeps x z :=
  ⟨hyz.children.trans hxy.children, hyz.wrapped.trans hxy.wrapped⟩

theorem keeps_takeProp (x : Visit) (n : Name) : Keeps x (x.takeProp n) := by
  rw [takeProp]
  split <;> exact ⟨rfl, rfl⟩

theorem keeps_takeProps (x : Visit) (ns : List Name) : Keeps x (ns.foldl takeProp x) := by
  induction ns generalizing x with
  | nil => exact ⟨rfl, rfl⟩
  | cons n ns ih => exact (keeps_takeProp x n).trans (ih (x.takeProp n))

theorem keeps_passArgs (x : Visit) : Keeps x (passArgs v x) := by
  have htaken := keeps_takeProps (x.acts ((argsStage v x.element.tag).problems.map .problem))
    (argsStage v x.element.tag).removed
  rw [passArgs]
  split <;> exact ⟨htaken.children, htaken.wrapped⟩

theorem keeps_passStages (e : Element) (w : Walk) :
    Keeps { element := e, walk := w } (passStages v e w).1 :=
  (keeps_passArgs v { element := e, walk := w }).trans ⟨rfl, rfl⟩

theorem keeps_announced (x : Visit) : Keeps x x.announced := by
  rw [announced]
  split <;> exact ⟨rfl, rfl⟩

variable {v} {e : Element} {w : Walk}

theorem getLast?_of_wrapped (h : (pass v e w).plan.wrapped = true) :
    ∃ t, (pass v e w).element.children.getLast? = some (.element t e.children) := by
  have hstages := keeps_passStages v e w
  rw [pass, (keeps_announced _).wrapped] at h
  rw [pass, (keeps_announced _).children]
  cases hwrapper : (passStages v e w).2 with
  | none =>
      rw [hwrapper, wrap, hstages.wrapped] at h
      cases h
  | some wrapper =>
      refine ⟨(passStages v e w).1.element.tag, ?_⟩
      rw [wrap, Element.wrapIn, Element.append, List.getLast?_concat, Element.node,
        hstages.children]

theorem children_of_not_wrapped (h : (pass v e w).plan.wrapped = false) :
    (pass v e w).element.children = e.children := by
  have hstages := keeps_passStages v e w
  rw [pass, (keeps_announced _).wrapped] at h
  rw [pass, (keeps_announced _).children]
  cases hwrapper : (passStages v e w).2 with
  | none => exact hstages.children
  | some wrapper =>
      rw [hwrapper] at h
      cases h

end Visit

variable (v : Vocabulary)

mutual

/-- Expands an element where it stands, and all below it. What was below it hangs on the last child
of its wrapper, if it has got one. -/
def walkElement (e : Element) (w : Walk) : Element × Walk :=
  let x := Visit.pass v e w
  let w := x.noted
  if _hw : x.plan.wrapped then
    match _hl : x.element.children.getLast? with
    | some (.element t children) =>
      let below := walkNodes children w
      ({ x.element with
          children := x.element.children.dropLast ++ [.element t below.1] }, below.2)
    | _ => (x.element, w)
  else
    let below := walkNodes x.element.children w
    ({ x.element with children := below.1 }, below.2)
termination_by sizeOf e.children + 1
decreasing_by
  · obtain ⟨t', hlast⟩ := Visit.getLast?_of_wrapped _hw
    cases _hl.symm.trans hlast
    exact Nat.lt_succ_self _
  · rw [Visit.children_of_not_wrapped (by simpa using _hw)]
    exact Nat.lt_succ_self _

def walkNodes : List Node → Walk → List Node × Walk
  | [], w => ([], w)
  | .text s :: ns, w =>
    let rest := walkNodes ns w
    (.text s :: rest.1, rest.2)
  | .element t children :: ns, w =>
    let first := walkElement ⟨t, children⟩ w
    let rest := walkNodes ns first.2
    (first.1.node :: rest.1, rest.2)
termination_by ns => sizeOf ns

end

end WidgetMarkup.Expansion
