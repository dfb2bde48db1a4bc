import WidgetMarkup.Expansion.Tree

namespace WidgetMarkup

namespace Node

mutual

def tags : Node → List Tag
  | text _ => []
  | element t children => t :: forestTags children

def forestTags : List Node → List Tag
  | [] => []
  | n :: ns => n.tags ++ forestTags ns

end

end Node

namespace Expansion

open Node

variable (v : Vocabulary)

/-- What stands in the place of an expanded element, the wrapper first. -/
def TagExpansion.tags (r : TagExpansion) : List Tag := r.wrapper.toList ++ [r.tag]

theorem tags_node (r : TagExpansion) (children : List Node) :
    (r.node children).tags = r.tags ++ forestTags children := by
  rw [TagExpansion.node, TagExpansion.tags]
  cases r.wrapper <;> simp [Node.tags, forestTags]

-- Each of the following is one induction over the tree with a statement for nodes and one for
-- lists of nodes. They reduce what a run does to what it does with single elements.
mutual

theorem plans_expandNode (n : Node) :
    (expandNode v n).plans = n.tags.map fun t => (expandTag v t).plan := by
  match n with
  | .text s => rfl
  | .element t children =>
      have below := plans_expandForest children
      simp only [expandNode, Node.tags, List.map_cons, below]

theorem plans_expandForest (ns : List Node) :
    (expandForest v ns).plans = (forestTags ns).map fun t => (expandTag v t).plan := by
  match ns with
  | [] => rfl
  | n :: ns =>
      have first := plans_expandNode n
      have rest := plans_expandForest ns
      simp only [expandForest, forestTags, List.map_append, first, rest]

end

mutual

theorem effects_expandNode (n : Node) :
    (expandNode v n).effects = n.tags.flatMap fun t => (expandTag v t).effects := by
  match n with
  | .text s => rfl
  | .element t children =>
      have below := effects_expandForest children
      simp only [expandNode, Node.tags, List.flatMap_cons, below]

theorem effects_expandForest (ns : List Node) :
    (expandForest v ns).effects = (forestTags ns).flatMap fun t => (expandTag v t).effects := by
  match ns with
  | [] => rfl
  | n :: ns =>
      have first := effects_expandNode n
      have rest := effects_expandForest ns
      simp only [expandForest, forestTags, List.flatMap_append, first, rest]

end

mutual

theorem tags_expandNode (n : Node) :
    (expandNode v n).result.tags = n.tags.flatMap fun t => (expandTag v t).tags := by
  match n with
  | .text s => rfl
  | .element t children =>
      have below := tags_expandForest children
      simp only [expandNode, tags_node, Node.tags, List.flatMap_cons, below]

theorem tags_expandForest (ns : List Node) :
    forestTags (expandForest v ns).result =
      (forestTags ns).flatMap fun t => (expandTag v t).tags := by
  match ns with
  | [] => rfl
  | n :: ns =>
      have first := tags_expandNode n
      have rest := tags_expandForest ns
      simp only [expandForest, forestTags, List.flatMap_append, first, rest]

end

mutual

theorem expandNode_eq_self (n : Node) (h : ∀ t ∈ n.tags, (expandTag v t).tags = [t]) :
    (expandNode v n).result = n := by
  match n with
  | .text s => rfl
  | .element t children =>
      rw [Node.tags, List.forall_mem_cons] at h
      have below := expandForest_eq_self children h.2
      obtain ⟨hw, ht⟩ : (expandTag v t).wrapper = none ∧ (expandTag v t).tag = t := by
        have ht := h.1
        rw [TagExpansion.tags] at ht
        cases hw : (expandTag v t).wrapper <;> simp_all
      simp only [expandNode, TagExpansion.node, hw, ht, below]

theorem expandForest_eq_self (ns : List Node)
    (h : ∀ t ∈ forestTags ns, (expandTag v t).tags = [t]) :
    (expandForest v ns).result = ns := by
  match ns with
  | [] => rfl
  | n :: ns =>
      rw [forestTags, List.forall_mem_append] at h
      have first := expandNode_eq_self n h.1
      have rest := expandForest_eq_self ns h.2
      simp only [expandForest, first, rest]

end

end Expansion
end WidgetMarkup
