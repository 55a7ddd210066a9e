import ConcreteSyntax.ChildIterator
import ConcreteSyntax.Proofs.Search

/-!
Cursors on the children of a node: where they stand, and how the moves between them go by the
numbers of the children.
-/

namespace ConcreteSyntax

theorem Node.map_subtree_childNodes (node : Node) :
    node.childNodes.map (·.subtree) = node.subtree.children := by
  apply List.ext_getElem
  · simp [childNodes]
  · simp [childNodes, below]

namespace Cursor

variable (parent : Cursor)

def onChild (index : Fin parent.focus.children.length) : Cursor :=
  parent.inside (Row.ofIndex parent.focus.children index)

def childNode (index : Fin parent.focus.children.length) : Node :=
  parent.node.below index parent.focus.children[index]

theorem childNodes_node :
    parent.node.childNodes = (List.finRange parent.focus.children.length).map parent.childNode := by
  apply List.ext_getElem
  · simp [Node.childNodes, node]
  · intro index _ _
    simp [Node.childNodes, childNode, node]

@[simp] theorem steps_onChild (index : Fin parent.focus.children.length) :
    (parent.onChild index).steps = parent.steps ++ [(index : Nat)] := by
  have place := Row.index_ofIndex parent.focus.children index
  rw [Row.index] at place
  simp only [onChild, inside, steps, List.map_cons, place, List.reverse_cons]

@[simp] theorem node_onChild (index : Fin parent.focus.children.length) :
    (parent.onChild index).node = parent.childNode index := by
  rw [node, steps_onChild, ← List.append_assoc]
  rfl

@[simp] theorem depth_onChild (index : Fin parent.focus.children.length) :
    (parent.onChild index).depth = parent.depth + 1 := rfl

theorem close_ofIndex (index : Fin parent.focus.children.length) :
    Frame.close
      ⟨parent.focus.label, (Row.ofIndex parent.focus.children index).before,
        (Row.ofIndex parent.focus.children index).after⟩
      (Row.ofIndex parent.focus.children index).here = parent.focus := by
  have whole := Row.trees_ofIndex parent.focus.children index
  simp only [Row.trees] at whole
  simp only [Frame.close, whole]
  cases parent.focus
  rfl

@[simp] theorem parent?_onChild (index : Fin parent.focus.children.length) :
    (parent.onChild index).parent? = some parent := by
  simp only [onChild, inside, parent?, close_ofIndex]

@[simp] theorem top_onChild (index : Fin parent.focus.children.length) :
    (parent.onChild index).top = parent.top := by
  simp only [onChild, inside, top, List.foldl_cons, close_ofIndex]

theorem child?_eq (direction : Direction) :
    parent.child? direction =
      ((route parent.focus.children.length direction).map parent.onChild).head? := by
  rw [child?, Row.start?_eq, ← List.head?_map, List.map_map]
  rfl

theorem namedChild_eq (direction : Direction) :
    parent.namedChild direction =
      (Outcome.seek (fun index => (parent.childNode index).isNamed)
        (route parent.focus.children.length direction)).map parent.onChild := by
  rw [namedChild, Row.startNamed_eq, Outcome.seek_map, Outcome.map_map]
  rfl

theorem childAt?_eq_some {cursor child : Cursor} {index : Nat} :
    cursor.childAt? index = some child ↔
      ∃ bound : index < cursor.focus.children.length, child = cursor.onChild ⟨index, bound⟩ := by
  rw [childAt?, Row.ofIndex?]
  by_cases bound : index < cursor.focus.children.length
  · simp only [bound, List.getElem?_eq_getElem, Option.map_some, Option.some_inj, exists_true_left]
    exact eq_comm
  · simp [bound]

theorem childAt?_eq_none {cursor : Cursor} {index : Nat} :
    cursor.childAt? index = none ↔ cursor.focus.children.length ≤ index := by
  simp [childAt?, Row.ofIndex?]

theorem child?_forward (cursor : Cursor) : cursor.child? .forward = cursor.childAt? 0 := by
  rw [child?, childAt?, Row.start?.eq_def, Row.ofIndex?]
  cases cursor.focus.children <;> rfl

theorem row?_onChild (index : Fin parent.focus.children.length) :
    (parent.onChild index).row? = some (Row.ofIndex parent.focus.children index) := rfl

theorem sibling?_onChild (index : Fin parent.focus.children.length) (direction : Direction) :
    (parent.onChild index).sibling? direction =
      ((routeFrom index direction).map parent.onChild).head? := by
  rw [sibling?, row?_onChild, Option.bind_some, Row.step?_ofIndex, ← List.head?_map, List.map_map]
  rfl

theorem sibling?_forward_onChild (index : Fin parent.focus.children.length) :
    (parent.onChild index).sibling? .forward = parent.childAt? (index + 1) := by
  rw [sibling?_onChild, routeFrom, List.head?_map, List.head?_drop]
  by_cases bound : (index : Nat) + 1 < parent.focus.children.length
  · rw [childAt?_eq_some.mpr ⟨bound, rfl⟩]
    simp [bound]
  · rw [childAt?_eq_none.mpr (Nat.le_of_not_lt bound)]
    simp [bound]

theorem namedSibling_onChild (index : Fin parent.focus.children.length) (direction : Direction) :
    (parent.onChild index).namedSibling direction =
      (Outcome.seek (fun index => (parent.childNode index).isNamed)
        (routeFrom index direction)).map parent.onChild := by
  simp only [namedSibling, row?_onChild]
  rw [Row.seekNamed_ofIndex, Outcome.seek_map, Outcome.map_map]
  rfl

theorem exists_onChild {cursor : Cursor} (below : 0 < cursor.depth) :
    ∃ (parent : Cursor) (index : Fin parent.focus.children.length),
      cursor = parent.onChild index := by
  obtain ⟨tree, base, trail, focus⟩ := cursor
  cases trail with
  | nil => simp [depth] at below
  | cons frame above =>
      have bound : frame.before.length <
          (frame.before.reverse ++ focus :: frame.after).length := by
        simp
      refine ⟨⟨tree, base, above, frame.close focus⟩, ⟨frame.before.length, bound⟩, ?_⟩
      have row : (⟨frame.before, focus, frame.after⟩ : Row) =
          Row.ofIndex (frame.close focus).children ⟨frame.before.length, bound⟩ :=
        Row.eq_ofIndex rfl rfl
      rw [onChild, ← row]
      rfl

theorem parent?_of_depth_zero {cursor : Cursor} (top : cursor.depth = 0) :
    cursor.parent? = none := by
  rw [parent?, List.length_eq_zero_iff.mp top]

theorem sibling?_of_depth_zero {cursor : Cursor} (top : cursor.depth = 0)
    (direction : Direction) : cursor.sibling? direction = none := by
  rw [sibling?, row?, List.length_eq_zero_iff.mp top]
  rfl

theorem namedSibling_of_depth_zero {cursor : Cursor} (top : cursor.depth = 0)
    (direction : Direction) : cursor.namedSibling direction = .unmoved := by
  rw [namedSibling, row?, List.length_eq_zero_iff.mp top]

theorem length_steps (cursor : Cursor) : cursor.steps.length = cursor.depth := by
  simp [steps, depth]

theorem climb_depth (cursor : Cursor) : cursor.climb cursor.depth = cursor.top := by
  induction height : cursor.depth generalizing cursor with
  | zero =>
      obtain ⟨tree, base, trail, focus⟩ := cursor
      have top : trail = [] := List.length_eq_zero_iff.mp height
      subst top
      rfl
  | succ depth ih =>
      obtain ⟨parent, index, rfl⟩ := exists_onChild (by omega : 0 < cursor.depth)
      rw [climb, parent?_onChild, top_onChild]
      exact ih parent (by simpa using height)

theorem steps_climb (cursor : Cursor) (levels : Nat) :
    (cursor.climb levels).steps = cursor.steps.take (cursor.depth - levels) := by
  induction levels generalizing cursor with
  | zero => simp [climb, ← length_steps]
  | succ levels ih =>
      rcases Nat.eq_zero_or_pos cursor.depth with top | below
      · have nothing : cursor.steps = [] := by
          rwa [← List.length_eq_zero_iff, length_steps]
        rw [climb, parent?_of_depth_zero top, nothing, List.take_nil]
      · obtain ⟨parent, index, rfl⟩ := exists_onChild below
        rw [climb, parent?_onChild, ih, steps_onChild, depth_onChild, Nat.add_sub_add_right,
          List.take_append_of_le_length]
        rw [length_steps]
        omega

end Cursor

end ConcreteSyntax
