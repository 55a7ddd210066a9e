import ConcreteSyntax.Proofs.Drain

/-!
Passes whose first step finds nothing.

Such a step has found no children, or it was one to a named child and has come to the end of children
that have no name. Either way no order of named children finds anything until the pass is reset. The
plain orders find nothing only if there are no children; otherwise they go on from the child that the
step has left the cursor on.
-/

namespace ConcreteSyntax

namespace PassPlace

variable {count : Nat} {named : Fin count → Bool} {place : PassPlace count}

/-- A place after a first step that has found nothing: on the parent for want of children, or on a
child although none is named. -/
def Spent (named : Fin count → Bool) : PassPlace count → Prop
  | fresh => False
  | dead => count = 0
  | child _ => ∀ index, named index = false

theorem spent_of_step_fresh {order : Traversal} {after : PassPlace count}
    (nothing : fresh.step named order = (none, after)) : after.Spent named := by
  rw [step_eq] at nothing
  split at nothing
  · simp at nothing
  next index landed =>
    obtain ⟨refused, _⟩ := Outcome.seek_eq_landed_iff.mp landed
    injection nothing with _ same
    subst same
    intro other
    have unnamed := refused other (mem_route other order.direction)
    rw [Bool.or_eq_false_iff] at unnamed
    exact unnamed.2
  next unmoved =>
    have empty := Outcome.seek_eq_unmoved_iff.mp unmoved
    injection nothing with _ same
    subst same
    have counted := length_ahead_fresh count order.direction
    rw [empty] at counted
    exact counted.symm

theorem Spent.step (spent : place.Spent named) (order : Traversal) :
    (place.step named order).2.Spent named := by
  cases place with
  | fresh => exact spent.elim
  | dead =>
      rw [step_of_ahead_nil rfl]
      exact spent
  | child index =>
      rw [step_eq]
      split
      · exact spent
      · exact spent
      · exact spent

theorem Spent.steps (spent : place.Spent named) (order : Traversal) (bound : Nat) :
    (place.steps named order bound).2.Spent named := by
  induction bound generalizing place with
  | zero => exact spent
  | succ bound ih =>
      have next := spent.step order
      rw [PassPlace.steps]
      split
      next after stopped =>
        rw [stopped] at next
        exact next
      next index after found =>
        rw [found] at next
        exact ih next

theorem Spent.performAll (spent : place.Spent named) {calls : List PassCall}
    (unreset : PassCall.reset ∉ calls) :
    (performAll (PassPlace.perform named) place calls).2.Spent named := by
  induction calls generalizing place with
  | nil => exact spent
  | cons call calls ih =>
      rw [List.mem_cons, not_or] at unreset
      refine ih ?_ unreset.2
      cases call with
      | advance order => exact spent.step order
      | steps order bound => exact spent.steps order bound
      | reset => exact absurd rfl unreset.1

theorem Spent.step_namedOnly (spent : place.Spent named) {order : Traversal}
    (namedOnly : order.namedOnly = true) : (place.step named order).1 = none := by
  cases place with
  | fresh => exact spent.elim
  | dead => rw [step_of_ahead_nil rfl]
  | child index =>
      have refused : ((child index).ahead order.direction).find?
          (fun index => !order.namedOnly || named index) = none := by
        rw [List.find?_eq_none]
        intro other _
        rw [namedOnly, spent other]
        decide
      rw [PassPlace.step, refused]

theorem step_plain (index : Fin count) (direction : Direction) :
    ((child index).step named ⟨direction, false⟩).1 = (routeFrom index direction).head? := by
  rw [step_eq]
  simp only [Bool.not_false, Bool.true_or, Outcome.seek_true, ahead]
  cases (routeFrom index direction).head? <;> rfl

end PassPlace

namespace Cursor

variable (parent : Cursor)

theorem next?_spent_child (index : Fin parent.focus.children.length) :
    (parent.iteratorAt (.child index)).next? .all = parent.node.childNodes[(index : Nat) + 1]? ∧
      (parent.iteratorAt (.child index)).next? .allReverse =
        (parent.node.childNodes.take index).getLast? := by
  rw [(parent.step_iteratorAt _ .all).2, (parent.step_iteratorAt _ .allReverse).2, Traversal.all,
    Traversal.allReverse, PassPlace.step_plain, PassPlace.step_plain, childNodes_node]
  constructor
  · rw [routeFrom, List.head?_drop, List.getElem?_map]
  · rw [routeFrom, List.head?_reverse, ← List.map_take, List.getLast?_map]

theorem advance_iterate_spent {first : Traversal} (nothing : parent.iterate.next? first = none) :
    (∃ place, parent.iterate.advance first = parent.iteratorAt place ∧
      place.Spent parent.isNamedChild) ∧ parent.node.childNodesIn first = [] := by
  obtain ⟨goes, finds⟩ := parent.step_iteratorAt .fresh first
  have stopped : (PassPlace.fresh.step parent.isNamedChild first).1 = none := by
    rw [← Option.map_eq_none_iff, ← finds]
    exact nothing
  have step : PassPlace.fresh.step parent.isNamedChild first =
      (none, (PassPlace.fresh.step parent.isNamedChild first).2) := Prod.ext stopped rfl
  refine ⟨⟨_, goes, PassPlace.spent_of_step_fresh step⟩, ?_⟩
  rw [← map_taken, (PassPlace.step_none step).1, List.map_nil]

theorem cursor_iteratorAt_child (index : Fin parent.focus.children.length) :
    parent.node.childNodes[(index : Nat)]? =
        some (parent.iteratorAt (.child index)).cursor.node ∧
      (parent.iteratorAt (.child index)).cursor.parent? = some parent := by
  constructor
  · change _ = some (parent.onChild index).node
    simp [childNodes_node]
  · exact parent.parent?_onChild index

theorem spent_finds {place : PassPlace parent.focus.children.length}
    (spent : place.Spent parent.isNamedChild) :
    let reached := parent.iteratorAt place
    let children := parent.node.childNodes
    (children = [] → ∀ order, reached.next? order = none ∧ reached.cursor = parent) ∧
      (children ≠ [] → (∀ child ∈ children, child.isNamed = false) ∧
        ∃ index, children[index]? = some reached.cursor.node ∧
          reached.cursor.parent? = some parent ∧
          reached.next? .all = children[index + 1]? ∧
          reached.next? .allReverse = (children.take index).getLast?) := by
  intro reached children
  have length : children.length = parent.focus.children.length := List.length_mapIdx
  cases place with
  | fresh => exact spent.elim
  | dead =>
      have childless : children = [] := List.length_eq_zero_iff.mp (length.trans spent)
      refine ⟨?_, fun filled => absurd childless filled⟩
      intro _ order
      rw [(parent.step_iteratorAt .dead order).2, PassPlace.step_of_ahead_nil rfl]
      exact ⟨rfl, rfl⟩
  | child index =>
      constructor
      · intro childless
        rw [childless, List.length_nil] at length
        exact absurd index.isLt (by omega)
      · intro _
        obtain ⟨here, up⟩ := parent.cursor_iteratorAt_child index
        refine ⟨?_, index, here, up, parent.next?_spent_child index⟩
        intro child member
        simp only [children, childNodes_node, List.mem_map] at member
        obtain ⟨other, _, rfl⟩ := member
        exact spent other

/-- If the first step of a pass finds nothing, no step to a named child finds anything before the next
reset. Without children, as always after a plain first step, the plain steps find nothing either, and
the cursor stays on the parent. With children, none of which is named then, the cursor is on one of
them, and a plain step finds its sibling as far as there is one. -/
theorem firstStep_finds_nothing (history later : List PassCall) (first : Traversal)
    (unreset : PassCall.reset ∉ later)
    (nothing : (performAll ChildIterator.perform parent.iterate history).2.reset.next? first = none) :
    let pass := (performAll ChildIterator.perform parent.iterate history).2.reset
    let reached := (performAll ChildIterator.perform (pass.advance first) later).2
    let children := parent.node.childNodes
    (∀ order : Traversal, order.namedOnly = true → reached.next? order = none) ∧
      (first.namedOnly = false → children = []) ∧
      (children = [] → ∀ order, reached.next? order = none ∧ reached.cursor = parent) ∧
      (children ≠ [] → (∀ child ∈ children, child.isNamed = false) ∧
        ∃ index, children[index]? = some reached.cursor.node ∧
          reached.cursor.parent? = some parent ∧
          reached.next? .all = children[index + 1]? ∧
          reached.next? .allReverse = (children.take index).getLast?) := by
  intro pass reached children
  have anew : pass = parent.iterate := parent.reset_performAll history
  rw [parent.reset_performAll history] at nothing
  obtain ⟨⟨start, begins, spentStart⟩, untaken⟩ := parent.advance_iterate_spent nothing
  obtain ⟨place, same, spent⟩ : ∃ place, reached = parent.iteratorAt place ∧
      place.Spent parent.isNamedChild := by
    refine ⟨_, ?_, spentStart.performAll unreset⟩
    simp only [reached, anew, begins, performAll_iteratorAt]
  rw [same]
  refine ⟨?_, ?_, parent.spent_finds spent⟩
  · intro order namedOnly
    rw [(parent.step_iteratorAt place order).2, spent.step_namedOnly namedOnly, Option.map_none]
  · intro plain
    simp only [Node.childNodesIn, plain, Bool.false_eq_true, if_false] at untaken
    split at untaken
    · exact untaken
    · exact List.reverse_eq_nil_iff.mp untaken

end Cursor

/-- The tree of the text `{ }`. -/
def emptyBlock : Node :=
  let opening : Label :=
    { kindId := 64, kind := "\x7b", grammarId := 64, grammarName := "\x7b", isNamed := false,
      isExtra := false, isError := false, isMissing := false, hasChanges := false,
      hasError := false, field := none, span := ⟨0, 1, ⟨0, 0⟩, ⟨0, 1⟩⟩, firstChar := some '\x7b' }
  let closing : Label :=
    { opening with
      kindId := 65, kind := "\x7d", grammarId := 65, grammarName := "\x7d",
      span := ⟨2, 3, ⟨0, 2⟩, ⟨0, 3⟩⟩, firstChar := some '\x7d' }
  let block : Label :=
    { opening with
      kindId := 241, kind := "compound_statement", grammarId := 241,
      grammarName := "compound_statement", isNamed := true, span := ⟨0, 3, ⟨0, 0⟩, ⟨0, 3⟩⟩ }
  SyntaxTree.rootNode ⟨0, .node block [.node opening [], .node closing []]⟩

theorem emptyBlock_firstStep :
    PassCall.reset ∉ [PassCall.advance .allReverse] ∧
      emptyBlock.walk.iterate.reset.next? .named = none ∧
      ((emptyBlock.walk.iterate.reset.advance .named).advance .allReverse).next? .named = none := by
  have unreset : PassCall.reset ∉ [PassCall.advance .allReverse] := by simp
  have nothing : emptyBlock.walk.iterate.reset.next? .named = none := rfl
  obtain ⟨stays, _⟩ := emptyBlock.walk.firstStep_finds_nothing [] [.advance .allReverse] .named
    unreset nothing
  exact ⟨unreset, nothing, stays .named rfl⟩

/-- The first step to a named child finds nothing, and still the step backward after it finds the
opening brace. -/
theorem emptyBlock_goesOn :
    emptyBlock.walk.iterate.next? .named = none ∧
      ∃ brace, (emptyBlock.walk.iterate.advance .named).next? .allReverse = some brace ∧
        brace.label.kind = "\x7b" :=
  ⟨rfl, _, rfl, rfl⟩

end ConcreteSyntax
