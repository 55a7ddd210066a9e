import ConcreteSyntax.Proofs.Confinement

/-!
The counts of cursors and the pre-order of the nodes below their roots.

A cursor knows the count of its node just if no step backward is on its way, and then a jump leads
to the node that it names. A step backward leaves a count that is too low.
-/

namespace ConcreteSyntax

/-- The cursor stands on the node that comes at `index` in the pre-order below the root, holds that
count, and goes up through the ancestors of the node to the root. -/
structure StandsAt (root : Node) (index : Nat) (cursor : CountingCursor) : Prop where
  listed : root.subtree.addresses[index]? = some cursor.place.steps
  node : root.nodeAt? cursor.place.steps = some cursor.place.node
  count : cursor.count = index
  depth : cursor.place.depth = cursor.place.steps.length
  above : ∀ levels, root.nodeAt? (cursor.place.steps.take (cursor.place.depth - levels)) =
    some (cursor.place.climb levels).node
  top : cursor.place.top = root.walk

namespace Kept

variable {lost : LostCount} {root : Node} {marks : List Bool} {cursor : CountingCursor}

theorem indexAt_onChild {parent : CountingCursor} (above : Kept lost root marks parent)
    (index : Fin parent.place.focus.children.length) :
    root.subtree.indexAt (parent.place.onChild index).steps =
      root.subtree.indexAt parent.place.steps + 1 +
        Tree.forestSize (parent.place.focus.children.take index) := by
  rw [Cursor.steps_onChild, Tree.indexAt_append [(index : Nat)] above.subtreeAt?,
    Tree.indexAt, List.getElem?_eq_getElem index.isLt]
  simp only [Tree.indexAt, Option.map_some, Option.getD_some]
  omega

theorem count_eq (kept : Kept lost root marks cursor) (unmarked : true ∉ marks) :
    cursor.count = root.subtree.indexAt cursor.place.steps := by
  induction kept with
  | root => rfl
  | @child marks parent above index mark count counted ih =>
      cases mark with
      | false =>
          have here : count = parent.count + 1 + _ := counted
          rw [above.indexAt_onChild index, ← ih fun marked => unmarked (.tail _ marked), ← here]
          rfl
      | true => exact absurd List.mem_cons_self unmarked

theorem count_lt (kept : Kept .byMoves root marks cursor) (marked : true ∈ marks) :
    cursor.count < root.subtree.indexAt cursor.place.steps := by
  -- Below a marked level the counts go on from the one that is too low there.
  induction kept with
  | root => contradiction
  | @child marks parent above index mark count counted ih =>
      rw [above.indexAt_onChild index]
      change count < _
      cases mark with
      | false =>
          have higher := ih (by simpa using marked)
          rw [CountKept] at counted
          omega
      | true =>
          have low := counted rfl
          omega

theorem standsAt (kept : Kept lost root marks cursor) (unmarked : true ∉ marks) :
    StandsAt root cursor.count cursor := by
  refine ⟨?_, kept.nodeAt?, rfl, (Cursor.length_steps _).symm, fun levels => ?_, kept.top⟩
  · rw [kept.count_eq unmarked]
    exact Tree.getElem?_addresses_indexAt kept.subtreeAt?
  · rw [← Cursor.steps_climb]
    exact (kept.climb levels).nodeAt?

end Kept

namespace CountingCursor

theorem holds_iff {cursor : CountingCursor} {index : Nat} :
    cursor.holds index = true ↔
      cursor.count ≤ index ∧ index < cursor.count + cursor.place.focus.size :=
  decide_eq_true_iff

theorem exists_follow? {cursor : CountingCursor} {path : List Nat} {subtree : Tree}
    (leads : cursor.place.focus.subtreeAt? path = some subtree) :
    ∃ after, cursor.follow? path = some after := by
  induction path generalizing cursor with
  | nil => exact ⟨cursor, rfl⟩
  | cons index path ih =>
      obtain ⟨child, found, below⟩ := Tree.subtreeAt?_cons.mp leads
      obtain ⟨bound, rfl⟩ := List.getElem?_eq_some_iff.mp found
      have entered : cursor.childAt? index =
          some (cursor.inside .forward (cursor.place.onChild ⟨index, bound⟩)) := by
        rw [childAt?, Cursor.childAt?_eq_some.mpr ⟨bound, rfl⟩]
        rfl
      rw [follow?, entered]
      exact ih below

theorem descendant_eq {cursor after : CountingCursor} {index : Nat} {path : List Nat}
    (listed : (cursor.turn index).place.focus.addresses[wrap index - (cursor.turn index).count]? =
      some path)
    (followed : (cursor.turn index).follow? path = some after) :
    cursor.descendant index = after := by
  rw [← Tree.pathAt?_eq] at listed
  simp only [descendant, listed, Option.bind_some, followed, Option.getD_some]

theorem descendant_count {cursor : CountingCursor} (counted : wrap cursor.count = cursor.count) :
    cursor.descendant cursor.count = cursor := by
  have here : cursor.holds cursor.count = true :=
    holds_iff.mpr ⟨Nat.le_refl _, Nat.lt_add_of_pos_right (Tree.size_pos _)⟩
  have stays : cursor.turn cursor.count = cursor := by
    rw [turn, counted]
    cases cursor.place.depth with
    | zero => rfl
    | succ levels => rw [ascend, if_pos here]
  have top (tree : Tree) : tree.addresses[0]? = some [] := by
    cases tree
    rfl
  apply descendant_eq
  · rw [stays, counted, Nat.sub_self]
    exact top _
  · rw [stays]
    rfl

end CountingCursor

namespace Kept

variable {lost : LostCount} {root : Node} {marks : List Bool} {cursor : CountingCursor}

theorem holds_ascend (kept : Kept lost root marks cursor) (unmarked : true ∉ marks) {index : Nat}
    (bound : index < root.subtree.size) :
    (cursor.ascend index cursor.place.depth).holds index = true := by
  induction kept with
  | root => exact CountingCursor.holds_iff.mpr ⟨Nat.zero_le index, by rwa [Nat.add_comm]⟩
  | @child marks parent above position mark count counted ih =>
      rw [Cursor.depth_onChild, CountingCursor.ascend]
      split
      next here => exact here
      · simp only [CountingCursor.parent?, Cursor.parent?_onChild, Option.map_some, List.tail_cons]
        exact ih fun marked => unmarked (List.mem_cons_of_mem mark marked)

theorem exists_standsAt (kept : Kept lost root marks cursor) (unmarked : true ∉ marks) {inner : Nat}
    {path : List Nat} (listed : cursor.place.focus.addresses[inner]? = some path) :
    ∃ after, cursor.follow? path = some after ∧ StandsAt root (cursor.count + inner) after := by
  obtain ⟨⟨subtree, leads⟩, _⟩ := Tree.of_getElem?_addresses listed
  obtain ⟨after, followed⟩ := CountingCursor.exists_follow? leads
  obtain ⟨keptAfter, steps⟩ := kept.follow? followed
  have unmarkedAfter : true ∉ List.replicate path.length false ++ marks := by simpa using unmarked
  have place := Tree.getElem?_addresses_append kept.subtreeAt? listed
  rw [← steps, ← kept.count_eq unmarked] at place
  have count : after.count = cursor.count + inner := by
    rw [keptAfter.count_eq unmarkedAfter, (Tree.of_getElem?_addresses place).2]
  refine ⟨after, followed, ?_⟩
  rw [← count]
  exact keptAfter.standsAt unmarkedAfter

theorem standsAt_descendant (kept : Kept lost root marks cursor) (unmarked : true ∉ marks)
    {index : Nat} (bound : wrap index < root.subtree.size) :
    StandsAt root (wrap index) (cursor.descendant index) := by
  obtain ⟨passed, _, keptTurn⟩ := kept.turn index
  have unmarkedTurn : true ∉ marks.drop passed := fun marked =>
    unmarked (List.mem_of_mem_drop marked)
  have held : (cursor.turn index).holds (wrap index) = true := kept.holds_ascend unmarked bound
  obtain ⟨lower, upper⟩ := CountingCursor.holds_iff.mp held
  have inside : wrap index - (cursor.turn index).count <
      (cursor.turn index).place.focus.addresses.length := by
    rw [Tree.length_addresses]
    omega
  have listed := List.getElem?_eq_getElem inside
  obtain ⟨after, followed, stands⟩ := keptTurn.exists_standsAt unmarkedTurn listed
  rw [Nat.add_sub_of_le lower] at stands
  rwa [CountingCursor.descendant_eq listed followed]

end Kept

/-- With no step backward on its way a cursor knows where it stands, and every jump leads to the
node that it names, whatever numbers steps backward leave. With one it does not, by the number that
the moves leave. A jump to the count that it holds leaves it where it is. -/
theorem Reached.standsAt_iff {lost : LostCount} {root : Node} {marks : List Bool}
    {cursor : CountingCursor} (reached : Reached lost root marks cursor) :
    (true ∉ marks → StandsAt root cursor.count cursor ∧
        ∀ index, wrap index < root.subtree.size →
          StandsAt root (wrap index) (cursor.descendant index)) ∧
      (lost = .byMoves → (StandsAt root cursor.count cursor ↔ true ∉ marks)) ∧
      (wrap cursor.count = cursor.count → cursor.descendant cursor.count = cursor) := by
  have kept := reached.kept
  refine ⟨fun unmarked => ⟨kept.standsAt unmarked, fun _ bound => ?_⟩, ?_,
    CountingCursor.descendant_count⟩
  · exact kept.standsAt_descendant unmarked bound
  · rintro rfl
    refine ⟨fun stands marked => ?_, kept.standsAt⟩
    have place := (Tree.of_getElem?_addresses stands.listed).2
    exact Nat.ne_of_lt (kept.count_lt marked) place.symm

theorem lastOperand_standsAt :
    let last := (comparison.walkCounting.perform (.enter .allReverse)).place comparison.walkCounting
    Reached .byMoves comparison [false] last ∧ StandsAt comparison 3 last ∧
      ∀ index, wrap index < 4 → StandsAt comparison (wrap index) (last.descendant index) := by
  intro last
  have reached : Reached .byMoves comparison [false] last :=
    .call (.enter .allReverse) (.walk comparison)
  have unmarked : true ∉ [false] := by decide
  obtain ⟨stands, exactly, _⟩ := Reached.standsAt_iff reached
  exact ⟨reached, (exactly rfl).mpr unmarked, (stands unmarked).2⟩

/-- A step back from the last operand comes to the operator, which has the count two. The cursor
holds the count zero there, and takes the operator for the whole comparison when it is to go to
that. -/
theorem stepBack_losesCount :
    let last := (comparison.walkCounting.perform (.enter .allReverse)).place comparison.walkCounting
    let back := (last.perform (.proceed .allReverse)).place last
    Reached .byMoves comparison [true] back ∧
      comparison.subtree.addresses[2]? = some back.place.steps ∧ back.count = 0 ∧
      comparison.subtree.addresses[0]? = some [] ∧ (back.descendant 0).place.steps = [1] :=
  ⟨.call (.proceed .allReverse) (.call (.enter .allReverse) (.walk comparison)),
    rfl, rfl, rfl, rfl⟩

end ConcreteSyntax
