import ConcreteSyntax.Proofs.Pass

/-!
Complete passes over the children of a node, from a fresh start to the step that finds nothing.

On the machine, a step that finds something leaves less ahead, so the steps of one order come to
a place where that order finds nothing more. The items found on the way are those the order takes
of everything that was ahead.
-/

namespace ConcreteSyntax

namespace PassPlace

variable {count : Nat} {place : PassPlace count} {direction : Direction}

theorem ahead_child_of_split {index : Fin count} {passed rest : List (Fin count)}
    (split : place.ahead direction = passed ++ index :: rest) :
    (child index).ahead direction = rest := by
  cases place with
  | fresh => exact routeFrom_of_split split
  | dead => simp [ahead] at split
  | child start => exact routeFrom_of_routeFrom_split split

def taken (named : Fin count → Bool) (order : Traversal) (place : PassPlace count) :
    List (Fin count) :=
  (place.ahead order.direction).filter fun index => !order.namedOnly || named index

theorem length_ahead_fresh (count : Nat) (direction : Direction) :
    (ahead (fresh : PassPlace count) direction).length = count := by
  cases direction <;> simp [ahead, route]

theorem length_taken_le (named : Fin count → Bool) (order : Traversal) :
    (fresh.taken named order).length ≤ count := by
  have fewer := List.length_filter_le (fun index => !order.namedOnly || named index)
    (fresh.ahead order.direction)
  rwa [length_ahead_fresh] at fewer

variable {named : Fin count → Bool} {order : Traversal}

theorem step_of_ahead_nil (nothing : place.ahead order.direction = []) :
    place.step named order = (none, place.settled) := by
  rw [step_eq, Outcome.seek_eq_unmoved_iff.mpr nothing]

theorem step_none {after : PassPlace count} (stopped : place.step named order = (none, after)) :
    place.taken named order = [] ∧ after.step named order = (none, after) := by
  rw [step_eq] at stopped
  split at stopped
  · simp at stopped
  next index landing =>
    obtain ⟨refused, passed, split⟩ := Outcome.seek_eq_landed_iff.mp landing
    injection stopped with _ same
    subst same
    refine ⟨?_, step_of_ahead_nil (ahead_child_of_split split)⟩
    simpa [taken, List.filter_eq_nil_iff] using refused
  next unmoved =>
    have nothing := Outcome.seek_eq_unmoved_iff.mp unmoved
    injection stopped with _ same
    subst same
    refine ⟨by simp [taken, nothing], ?_⟩
    cases place with
    | fresh => exact step_of_ahead_nil rfl
    | dead => exact step_of_ahead_nil rfl
    | child index => exact step_of_ahead_nil nothing

theorem step_some {index : Fin count} {after : PassPlace count}
    (found : place.step named order = (some index, after)) :
    place.taken named order = index :: after.taken named order ∧
      (after.ahead order.direction).length < (place.ahead order.direction).length := by
  rw [step_eq] at found
  split at found
  next first sought =>
    obtain ⟨accepted, passed, rest, split, refused⟩ := Outcome.seek_eq_found_iff.mp sought
    injection found with item same
    injection item with item
    subst item same
    have nothing : passed.filter (fun index => !order.namedOnly || named index) = [] := by
      simpa [List.filter_eq_nil_iff] using refused
    rw [taken, taken, ahead_child_of_split split, split, List.filter_append, nothing,
      List.filter_cons, if_pos accepted]
    refine ⟨rfl, ?_⟩
    rw [List.length_append, List.length_cons]
    omega
  · simp at found
  · simp at found

theorem steps_drain (named : Fin count → Bool) (order : Traversal) (place : PassPlace count) :
    ∃ last, last.step named order = (none, last) ∧
      ∀ bound, (place.ahead order.direction).length < bound →
        place.steps named order bound = (place.taken named order, last) := by
  induction size : (place.ahead order.direction).length using Nat.strongRecOn
    generalizing place with
  | ind length ih =>
      cases stepped : place.step named order with
      | mk item after =>
          cases item with
          | none =>
              obtain ⟨nothing, stays⟩ := step_none stepped
              refine ⟨after, stays, ?_⟩
              intro bound enough
              obtain ⟨bound, rfl⟩ := Nat.exists_eq_add_of_lt enough
              rw [steps, stepped, nothing]
          | some index =>
              obtain ⟨first, shorter⟩ := step_some stepped
              obtain ⟨last, stays, drains⟩ := ih _ (by omega) after rfl
              refine ⟨last, stays, ?_⟩
              intro bound enough
              cases bound with
              | zero => omega
              | succ bound =>
                  rw [steps, stepped, first]
                  simp only [drains bound (by omega)]

end PassPlace

def Node.childNodesIn (node : Node) (order : Traversal) : List Node :=
  let children :=
    if order.namedOnly then node.childNodes.filter (·.isNamed) else node.childNodes
  match order.direction with
  | .forward => children
  | .backward => children.reverse

theorem Node.length_namedChildNodes (node : Node) :
    (node.childNodes.filter (·.isNamed)).length = node.namedChildCount := by
  rw [Node.namedChildCount, ← node.map_subtree_childNodes, List.countP_map,
    ← List.countP_eq_length_filter]
  rfl

namespace ChildIterator

theorem run_eq_of_ended (iterator : ChildIterator) (order : Traversal) {bound more : Nat}
    (ended : (iterator.run order bound).stops.length < bound) (larger : bound ≤ more) :
    iterator.run order more = iterator.run order bound := by
  induction bound generalizing iterator more with
  | zero => simp at ended
  | succ bound ih =>
      cases more with
      | zero => omega
      | succ more =>
          rw [run] at ended
          rw [run, run]
          by_cases finds : iterator.finds order
          · simp only [finds, ↓reduceIte, List.length_cons] at ended ⊢
            rw [ih (iterator.advance order) (by omega) (by omega)]
          · simp only [finds, Bool.false_eq_true, ↓reduceIte]

end ChildIterator

namespace Cursor

variable (parent : Cursor)

theorem run_iterate (order : Traversal) :
    ∃ last : ChildIterator, last.next? order = none ∧ last.advance order = last ∧
      ∀ bound, parent.focus.children.length < bound →
        (parent.iterate.run order bound).last = last ∧
          (parent.iterate.run order bound).stops =
            (PassPlace.fresh.taken parent.isNamedChild order).map parent.onChild := by
  obtain ⟨place, stays, drains⟩ := PassPlace.steps_drain parent.isNamedChild order .fresh
  obtain ⟨goes, finds⟩ := parent.step_iteratorAt place order
  rw [stays] at goes finds
  refine ⟨parent.iteratorAt place, finds, goes, ?_⟩
  intro bound enough
  obtain ⟨stops, last⟩ := parent.run_iteratorAt .fresh order bound
  have room : (PassPlace.fresh.ahead order.direction :
      List (Fin parent.focus.children.length)).length < bound := by
    rwa [PassPlace.length_ahead_fresh]
  rw [drains bound room] at stops last
  exact ⟨last, stops⟩

theorem reset_performAll (calls : List PassCall) :
    (performAll ChildIterator.perform parent.iterate calls).2.reset = parent.iterate := by
  rw [show parent.iterate = parent.iteratorAt .fresh from rfl, performAll_iteratorAt,
    reset_iteratorAt]

theorem room_iterate : parent.focus.children.length < parent.iterate.room := by
  simp only [ChildIterator.room, iterate]
  omega

theorem map_taken (order : Traversal) :
    (PassPlace.fresh.taken parent.isNamedChild order).map parent.childNode =
      parent.node.childNodesIn order := by
  have chosen (places : List (Fin parent.focus.children.length)) :
      (places.filter fun index => !order.namedOnly || parent.isNamedChild index).map
          parent.childNode =
        if order.namedOnly then (places.map parent.childNode).filter (·.isNamed)
        else places.map parent.childNode := by
    cases order.namedOnly with
    | true => simp [List.filter_map, Function.comp_def, isNamedChild]
    | false =>
        rw [List.filter_eq_self.mpr (by simp)]
        rfl
  rw [PassPlace.taken, PassPlace.ahead, chosen, Node.childNodesIn, childNodes_node]
  cases order.direction with
  | forward => rfl
  | backward =>
      rw [route, List.map_reverse, List.filter_reverse]
      split <;> rfl

theorem stops_drain (order : Traversal) :
    (parent.iterate.drain order).stops =
      (PassPlace.fresh.taken parent.isNamedChild order).map parent.onChild := by
  obtain ⟨last, _, _, drains⟩ := parent.run_iterate order
  exact (drains _ parent.room_iterate).2

theorem items_drain (order : Traversal) :
    (parent.iterate.drain order).items = parent.node.childNodesIn order := by
  rw [ChildIterator.Run.items, stops_drain, List.map_map, ← map_taken]
  exact List.map_congr_left fun index _ => parent.node_onChild index

theorem run_eq_drain (order : Traversal) {bound : Nat} (enough : parent.iterate.room ≤ bound) :
    parent.iterate.run order bound = parent.iterate.drain order := by
  obtain ⟨last, _, _, drains⟩ := parent.run_iterate order
  refine ChildIterator.run_eq_of_ended _ _ ?_ enough
  have stops := congrArg List.length (drains _ parent.room_iterate).2
  have fewer := PassPlace.length_taken_le parent.isNamedChild order
  have room := parent.room_iterate
  rw [List.length_map] at stops
  omega

/-- Whatever has been done with an iterator, a reset takes it back to the parent, as new. From
there a pass in any order ends, and finds just the children that the order takes: those that the
lookups by number give, or the named ones among them, from first to last or from last to first.
After that the order finds nothing more, and its steps stay where the pass has ended. -/
theorem drain_reset (calls : List PassCall) :
    let pass := (performAll ChildIterator.perform parent.iterate calls).2.reset
    let items (order : Traversal) := (pass.drain order).items
    pass.cursor = parent ∧ pass = parent.iterate ∧
      (∀ index,
        parent.node.child? index = (items .all)[wrap index]? ∧
          parent.node.namedChild? index = (items .named)[wrap index]?) ∧
      (items .all).length = parent.node.childCount ∧
      (items .named).length = parent.node.namedChildCount ∧
      items .allReverse = (items .all).reverse ∧
      items .named = (items .all).filter (·.isNamed) ∧
      items .namedReverse = (items .named).reverse ∧
      parent.node.children = items .all ∧
      parent.node.namedChildren = items .named ∧
      ∀ order,
        (∀ bound, pass.room ≤ bound → pass.run order bound = pass.drain order) ∧
          (pass.drain order).last.next? order = none ∧
          (pass.drain order).last.advance order = (pass.drain order).last := by
  intro pass items
  have anew : pass = parent.iterate := parent.reset_performAll calls
  have found (order : Traversal) : items order = (parent.iterate.drain order).items := by
    simp only [items, anew]
  have all : items .all = parent.node.childNodes := (found .all).trans (parent.items_drain .all)
  have named : items .named = parent.node.childNodes.filter (·.isNamed) :=
    (found .named).trans (parent.items_drain .named)
  have allBack : items .allReverse = parent.node.childNodes.reverse :=
    (found .allReverse).trans (parent.items_drain .allReverse)
  have namedBack : items .namedReverse = (parent.node.childNodes.filter (·.isNamed)).reverse :=
    (found .namedReverse).trans (parent.items_drain .namedReverse)
  refine ⟨by rw [anew]; rfl, anew, ?_, ?_, ?_, ?_, ?_, ?_, ?_, ?_, ?_⟩
  · intro index
    rw [all, named]
    exact ⟨parent.node.child?_eq_getElem? index, rfl⟩
  · rw [all, Node.childNodes, List.length_mapIdx, Node.childCount]
  · rw [named, Node.length_namedChildNodes]
  · rw [all, allBack]
  · rw [all, named]
  · rw [named, namedBack]
  · rw [all]
    exact (parent.node.walk.items_drain .all).trans (congrArg Node.childNodes (node_walk _))
  · rw [named]
    refine (parent.node.walk.items_drain .named).trans ?_
    rw [node_walk]
    rfl
  · intro order
    obtain ⟨last, finds, stays, drains⟩ := parent.run_iterate order
    obtain ⟨ends, _⟩ := drains _ parent.room_iterate
    rw [anew, ChildIterator.drain, ends]
    exact ⟨fun bound enough => parent.run_eq_drain order enough, finds, stays⟩

end Cursor

end ConcreteSyntax
