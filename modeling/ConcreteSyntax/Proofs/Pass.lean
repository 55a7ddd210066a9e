import ConcreteSyntax.Proofs.Children

/-!
A pass over the children of a node as a machine on their numbers.

The iterator is in step with the machine through every sequence of calls: it finds the children
that the machine finds, and its cursor stands where the machine does.
-/

namespace ConcreteSyntax

/-- Where a pass over `count` children is: before its first step, on the parent for good because
there was nothing to enter, or on a child. -/
inductive PassPlace (count : Nat) where
  | fresh
  | dead
  | child (index : Fin count)
deriving DecidableEq

namespace PassPlace

variable {count : Nat}

def ahead : PassPlace count → Direction → List (Fin count)
  | fresh, direction => route count direction
  | dead, _ => []
  | child index, direction => routeFrom index direction

def settled : PassPlace count → PassPlace count
  | fresh => dead
  | place => place

/-- A step in an order goes to the nearest child that the order takes. If there is none, it finds
nothing; then a plain order stays, and a named one goes to the last child in its direction. -/
def step (named : Fin count → Bool) (order : Traversal) (place : PassPlace count) :
    Option (Fin count) × PassPlace count :=
  let ahead := place.ahead order.direction
  match ahead.find? fun index => !order.namedOnly || named index with
  | some index => (some index, child index)
  | none =>
      let landing := if order.namedOnly then ahead.getLast? else none
      (none, (landing.map child).getD place.settled)

def steps (named : Fin count → Bool) (order : Traversal) (place : PassPlace count) :
    Nat → List (Fin count) × PassPlace count
  | 0 => ([], place)
  | bound + 1 =>
      match place.step named order with
      | (none, after) => ([], after)
      | (some index, after) =>
          let rest := after.steps named order bound
          (index :: rest.1, rest.2)

theorem step_eq (named : Fin count → Bool) (order : Traversal) (place : PassPlace count) :
    place.step named order =
      match Outcome.seek (fun index => !order.namedOnly || named index)
        (place.ahead order.direction) with
      | .found index => (some index, child index)
      | .landed index => (none, child index)
      | .unmoved => (none, place.settled) := by
  rw [step, Outcome.seek]
  cases found : (place.ahead order.direction).find? fun index => !order.namedOnly || named index with
  | some index => rfl
  | none =>
      cases kind : order.namedOnly with
      | true => cases (place.ahead order.direction).getLast? <;> rfl
      | false =>
          have nothing : place.ahead order.direction = [] := by
            simpa [kind, List.eq_nil_iff_forall_not_mem] using found
          rw [nothing]
          rfl

theorem place_of_step {named : Fin count → Bool} {order : Traversal} {place after : PassPlace count}
    {index : Fin count} (found : place.step named order = (some index, after)) :
    after = child index := by
  rw [step_eq] at found
  split at found
  · injection found with item same
    injection item with item
    rw [← same, item]
  · simp at found
  · simp at found

end PassPlace

inductive PassCall where
  | advance (order : Traversal)
  | steps (order : Traversal) (bound : Nat)
  | reset

def PassPlace.perform {count : Nat} (named : Fin count → Bool) (place : PassPlace count) :
    PassCall → List (Fin count) × PassPlace count
  | .advance order => ((place.step named order).1.toList, (place.step named order).2)
  | .steps order bound => place.steps named order bound
  | .reset => ([], .fresh)

def ChildIterator.perform (iterator : ChildIterator) : PassCall → List Node × ChildIterator
  | .advance order => ((iterator.next? order).toList, iterator.advance order)
  | .steps order bound => ((iterator.run order bound).items, (iterator.run order bound).last)
  | .reset => ([], iterator.reset)

def performAll {State Item : Type} (perform : State → PassCall → List Item × State)
    (state : State) : List PassCall → List (List Item) × State
  | [] => ([], state)
  | call :: calls =>
      let rest := performAll perform (perform state call).2 calls
      ((perform state call).1 :: rest.1, rest.2)

namespace Cursor

variable (parent : Cursor)

def iteratorAt : PassPlace parent.focus.children.length → ChildIterator
  | .fresh => ⟨parent, parent.depth, true⟩
  | .dead => ⟨parent, parent.depth, false⟩
  | .child index => ⟨parent.onChild index, parent.depth, false⟩

def isNamedChild (index : Fin parent.focus.children.length) : Bool :=
  (parent.childNode index).isNamed

theorem enter_eq (order : Traversal) :
    parent.enter order =
      (Outcome.seek (fun index => !order.namedOnly || parent.isNamedChild index)
        (route parent.focus.children.length order.direction)).map parent.onChild := by
  cases kind : order.namedOnly with
  | true =>
      simp only [enter, kind, ↓reduceIte, namedChild_eq, Bool.not_true, Bool.false_or]
      rfl
  | false =>
      simp only [enter, kind, Bool.false_eq_true, ↓reduceIte, child?_eq, Bool.not_false,
        Bool.true_or, Outcome.seek_true, Outcome.map_ofOption, List.head?_map]

theorem proceed_onChild (index : Fin parent.focus.children.length) (order : Traversal) :
    (parent.onChild index).proceed order =
      (Outcome.seek (fun index => !order.namedOnly || parent.isNamedChild index)
        (routeFrom index order.direction)).map parent.onChild := by
  cases kind : order.namedOnly with
  | true =>
      simp only [proceed, kind, ↓reduceIte, namedSibling_onChild, Bool.not_true, Bool.false_or]
      rfl
  | false =>
      simp only [proceed, kind, Bool.false_eq_true, ↓reduceIte, sibling?_onChild, Bool.not_false,
        Bool.true_or, Outcome.seek_true, Outcome.map_ofOption, List.head?_map]

theorem proceed_of_depth_zero {cursor : Cursor} (top : cursor.depth = 0)
    (order : Traversal) : cursor.proceed order = .unmoved := by
  rw [proceed, sibling?_of_depth_zero top, namedSibling_of_depth_zero top]
  cases order.namedOnly <;> rfl

theorem move_iteratorAt (place : PassPlace parent.focus.children.length) (order : Traversal) :
    (parent.iteratorAt place).move order =
      (Outcome.seek (fun index => !order.namedOnly || parent.isNamedChild index)
        (place.ahead order.direction)).map parent.onChild := by
  cases place with
  | fresh => exact parent.enter_eq order
  | dead => simp [iteratorAt, ChildIterator.move, PassPlace.ahead, Outcome.seek, Outcome.map]
  | child index =>
      simp only [iteratorAt, ChildIterator.move, Bool.false_eq_true, ↓reduceIte, depth_onChild,
        Nat.lt_add_one, PassPlace.ahead]
      exact parent.proceed_onChild index order

theorem step_iteratorAt (place : PassPlace parent.focus.children.length) (order : Traversal) :
    (parent.iteratorAt place).advance order =
        parent.iteratorAt (place.step parent.isNamedChild order).2 ∧
      (parent.iteratorAt place).next? order =
        (place.step parent.isNamedChild order).1.map parent.childNode := by
  have move := parent.move_iteratorAt place order
  have step := place.step_eq parent.isNamedChild order
  cases outcome : Outcome.seek (fun index => !order.namedOnly || parent.isNamedChild index)
      (place.ahead order.direction) with
  | found index =>
      rw [outcome] at move step
      have goes : (parent.iteratorAt place).advance order = parent.iteratorAt (.child index) := by
        rw [ChildIterator.advance, move]
        cases place <;> rfl
      refine ⟨by rw [goes, step], ?_⟩
      rw [ChildIterator.next?, ChildIterator.finds, move, goes, step]
      simp [Outcome.map, Outcome.isFound, iteratorAt]
  | landed index =>
      rw [outcome] at move step
      constructor
      · rw [ChildIterator.advance, move, step]
        cases place <;> rfl
      · rw [ChildIterator.next?, ChildIterator.finds, move, step]
        rfl
  | unmoved =>
      rw [outcome] at move step
      constructor
      · rw [ChildIterator.advance, move, step]
        cases place <;> rfl
      · rw [ChildIterator.next?, ChildIterator.finds, move, step]
        rfl

theorem run_iteratorAt (place : PassPlace parent.focus.children.length) (order : Traversal)
    (bound : Nat) :
    ((parent.iteratorAt place).run order bound).stops =
        (place.steps parent.isNamedChild order bound).1.map parent.onChild ∧
      ((parent.iteratorAt place).run order bound).last =
        parent.iteratorAt (place.steps parent.isNamedChild order bound).2 := by
  induction bound generalizing place with
  | zero => exact ⟨rfl, rfl⟩
  | succ bound ih =>
      obtain ⟨goes, finds⟩ := parent.step_iteratorAt place order
      rw [ChildIterator.run, PassPlace.steps]
      cases stepped : place.step parent.isNamedChild order with
      | mk item after =>
          rw [stepped] at goes finds
          rw [ChildIterator.next?] at finds
          cases item with
          | none =>
              split at finds
              · contradiction
              next stops =>
                simp only [stops, Bool.false_eq_true, ↓reduceIte]
                exact ⟨rfl, goes⟩
          | some index =>
              split at finds
              next more =>
                obtain ⟨stops, last⟩ := ih after
                simp only [more, ↓reduceIte, goes, List.map_cons]
                rw [PassPlace.place_of_step stepped] at stops last ⊢
                exact ⟨congrArg _ stops, last⟩
              · contradiction

theorem items_run_iteratorAt (place : PassPlace parent.focus.children.length)
    (order : Traversal) (bound : Nat) :
    ((parent.iteratorAt place).run order bound).items =
      (place.steps parent.isNamedChild order bound).1.map parent.childNode := by
  rw [ChildIterator.Run.items, (parent.run_iteratorAt place order bound).1, List.map_map]
  exact List.map_congr_left fun index _ => parent.node_onChild index

theorem reset_iteratorAt (place : PassPlace parent.focus.children.length) :
    (parent.iteratorAt place).reset = parent.iteratorAt .fresh := by
  cases place with
  | fresh => simp [iteratorAt, ChildIterator.reset, climb]
  | dead => simp [iteratorAt, ChildIterator.reset, climb]
  | child index => simp [iteratorAt, ChildIterator.reset, climb]

theorem perform_iteratorAt (place : PassPlace parent.focus.children.length) (call : PassCall) :
    (parent.iteratorAt place).perform call =
      ((place.perform parent.isNamedChild call).1.map parent.childNode,
        parent.iteratorAt (place.perform parent.isNamedChild call).2) := by
  cases call with
  | advance order =>
      obtain ⟨goes, finds⟩ := parent.step_iteratorAt place order
      simp only [ChildIterator.perform, PassPlace.perform, goes, finds]
      cases (place.step parent.isNamedChild order).1 <;> rfl
  | steps order bound =>
      rw [ChildIterator.perform, items_run_iteratorAt, (parent.run_iteratorAt place order bound).2]
      rfl
  | reset =>
      rw [ChildIterator.perform, reset_iteratorAt]
      rfl

theorem performAll_iteratorAt (place : PassPlace parent.focus.children.length)
    (calls : List PassCall) :
    performAll ChildIterator.perform (parent.iteratorAt place) calls =
      ((performAll (PassPlace.perform parent.isNamedChild) place calls).1.map
          (·.map parent.childNode),
        parent.iteratorAt (performAll (PassPlace.perform parent.isNamedChild) place calls).2) := by
  induction calls generalizing place with
  | nil => rfl
  | cons call calls ih =>
      simp only [performAll, perform_iteratorAt, ih, List.map_cons]

/-- Whatever is done with an iterator, it finds the children that the machine finds and stands
where the machine does: on the parent, or on one of its children with the parent above. -/
theorem iterate_followsMachine (calls : List PassCall) :
    let machine := performAll (PassPlace.perform parent.isNamedChild) .fresh calls
    let pass := performAll ChildIterator.perform parent.iterate calls
    parent.node.childNodes = (List.finRange parent.focus.children.length).map parent.childNode ∧
      pass.1 = machine.1.map (·.map parent.childNode) ∧
      pass.2 = parent.iteratorAt machine.2 ∧
      (pass.2.cursor = parent ∨
        pass.2.cursor.parent? = some parent ∧ pass.2.cursor.node ∈ parent.node.childNodes) := by
  intro machine pass
  have follows : pass = (machine.1.map (·.map parent.childNode), parent.iteratorAt machine.2) :=
    parent.performAll_iteratorAt .fresh calls
  refine ⟨parent.childNodes_node, by rw [follows], by rw [follows], ?_⟩
  rw [follows]
  cases machine.2 with
  | fresh => exact Or.inl rfl
  | dead => exact Or.inl rfl
  | child index =>
      right
      refine ⟨parent.parent?_onChild index, ?_⟩
      rw [parent.childNodes_node]
      change (parent.onChild index).node ∈ _
      rw [node_onChild]
      exact List.mem_map_of_mem (List.mem_finRange index)

end Cursor

end ConcreteSyntax
