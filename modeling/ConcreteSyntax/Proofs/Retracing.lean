import ConcreteSyntax.Proofs.CursorRun
import ConcreteSyntax.Proofs.Dump

/-!
Steps among siblings that are taken back.

A step passes only siblings that its order does not take. The step back meets the same ones in the
other sequence, so it first stops where the cursor has come from, if the order takes that node. This
holds also of a step that has found nothing and has landed on the last sibling.
-/

namespace ConcreteSyntax

def Direction.opposite : Direction → Direction
  | .forward => .backward
  | .backward => .forward

def Traversal.opposite (order : Traversal) : Traversal :=
  ⟨order.direction.opposite, order.namedOnly⟩

theorem route_opposite (count : Nat) (direction : Direction) :
    route count direction.opposite = (route count direction).reverse := by
  cases direction with
  | forward => rfl
  | backward => simp [route, Direction.opposite]

theorem routeFrom_opposite {count : Nat} {direction : Direction} {start index : Fin count}
    {passed rest : List (Fin count)}
    (split : routeFrom start direction = passed ++ index :: rest) :
    routeFrom index direction.opposite =
      passed.reverse ++ start :: routeFrom start direction.opposite := by
  obtain ⟨before, whole⟩ := route_split start direction
  have turned : route count direction.opposite =
      rest.reverse ++ index :: (passed.reverse ++ start :: before.reverse) := by
    rw [route_opposite, whole, split]
    simp
  have back := routeFrom_of_split turned
  rw [back, routeFrom_of_routeFrom_split back]

theorem Cursor.proceed_opposite {cursor after : Cursor} {order : Traversal}
    (taken : order.namedOnly → cursor.node.isNamed)
    (moved : (cursor.proceed order).moved? = some after) :
    after.proceed order.opposite = .found cursor := by
  rcases Nat.eq_zero_or_pos cursor.depth with top | below
  · rw [proceed_of_depth_zero top] at moved
    contradiction
  · obtain ⟨parent, start, rfl⟩ := exists_onChild below
    rw [proceed_onChild, Outcome.moved?_map, Option.map_eq_some_iff] at moved
    obtain ⟨index, sought, rfl⟩ := moved
    obtain ⟨passed, rest, split, refused⟩ := Outcome.split_of_moved?_seek sought
    have accepted : (!order.namedOnly || parent.isNamedChild start) = true := by
      rw [node_onChild] at taken
      cases namedOnly : order.namedOnly with
      | true => simpa [isNamedChild] using taken namedOnly
      | false => rfl
    have back : Outcome.seek (fun index => !order.namedOnly || parent.isNamedChild index)
        (routeFrom index order.direction.opposite) = .found start := by
      rw [Outcome.seek_eq_found_iff, routeFrom_opposite split]
      refine ⟨accepted, passed.reverse, _, rfl, ?_⟩
      intro other member
      exact refused other (List.mem_reverse.mp member)
    rw [proceed_onChild]
    exact congrArg (Outcome.map parent.onChild) back

/-- A named step among siblings that moves the cursor from a named node is taken back by the named
step in the other direction, which finds that node again, with the same way up. The first step may
have found a named sibling, or have failed and left the cursor on the last sibling. -/
theorem CountingCursor.namedStep_takenBack {cursor after : CountingCursor} {direction : Direction}
    (named : cursor.place.node.isNamed)
    (moved : (cursor.proceed ⟨direction, true⟩).moved? = some after) :
    ∃ back, after.proceed ⟨direction.opposite, true⟩ = .found back ∧
      back.place = cursor.place ∧ back.parent? = cursor.parent? := by
  rw [proceed, Outcome.moved?_map, Option.map_eq_some_iff] at moved
  obtain ⟨place, reached, rfl⟩ := moved
  have found : place.proceed ⟨direction.opposite, true⟩ = .found cursor.place :=
    Cursor.proceed_opposite (fun _ => named) reached
  exact ⟨_, congrArg (Outcome.map _) found, rfl, rfl⟩

theorem quotedCall_takenBack :
    let call := Json.quotedCall.walkCounting
    let name := (call.enter .named).place call
    let quote := (name.proceed .named).place name
    name.place.node.isNamed = true ∧
      (name.proceed .named).moved? = some quote ∧ (name.proceed .named).isFound = false ∧
      ∃ back, quote.proceed .namedReverse = .found back ∧
        back.place = name.place ∧ back.parent? = name.parent? := by
  intro call name quote
  have named : name.place.node.isNamed = true := rfl
  have moved : (name.proceed .named).moved? = some quote := rfl
  exact ⟨named, moved, rfl, CountingCursor.namedStep_takenBack named moved⟩

end ConcreteSyntax
