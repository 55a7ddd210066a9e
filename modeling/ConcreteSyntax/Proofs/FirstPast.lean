import ConcreteSyntax.Proofs.Confinement
import ConcreteSyntax.Proofs.Layout

/-!
The first child past a place in the text.

A move past a byte or past a point goes down to the first child that ends after it, and stays on the
parent if there is none. Before the look the place is reduced to 32-bit counters, so a place beyond
them is taken for another one.
-/

namespace ConcreteSyntax

/-- A move that goes to the first child past a place, one level down, and stays if no child is past
it. The first index is the number of the child that the move answers with, and the second is the
cursor afterwards. -/
inductive EntersFirst (past : Node → Prop) (cursor : CountingCursor) :
    Option Nat → CountingCursor → Prop
  | stays : (∀ child ∈ cursor.place.node.childNodes, ¬past child) →
      EntersFirst past cursor none cursor
  | enters {index : Nat} {child : Node} {after : CountingCursor} :
      cursor.place.node.childNodes[index]? = some child → past child →
      (∀ earlier ∈ cursor.place.node.childNodes.take index, ¬past earlier) →
      after.place.node = child → after.place.depth = cursor.place.depth + 1 →
      after.parent? = some cursor → EntersFirst past cursor (some index) after

theorem EntersFirst.congr {first second : Node → Prop} {cursor after : CountingCursor}
    {answer : Option Nat} (enters : EntersFirst first cursor answer after)
    (same : ∀ child ∈ cursor.place.node.childNodes, first child ↔ second child) :
    EntersFirst second cursor answer after := by
  cases enters with
  | stays nothing =>
      apply EntersFirst.stays
      intro child member past
      exact nothing child member ((same child member).mpr past)
  | enters here past least placed deeper up =>
      refine .enters here ((same _ (List.mem_of_getElem? here)).mp past) ?_ placed deeper up
      intro earlier member pastEarlier
      exact least earlier member ((same earlier (List.mem_of_mem_take member)).mpr pastEarlier)

theorem Cursor.firstPast?_eq_none {cursor : Cursor} {byte : Nat} {point : Point}
    (nothing : cursor.firstPast? byte point = none) :
    ∀ child ∈ cursor.node.childNodes,
      ¬(byte < child.span.endByte ∧ point < child.span.endPoint) := by
  intro child member
  rw [childNodes_node, List.mem_map] at member
  obtain ⟨index, _, rfl⟩ := member
  have refused := List.findIdx?_eq_none_iff.mp nothing _ (List.getElem_mem index.isLt)
  rw [← Bool.decide_and, decide_eq_false_iff_not] at refused
  exact refused

theorem Cursor.firstPast?_eq_some {cursor : Cursor} {byte : Nat} {point : Point} {index : Nat}
    (found : cursor.firstPast? byte point = some index) :
    ∃ bound : index < cursor.focus.children.length,
      (byte < (cursor.childNode ⟨index, bound⟩).span.endByte ∧
        point < (cursor.childNode ⟨index, bound⟩).span.endPoint) ∧
      ∀ earlier ∈ cursor.node.childNodes.take index,
        ¬(byte < earlier.span.endByte ∧ point < earlier.span.endPoint) := by
  obtain ⟨bound, accepted, refused⟩ := List.findIdx?_eq_some_iff_getElem.mp found
  rw [← Bool.decide_and, decide_eq_true_iff] at accepted
  refine ⟨bound, accepted, ?_⟩
  intro earlier member
  obtain ⟨place, inside, rfl⟩ := List.mem_take_iff_getElem.mp member
  have before := refused place (by omega)
  simpa [Node.childNodes, Node.below, Node.span, Node.label, Cursor.node] using before

namespace CountingCursor

variable (cursor : CountingCursor)

theorem parent?_inside (direction : Direction)
    (index : Fin cursor.place.focus.children.length) :
    (cursor.inside direction (cursor.place.onChild index)).parent? = some cursor := by
  rw [inside, parent?, Cursor.parent?_onChild]
  rfl

theorem entersFirst_firstChildPast? (byte : Nat) (point : Point) :
    let answer := (cursor.place.firstChildPast? byte point).map fun past =>
      (past.1, cursor.inside .forward past.2)
    EntersFirst (fun child => byte < child.span.endByte ∧ point < child.span.endPoint) cursor
      (answer.map (·.1)) ((answer.map (·.2)).getD cursor) := by
  intro answer
  cases found : cursor.place.firstPast? byte point with
  | none =>
      have failed : answer = none := by
        simp only [answer, Cursor.firstChildPast?, found, Option.bind_none, Option.map_none]
      rw [failed]
      exact .stays (Cursor.firstPast?_eq_none found)
  | some index =>
      obtain ⟨bound, past, least⟩ := Cursor.firstPast?_eq_some found
      have entered : cursor.place.childAt? index = some (cursor.place.onChild ⟨index, bound⟩) :=
        Cursor.childAt?_eq_some.mpr ⟨bound, rfl⟩
      have goes : answer =
          some (index, cursor.inside .forward (cursor.place.onChild ⟨index, bound⟩)) := by
        simp only [answer, Cursor.firstChildPast?, found, Option.bind_some, entered,
          Option.map_some]
      rw [goes]
      have here : cursor.place.node.childNodes[index]? =
          some (cursor.place.childNode ⟨index, bound⟩) := by
        simp [Cursor.childNodes_node, bound]
      exact .enters here past least (cursor.place.node_onChild _) (cursor.place.depth_onChild _)
        (cursor.parent?_inside .forward _)

/-- The moves past a byte and past a point, for all places. They take the place modulo two to the
power of 32, and look only at children that do not end at the start of the text. So a place within
32-bit counters has the first child that ends after it, if only every child ends at byte zero just
if it ends at the first point. -/
theorem firstChildPast_entersFirst (byte : Nat) (point : Point) :
    let pastByte (past : Node → Prop) :=
      EntersFirst past cursor ((cursor.firstChildPastByte? byte).map (·.1))
        ((cursor.perform (.firstChildPastByte byte)).place cursor)
    let pastPoint (past : Node → Prop) :=
      EntersFirst past cursor ((cursor.firstChildPastPoint? point).map (·.1))
        ((cursor.perform (.firstChildPastPoint point)).place cursor)
    pastByte (fun child => wrap byte < child.span.endByte ∧ .zero < child.span.endPoint) ∧
      pastPoint (fun child => 0 < child.span.endByte ∧ point.reduced < child.span.endPoint) ∧
      ((∀ child ∈ cursor.place.node.childNodes,
          0 < child.span.endByte ↔ .zero < child.span.endPoint) →
        (byte < 0x100000000 → pastByte fun child => byte < child.span.endByte) ∧
          (point.row < 0x100000000 → point.column < 0x100000000 →
            pastPoint fun child => point < child.span.endPoint)) := by
  intro pastByte pastPoint
  have byByte : pastByte fun child =>
      wrap byte < child.span.endByte ∧ .zero < child.span.endPoint := by
    simp only [pastByte, perform, Outcome.place_eq, Outcome.moved?_ofOption]
    exact cursor.entersFirst_firstChildPast? (wrap byte) .zero
  have byPoint : pastPoint fun child =>
      0 < child.span.endByte ∧ point.reduced < child.span.endPoint := by
    simp only [pastPoint, perform, Outcome.place_eq, Outcome.moved?_ofOption]
    exact cursor.entersFirst_firstChildPast? 0 point.reduced
  refine ⟨byByte, byPoint, ?_⟩
  intro settled
  constructor
  · intro counted
    have exact : wrap byte = byte := Nat.mod_eq_of_lt counted
    rw [exact] at byByte
    refine byByte.congr fun child member => and_iff_left_of_imp ?_
    intro past
    exact (settled child member).mp (by omega)
  · intro row column
    rw [Point.reduced_eq row column] at byPoint
    refine byPoint.congr fun child member => and_iff_right_of_imp ?_
    intro past
    apply (settled child member).mpr
    rw [Point.lt_def] at past ⊢
    simp only [Point.zero]
    omega

theorem comparison_entersFirst :
    (∀ child ∈ comparison.walkCounting.place.node.childNodes,
        0 < child.span.endByte ↔ .zero < child.span.endPoint) ∧
      EntersFirst (fun child => 2 < child.span.endByte) comparison.walkCounting (some 1)
        ((comparison.walkCounting.perform (.firstChildPastByte 2)).place
          comparison.walkCounting) := by
  have settled : ∀ child ∈ comparison.walkCounting.place.node.childNodes,
      0 < child.span.endByte ↔ .zero < child.span.endPoint := by
    simp [comparison, Node.walkCounting, SyntaxTree.rootNode, Node.childNodes, Node.below,
      Node.span, Node.label, Point.lt_def, Point.zero]
  obtain ⟨_, _, exact⟩ := comparison.walkCounting.firstChildPast_entersFirst 2 .zero
  exact ⟨settled, (exact settled).1 (by decide)⟩

/-- Nothing ends after byte 4294967296 or after the point with that column, and yet both moves enter
the first child. -/
theorem wideByte_entersFirst :
    let cursor := comparison.walkCounting
    (cursor.firstChildPastByte? 0x100000000).map (·.1) = some 0 ∧
      (cursor.firstChildPastPoint? ⟨0, 0x100000000⟩).map (·.1) = some 0 ∧
      ∀ child ∈ cursor.place.node.childNodes,
        ¬0x100000000 < child.span.endByte ∧ ¬(⟨0, 0x100000000⟩ : Point) < child.span.endPoint := by
  refine ⟨rfl, rfl, ?_⟩
  simp [comparison, Node.walkCounting, SyntaxTree.rootNode, Node.childNodes, Node.below,
    Node.span, Node.label, Point.lt_def]

end CountingCursor

end ConcreteSyntax
