import ConcreteSyntax.Proofs.Spanning

/-!
Lookups around ranges of points.

A lookup compares the range as it is given with the node, and then searches with 32-bit counters. A
node of several lines has points in it whose columns lie far beyond any line, so the comparison does
not bound the columns. The answer has the range in it if the columns are counters; otherwise it has
in it the range that the search is left with, or is the node itself.
-/

namespace ConcreteSyntax

structure Span.AroundPoints (span : Span) (start stop : Point) : Prop where
  starts : span.startPoint ≤ start
  ends : stop ≤ span.endPoint

namespace Point

theorem not_lt {first second : Point} : ¬first < second ↔ second ≤ first := by
  rw [lt_def, le_def]
  omega

theorem reduced_of_row {point : Point} (counted : point.row < 0x100000000) :
    point.reduced = ⟨point.row, wrap point.column⟩ := by
  rw [reduced, wrap_eq_self_iff.mpr counted]

end Point

namespace Node

variable {node found : Node} {start stop : Point}

theorem covers_points_iff :
    Measure.points.covers node.span start stop = true ↔
      start ≤ stop ∧ node.span.AroundPoints start stop := by
  rw [Measure.covers, decide_eq_true_iff]
  constructor
  · rintro ⟨ordered, starts, ends⟩
    exact ⟨ordered, starts, ends⟩
  · rintro ⟨ordered, starts, ends⟩
    exact ⟨ordered, starts, ends⟩

theorem aroundPoints_of_mem_searched (member : found ∈ node.searched .points start stop) :
    found = node ∨ found.span.AroundPoints start stop := by
  induction node using childInduction with
  | step node ih =>
      obtain ⟨passed, rest, split, _, ⟨ends, _⟩ | ⟨child, after, rfl, ahead, begun, goes⟩⟩ :=
        node.searched_cases .points start stop
      · rw [ends, List.mem_singleton] at member
        exact Or.inl member
      · rw [goes, List.mem_cons] at member
        rcases member with same | further
        · exact Or.inl same
        · have among : child ∈ node.childNodes := by simp [split]
          rcases ih child among further with same | around
          · subst same
            have late : ¬found.span.endPoint < stop := by
              intro early
              rw [Bool.eq_false_iff, Measure.endsBefore, Ne, decide_eq_true_iff] at ahead
              exact ahead (Or.inl early)
            exact Or.inr ⟨Point.not_lt.mp begun, Point.not_lt.mp late⟩
          · exact Or.inr around

theorem isSome_descendantForPoints?_iff (accept : Node → Bool) :
    (node.descendantForPoints? accept start stop).isSome ↔
      start ≤ stop ∧ node.span.AroundPoints start stop ∧ start.reduced ≤ stop.reduced := by
  rw [descendantForPoints?, ← and_assoc, ← covers_points_iff]
  split
  next covered => split <;> simp [*]
  next outside => simp [outside]

theorem of_descendantForPoints?_eq_some {accept : Node → Bool}
    (answer : node.descendantForPoints? accept start stop = some found) :
    node.Above found ∧ (found = node ∨ found.span.AroundPoints start.reduced stop.reduced) := by
  rw [descendantForPoints?] at answer
  split at answer
  · split at answer
    · obtain ⟨onWay, _, _⟩ :=
        smallestAround_spec .points start.reduced stop.reduced node accept
      rw [Option.some_inj.mp answer] at onWay
      exact ⟨above_of_mem_searched .points _ _ onWay, aroundPoints_of_mem_searched onWay⟩
    · contradiction
  · contradiction

/-- Lookups around all ranges of points, of the smallest node or of the smallest that is accepted. A
lookup has an answer just if the node has the range in it and the range is still one when its columns
are taken modulo two to the power of 32. The answer is the node, or a descendant with the range so
taken in it. So with columns that are counters there is an answer just if the node has the range in
it, and the answer has it in it too. -/
theorem descendantForPoints?_around (node : Node)
    (counted : node.span.endPoint.row < 0x100000000) (accept : Node → Bool) (start stop : Point) :
    let answer := node.descendantForPoints? accept start stop
    (answer.isSome ↔ start ≤ stop ∧ node.span.AroundPoints start stop ∧
        (start.row = stop.row → wrap start.column ≤ wrap stop.column)) ∧
      (∀ found, answer = some found → node.Above found ∧
        (found = node ∨ found.span.AroundPoints start.reduced stop.reduced)) ∧
      (start.column < 0x100000000 → stop.column < 0x100000000 →
        (answer.isSome ↔ start ≤ stop ∧ node.span.AroundPoints start stop) ∧
          ∀ found, answer = some found → found.span.AroundPoints start stop) := by
  intro answer
  have rows (ordered : start ≤ stop) (around : node.span.AroundPoints start stop) :
      start.row < 0x100000000 ∧ stop.row < 0x100000000 := by
    have ends := around.ends
    rw [Point.le_def] at ordered ends
    omega
  refine ⟨?_, fun found same => of_descendantForPoints?_eq_some same, ?_⟩
  · rw [isSome_descendantForPoints?_iff]
    refine and_congr_right fun ordered => and_congr_right fun around => ?_
    obtain ⟨startRow, stopRow⟩ := rows ordered around
    rw [Point.reduced_of_row startRow, Point.reduced_of_row stopRow, Point.le_def]
    rw [Point.le_def] at ordered
    dsimp only
    omega
  · intro startColumn stopColumn
    constructor
    · rw [isSome_descendantForPoints?_iff]
      refine and_congr_right fun ordered => and_iff_left_of_imp fun around => ?_
      obtain ⟨startRow, stopRow⟩ := rows ordered around
      rwa [Point.reduced_eq startRow startColumn, Point.reduced_eq stopRow stopColumn]
    · intro found same
      have answered : answer.isSome := by rw [same, Option.isSome_some]
      obtain ⟨ordered, around, _⟩ := (isSome_descendantForPoints?_iff accept).mp answered
      rcases (of_descendantForPoints?_eq_some same).2 with self | inside
      · rwa [self]
      · obtain ⟨startRow, stopRow⟩ := rows ordered around
        rwa [Point.reduced_eq startRow startColumn, Point.reduced_eq stopRow stopColumn] at inside

theorem brokenLine_aroundPoints :
    brokenLine.span.endPoint.row < 0x100000000 ∧
      ∃ found, brokenLine.descendantForPoints? (fun _ => true) ⟨1, 0⟩ ⟨1, 1⟩ = some found ∧
        found.label.kind = "number_literal" ∧ found.span.AroundPoints ⟨1, 0⟩ ⟨1, 1⟩ := by
  have counted : brokenLine.span.endPoint.row < 0x100000000 := by decide
  obtain ⟨_, _, exact⟩ :=
    descendantForPoints?_around brokenLine counted (fun _ => true) ⟨1, 0⟩ ⟨1, 1⟩
  exact ⟨counted, _, rfl, rfl, (exact (by decide) (by decide)).2 _ rfl⟩

/-- The two lines have in them the points that are 4294967295 and 4294967296 columns into the first.
The lookup around the second answers with `x`, where the first line starts, and the lookup from the
one to the other finds nothing. -/
theorem brokenLine_wideColumns :
    brokenLine.span.AroundPoints ⟨0, 0xFFFFFFFF⟩ ⟨0, 0x100000000⟩ ∧
      (∃ found, brokenLine.descendantForPoints? (fun _ => true) ⟨0, 0x100000000⟩ ⟨0, 0x100000000⟩ =
          some found ∧ ¬found.span.AroundPoints ⟨0, 0x100000000⟩ ⟨0, 0x100000000⟩) ∧
      (⟨0, 0xFFFFFFFF⟩ : Point) ≤ ⟨0, 0x100000000⟩ ∧
      brokenLine.descendantForPoints? (fun _ => true) ⟨0, 0xFFFFFFFF⟩ ⟨0, 0x100000000⟩ = none := by
  refine ⟨⟨by decide, by decide⟩, ⟨_, rfl, ?_⟩, by decide, rfl⟩
  rintro ⟨_, ends⟩
  exact absurd ends (by decide)

end Node

end ConcreteSyntax
