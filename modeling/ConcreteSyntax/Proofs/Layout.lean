import ConcreteSyntax.Node.Descendant
import ConcreteSyntax.Proofs.Ranges

/-!
Lookups by bytes and by points, in trees whose points go with their bytes.

If one map gives the points of all nodes from their bytes, and keeps the order of the bytes, then
a range of bytes and the range of its points are compared alike with every span. So the two searches
go down the same way, step by step.
-/

namespace ConcreteSyntax

namespace Point

theorem le_def (first second : Point) :
    first ≤ second ↔
      first.row < second.row ∨ first.row = second.row ∧ first.column ≤ second.column :=
  Iff.rfl

theorem lt_def (first second : Point) :
    first < second ↔
      first.row < second.row ∨ first.row = second.row ∧ first.column < second.column :=
  Iff.rfl

theorem eq_iff (first second : Point) :
    first = second ↔ first.row = second.row ∧ first.column = second.column := by
  cases first
  cases second
  rw [Point.mk.injEq]

theorem reduced_eq {point : Point} (row : point.row < 0x100000000)
    (column : point.column < 0x100000000) : point.reduced = point := by
  rw [reduced, wrap_eq_self_iff.mpr row, wrap_eq_self_iff.mpr column]

end Point

/-- The points of a text: the byte offsets that have one, and the point of each. -/
structure Layout where
  offsets : Nat → Prop
  point : Nat → Point
  increasing : ∀ first last, offsets first → offsets last → first < last → point first < point last
  counters : ∀ offset, offsets offset →
    (point offset).row < 0x100000000 ∧ (point offset).column < 0x100000000

namespace Layout

structure Places (layout : Layout) (span : Span) : Prop where
  startInside : layout.offsets span.startByte
  endInside : layout.offsets span.endByte
  startPoint : span.startPoint = layout.point span.startByte
  endPoint : span.endPoint = layout.point span.endByte

variable (layout : Layout) {first last start stop : Nat} {span : Span}

theorem lt_iff (firstInside : layout.offsets first) (lastInside : layout.offsets last) :
    layout.point first < layout.point last ↔ first < last := by
  refine ⟨fun below => ?_, layout.increasing first last firstInside lastInside⟩
  rcases Nat.lt_trichotomy first last with less | same | greater
  · exact less
  · rw [same, Point.lt_def] at below
    omega
  · have back := layout.increasing last first lastInside firstInside greater
    rw [Point.lt_def] at below back
    omega

theorem eq_iff (firstInside : layout.offsets first) (lastInside : layout.offsets last) :
    layout.point first = layout.point last ↔ first = last := by
  constructor
  · intro same
    have less := layout.lt_iff firstInside lastInside
    have greater := layout.lt_iff lastInside firstInside
    rw [same, Point.lt_def] at less greater
    omega
  · intro same
    rw [same]

theorem le_iff (firstInside : layout.offsets first) (lastInside : layout.offsets last) :
    layout.point first ≤ layout.point last ↔ first ≤ last := by
  have less := layout.lt_iff firstInside lastInside
  have greater := layout.lt_iff lastInside firstInside
  have equal := layout.eq_iff firstInside lastInside
  rw [Point.lt_def] at less greater
  rw [Point.eq_iff] at equal
  rw [Point.le_def]
  omega

theorem reduced_point (inside : layout.offsets start) :
    (layout.point start).reduced = layout.point start := by
  obtain ⟨row, column⟩ := layout.counters start inside
  exact Point.reduced_eq row column

theorem covers_eq (placed : layout.Places span) (startInside : layout.offsets start)
    (stopInside : layout.offsets stop) :
    Measure.points.covers span (layout.point start) (layout.point stop) =
      Measure.bytes.covers span start stop := by
  rw [Measure.covers, Measure.covers, decide_eq_decide]
  simp only [Measure.points, Measure.bytes, Span.points, Span.bytes,
    placed.startPoint, placed.endPoint, layout.le_iff startInside stopInside,
    layout.le_iff placed.startInside startInside, layout.le_iff stopInside placed.endInside]

theorem endsBefore_eq (placed : layout.Places span) (startInside : layout.offsets start)
    (stopInside : layout.offsets stop) :
    Measure.points.endsBefore span (layout.point start) (layout.point stop) =
      Measure.bytes.endsBefore span start stop := by
  simp only [Measure.endsBefore, Measure.points, Measure.bytes, Span.points, Span.bytes,
    placed.startPoint, placed.endPoint, layout.lt_iff placed.endInside stopInside,
    layout.lt_iff placed.endInside startInside, layout.le_iff placed.endInside startInside,
    layout.eq_iff placed.startInside placed.endInside]

mutual

theorem descent_eq (startInside : layout.offsets start) (stopInside : layout.offsets stop)
    (tree : Tree) (placed : tree.Everywhere fun below => layout.Places below.label.span) :
    Measure.points.descent (layout.point start) (layout.point stop) tree =
      Measure.bytes.descent start stop tree := by
  match tree with
  | .node label children =>
      rw [Measure.descent, Measure.descent]
      exact descentIn_eq startInside stopInside children (Tree.everywhere_node.mp placed).2 0

theorem descentIn_eq (startInside : layout.offsets start) (stopInside : layout.offsets stop)
    (children : List Tree)
    (placed : ∀ child ∈ children, child.Everywhere fun below => layout.Places below.label.span)
    (position : Nat) :
    Measure.points.descentIn (layout.point start) (layout.point stop) children position =
      Measure.bytes.descentIn start stop children position := by
  match children with
  | [] => rfl
  | child :: rest =>
      have childPlaced := placed child List.mem_cons_self
      have here : layout.Places child.label.span := (Tree.everywhere_iff.mp childPlaced).1
      have starts : layout.point start < (Measure.points.ends child.label.span).1 ↔
          start < (Measure.bytes.ends child.label.span).1 := by
        simp only [Measure.points, Measure.bytes, Span.points, Span.bytes, here.startPoint]
        exact layout.lt_iff startInside here.startInside
      rw [Measure.descentIn, Measure.descentIn, layout.endsBefore_eq here startInside stopInside,
        descent_eq startInside stopInside child childPlaced,
        descentIn_eq startInside stopInside rest
          (fun other member => placed other (List.mem_cons_of_mem child member)) (position + 1)]
      simp only [starts]

end

/-- In a tree that is laid out by its bytes, a lookup around a range of bytes and one around the
range of their points have one answer, or neither has one. This holds of the smallest node of all,
and of the smallest that is accepted, say of the named ones. -/
theorem descendants_agree (node : Node)
    (placed : node.subtree.Everywhere fun below => layout.Places below.label.span)
    (startInside : layout.offsets start) (stopInside : layout.offsets stop)
    (accept : Node → Bool) :
    node.descendantForBytes? accept start stop =
      node.descendantForPoints? accept (layout.point start) (layout.point stop) := by
  have here : layout.Places node.span := (Tree.everywhere_iff.mp placed).1
  have ordered : Measure.bytes.covers node.span start stop = true →
      layout.point start ≤ layout.point stop := by
    intro covered
    rw [layout.le_iff startInside stopInside]
    exact (of_decide_eq_true covered).1
  rw [Node.descendantForBytes?, Node.descendantForPoints?,
    layout.covers_eq here startInside stopInside, layout.reduced_point startInside,
    layout.reduced_point stopInside]
  split
  next covered =>
    rw [if_pos (ordered covered), Node.smallestAround, Node.smallestAround,
      layout.descent_eq startInside stopInside _ placed]
  · rfl

end Layout

/-- The points of `x <` on one line and `5` on the next. -/
def twoLines : Layout where
  offsets offset := offset ≤ 5
  point offset := if offset ≤ 3 then ⟨0, offset⟩ else ⟨1, offset - 4⟩
  increasing first last _ _ less := by
    rw [Point.lt_def]
    split <;> split <;> dsimp only <;> omega
  counters offset inside := by
    split <;> dsimp only <;> omega

def brokenLine : Node :=
  let operator : Label :=
    { kindId := 39, kind := "<", grammarId := 39, grammarName := "<", isNamed := false,
      isExtra := false, isError := false, isMissing := false, hasChanges := false,
      hasError := false, field := some ⟨26, "operator"⟩, span := ⟨2, 3, ⟨0, 2⟩, ⟨0, 3⟩⟩,
      firstChar := some '<' }
  let left : Label :=
    { operator with
      kindId := 1, kind := "identifier", isNamed := true, span := ⟨0, 1, ⟨0, 0⟩, ⟨0, 1⟩⟩ }
  let right : Label :=
    { left with kindId := 141, kind := "number_literal", span := ⟨4, 5, ⟨1, 0⟩, ⟨1, 1⟩⟩ }
  let missing : Label :=
    { operator with
      kindId := 42, kind := ";", isMissing := true, span := ⟨5, 5, ⟨1, 1⟩, ⟨1, 1⟩⟩ }
  let whole : Label :=
    { left with kindId := 290, kind := "statement", span := ⟨0, 5, ⟨0, 0⟩, ⟨1, 1⟩⟩ }
  SyntaxTree.rootNode
    ⟨0, .node whole [.node left [], .node operator [], .node right [], .node missing []]⟩

theorem missingSemicolon_agrees :
    (brokenLine.subtree.Everywhere fun below => twoLines.Places below.label.span) ∧
      twoLines.offsets 5 ∧
      brokenLine.descendantForBytes? (fun _ => true) 5 5 =
        brokenLine.descendantForPoints? (fun _ => true) ⟨1, 1⟩ ⟨1, 1⟩ ∧
      (brokenLine.descendantForBytes? (fun _ => true) 5 5).map (·.path) = some [3] := by
  have inside : twoLines.offsets 5 := Nat.le_refl 5
  have leaf (label : Label) (placed : twoLines.Places label.span) :
      (Tree.node label []).Everywhere fun below => twoLines.Places below.label.span :=
    Tree.everywhere_node.mpr ⟨placed, by simp⟩
  have placed : brokenLine.subtree.Everywhere fun below => twoLines.Places below.label.span := by
    refine Tree.everywhere_node.mpr ⟨⟨Nat.zero_le 5, inside, rfl, rfl⟩, ?_⟩
    simp only [List.forall_mem_cons]
    refine ⟨leaf _ ?_, leaf _ ?_, leaf _ ?_, leaf _ ?_, by simp⟩
    · exact ⟨by change 0 ≤ 5; decide, by change 1 ≤ 5; decide, rfl, rfl⟩
    · exact ⟨by change 2 ≤ 5; decide, by change 3 ≤ 5; decide, rfl, rfl⟩
    · exact ⟨by change 4 ≤ 5; decide, inside, rfl, rfl⟩
    · exact ⟨inside, inside, rfl, rfl⟩
  exact ⟨placed, inside, twoLines.descendants_agree brokenLine placed inside inside _, rfl⟩

end ConcreteSyntax
