import ConcreteSyntax.Node.Descendant
import ConcreteSyntax.Proofs.Confinement
import ConcreteSyntax.Proofs.Layout

/-!
The smallest node around a range of bytes.

A search goes from a node to a child around the range, for as long as there is one. In a tree whose
siblings are in order and do not overlap, the siblings that it passes and those that it does not come
to lie beside a range that is not empty. So every node around the range is on the way of the search,
above those that come later, and the search ends on the smallest.
-/

namespace ConcreteSyntax

namespace Node

def Above (node found : Node) : Prop :=
  ∃ path, node.nodeAt? path = some found

theorem Above.refl (node : Node) : node.Above node :=
  ⟨[], node.nodeAt?_nil⟩

theorem above_iff {node found : Node} :
    node.Above found ↔ found = node ∨ ∃ child ∈ node.childNodes, child.Above found := by
  constructor
  · rintro ⟨path, leads⟩
    cases path with
    | nil =>
        rw [nodeAt?_nil] at leads
        exact Or.inl (Option.some_inj.mp leads).symm
    | cons index path =>
        rw [nodeAt?_cons, Option.bind_eq_some_iff] at leads
        obtain ⟨child, here, further⟩ := leads
        exact Or.inr ⟨child, List.mem_of_getElem? here, path, further⟩
  · rintro (rfl | ⟨child, member, path, leads⟩)
    · exact .refl found
    · obtain ⟨index, bound, same⟩ := List.mem_iff_getElem.mp member
      refine ⟨index :: path, ?_⟩
      rw [nodeAt?_cons, List.getElem?_eq_getElem bound, Option.bind_some, same]
      exact leads

theorem Above.of_child {node child found : Node} (member : child ∈ node.childNodes)
    (above : child.Above found) : node.Above found :=
  above_iff.mpr (Or.inr ⟨child, member, above⟩)

end Node

/-! Searches. -/

section

variable {Position : Type} [LE Position] [LT Position] [DecidableEq Position]
  [∀ first second : Position, Decidable (first ≤ second)]
  [∀ first second : Position, Decidable (first < second)]
  (measure : Measure Position) (start stop : Position)

theorem Measure.descentIn_cases (siblings : List Tree) (position : Nat) :
    ∃ passed rest, siblings = passed ++ rest ∧
      (∀ sibling ∈ passed, measure.endsBefore sibling.label.span start stop = true) ∧
      (measure.descentIn start stop siblings position = [] ∧
          (∀ next ∈ rest.head?, start < (measure.ends next.label.span).1) ∨
        ∃ child after, rest = child :: after ∧
          measure.endsBefore child.label.span start stop = false ∧
          ¬start < (measure.ends child.label.span).1 ∧
          measure.descentIn start stop siblings position =
            (position + passed.length, child) :: measure.descent start stop child) := by
  induction siblings generalizing position with
  | nil => exact ⟨[], [], rfl, by simp, Or.inl ⟨rfl, by simp⟩⟩
  | cons first rest ih =>
      rw [Measure.descentIn]
      cases early : measure.endsBefore first.label.span start stop with
      | true =>
          obtain ⟨passed, others, split, ends, outcome⟩ := ih (position + 1)
          refine ⟨first :: passed, others, by rw [split, List.cons_append], ?_, ?_⟩
          · intro sibling member
            rcases List.mem_cons.mp member with same | later
            · rw [same, early]
            · exact ends sibling later
          · rw [if_pos rfl, List.length_cons, Nat.add_comm passed.length 1, ← Nat.add_assoc]
            exact outcome
      | false =>
          refine ⟨[], first :: rest, rfl, by simp, ?_⟩
          rw [if_neg Bool.false_ne_true]
          split
          next late => exact Or.inl ⟨rfl, by simpa using late⟩
          next begun => exact Or.inr ⟨first, rest, rfl, early, begun, rfl⟩

namespace Node

/-- The nodes on the way of a search, from the one where it begins. -/
def searched (node : Node) : List Node :=
  node :: node.along (measure.descent start stop node.subtree)

theorem searched_cases (node : Node) :
    ∃ passed rest, node.childNodes = passed ++ rest ∧
      (∀ sibling ∈ passed, measure.endsBefore sibling.span start stop = true) ∧
      (node.searched measure start stop = [node] ∧
          (∀ next ∈ rest.head?, start < (measure.ends next.span).1) ∨
        ∃ child after, rest = child :: after ∧
          measure.endsBefore child.span start stop = false ∧
          ¬start < (measure.ends child.span).1 ∧
          node.searched measure start stop = node :: child.searched measure start stop) := by
  have descent : measure.descent start stop node.subtree =
      measure.descentIn start stop node.subtree.children 0 := by
    cases node.subtree
    rw [Measure.descent, Tree.children_node]
  obtain ⟨passed, rest, split, ends, outcome⟩ :=
    measure.descentIn_cases start stop node.subtree.children 0
  have children : node.childNodes = passed.mapIdx node.below ++
      rest.mapIdx fun index => node.below (index + passed.length) := by
    rw [childNodes, split, List.mapIdx_append]
  refine ⟨_, _, children, ?_, ?_⟩
  · intro sibling member
    obtain ⟨index, bound, same⟩ := List.mem_mapIdx.mp member
    subst same
    exact ends _ (List.getElem_mem bound)
  · rw [searched, descent]
    rcases outcome with ⟨nothing, late⟩ | ⟨child, after, rfl, ahead, begun, leads⟩
    · refine Or.inl ⟨by rw [nothing, along], ?_⟩
      intro next first
      cases rest with
      | nil => simp at first
      | cons tree others =>
          rw [List.mapIdx_cons, List.head?_cons, Option.mem_some_iff] at first
          subst first
          exact late tree rfl
    · refine Or.inr ⟨node.below passed.length child,
        after.mapIdx fun index => node.below (index + 1 + passed.length), ?_, ahead, begun, ?_⟩
      · rw [List.mapIdx_cons, Nat.zero_add]
      · rw [leads, along, Nat.zero_add]
        rfl

theorem self_mem_searched (node : Node) : node ∈ node.searched measure start stop :=
  List.mem_cons_self

theorem above_of_mem_searched {node found : Node}
    (member : found ∈ node.searched measure start stop) : node.Above found := by
  induction node using childInduction with
  | step node ih =>
      obtain ⟨passed, rest, split, _, ⟨ends, _⟩ | ⟨child, after, rfl, _, _, goes⟩⟩ :=
        node.searched_cases measure start stop
      · rw [ends, List.mem_singleton] at member
        rw [member]
        exact .refl node
      · rw [goes, List.mem_cons] at member
        rcases member with same | further
        · rw [same]
          exact .refl node
        · have among : child ∈ node.childNodes := by simp [split]
          exact .of_child among (ih child among further)

theorem pairwise_searched (node : Node) :
    (node.searched measure start stop).Pairwise Above := by
  induction node using childInduction with
  | step node ih =>
      obtain ⟨passed, rest, split, _, ⟨ends, _⟩ | ⟨child, after, rfl, _, _, goes⟩⟩ :=
        node.searched_cases measure start stop
      · rw [ends]
        exact List.pairwise_singleton _ _
      · have among : child ∈ node.childNodes := by simp [split]
        rw [goes, List.pairwise_cons]
        refine ⟨?_, ih child among⟩
        intro found member
        exact .of_child among (above_of_mem_searched measure start stop member)

theorem smallestAround_spec (node : Node) (accept : Node → Bool) :
    let found := node.smallestAround measure accept start stop
    found ∈ node.searched measure start stop ∧
      (∀ other ∈ node.searched measure start stop, accept other → other.Above found) ∧
      (accept found ∨ found = node ∧ ∀ other ∈ node.searched measure start stop,
        accept other = false) := by
  intro found
  let way := node.along (measure.descent start stop node.subtree)
  have answer : found = ((way.filter accept).getLast?).getD node := rfl
  cases last : (way.filter accept).getLast? with
  | none =>
      rw [last, Option.getD_none] at answer
      have refused : ∀ other ∈ way, ¬accept other := by
        rwa [List.getLast?_eq_none_iff, List.filter_eq_nil_iff] at last
      rw [answer]
      refine ⟨self_mem_searched measure start stop node, ?_, ?_⟩
      · intro other member accepted
        rcases List.mem_cons.mp member with same | further
        · rw [same]
          exact .refl node
        · exact absurd accepted (refused other further)
      · cases accepted : accept node with
        | true => exact Or.inl rfl
        | false =>
            refine Or.inr ⟨rfl, ?_⟩
            intro other member
            rcases List.mem_cons.mp member with same | further
            · rw [same, accepted]
            · exact Bool.eq_false_iff.mpr (refused other further)
  | some lowest =>
      rw [last, Option.getD_some] at answer
      obtain ⟨before, split⟩ := List.getLast?_eq_some_iff.mp last
      have chosen : lowest ∈ way.filter accept := by simp [split]
      obtain ⟨onWay, accepted⟩ := List.mem_filter.mp chosen
      have among : lowest ∈ node.searched measure start stop := List.mem_cons_of_mem node onWay
      have sorted : (way.filter accept).Pairwise Above :=
        (pairwise_searched measure start stop node).of_cons.filter accept
      rw [split, List.pairwise_append] at sorted
      rw [answer]
      refine ⟨among, ?_, Or.inl accepted⟩
      intro other member passes
      rcases List.mem_cons.mp member with same | further
      · rw [same]
        exact above_of_mem_searched measure start stop among
      · have listed : other ∈ before ++ [lowest] := split ▸ List.mem_filter.mpr ⟨further, passes⟩
        rcases List.mem_append.mp listed with earlier | same
        · exact sorted.2.2 other earlier lowest List.mem_cons_self
        · rw [List.mem_singleton.mp same]
          exact .refl lowest

theorem searched_ends (node : Node) :
    ∃ before last, node.searched measure start stop = before ++ [last] ∧
      last.searched measure start stop = [last] := by
  induction node using childInduction with
  | step node ih =>
      obtain ⟨passed, rest, split, _, ⟨ends, _⟩ | ⟨child, after, rfl, _, _, goes⟩⟩ :=
        node.searched_cases measure start stop
      · exact ⟨[], node, ends, ends⟩
      · have among : child ∈ node.childNodes := by simp [split]
        obtain ⟨before, last, way, ended⟩ := ih child among
        exact ⟨node :: before, last, by rw [goes, way, List.cons_append], ended⟩

theorem searched_smallestAround (node : Node) :
    let found := node.smallestAround measure (fun _ => true) start stop
    found.searched measure start stop = [found] := by
  intro found
  obtain ⟨before, last, way, ended⟩ := searched_ends measure start stop node
  have final : (node.searched measure start stop).getLast? = some found := by
    have all : (node.along (measure.descent start stop node.subtree)).filter (fun _ => true) =
        node.along (measure.descent start stop node.subtree) :=
      List.filter_eq_self.mpr fun _ _ => rfl
    rw [searched, List.getLast?_cons, ← all]
    rfl
  rw [way, List.getLast?_concat] at final
  rw [← Option.some_inj.mp final]
  exact ended

end Node

end

/-! Ranges of bytes. -/

structure Span.Around (span : Span) (start stop : Nat) : Prop where
  starts : span.startByte ≤ start
  ends : stop ≤ span.endByte

namespace Tree

/-- The nodes of the tree lie in their parents, and siblings follow each other without overlap. -/
structure Arranged (tree : Tree) : Prop where
  nested : tree.Nested
  inOrder : tree.Everywhere fun subtree =>
    subtree.children.Pairwise fun first next => first.label.span.endByte ≤ next.label.span.startByte

end Tree

namespace Node

variable {node found other : Node} {start stop : Nat}

theorem arranged_children (arranged : node.subtree.Arranged) :
    (node.childNodes.Pairwise fun first next => first.span.endByte ≤ next.span.startByte) ∧
      ∀ child ∈ node.childNodes, child.subtree.Arranged ∧ child.span.Within node.span := by
  obtain ⟨⟨_, within⟩, nested⟩ := Tree.everywhere_iff.mp arranged.nested
  obtain ⟨ordered, inOrder⟩ := Tree.everywhere_iff.mp arranged.inOrder
  rw [← map_subtree_childNodes] at within nested ordered inOrder
  refine ⟨List.pairwise_map.mp ordered, ?_⟩
  intro child member
  have among : child.subtree ∈ node.childNodes.map (·.subtree) := List.mem_map_of_mem member
  exact ⟨⟨nested _ among, inOrder _ among⟩, within _ among⟩

theorem Above.arranged (above : node.Above found) (arranged : node.subtree.Arranged) :
    found.subtree.Arranged ∧ found.span.Within node.span := by
  induction node using childInduction with
  | step node ih =>
      rcases above_iff.mp above with same | ⟨child, member, below⟩
      · rw [same]
        exact ⟨arranged, (Tree.everywhere_iff.mp arranged.nested).1.1⟩
      · obtain ⟨childArranged, inner⟩ := (arranged_children arranged).2 child member
        obtain ⟨foundArranged, within⟩ := ih child member below childArranged
        exact ⟨foundArranged, within.trans inner⟩

theorem endsBefore_iff {span : Span} :
    Measure.bytes.endsBefore span start stop = true ↔
      span.endByte < stop ∨ span.endByte < start ∨
        span.startByte ≠ span.endByte ∧ span.endByte = start := by
  simp only [Measure.endsBefore, Measure.bytes, Span.bytes, decide_eq_true_eq]
  split <;> omega

theorem around_of_mem_searched (around : node.span.Around start stop)
    (member : found ∈ node.searched .bytes start stop) : found.span.Around start stop := by
  induction node using childInduction with
  | step node ih =>
      obtain ⟨passed, rest, split, _, ⟨ends, _⟩ | ⟨child, after, rfl, ahead, begun, goes⟩⟩ :=
        node.searched_cases .bytes start stop
      · rw [ends, List.mem_singleton] at member
        rwa [member]
      · rw [goes, List.mem_cons] at member
        rcases member with same | further
        · rwa [same]
        · have among : child ∈ node.childNodes := by simp [split]
          rw [Bool.eq_false_iff, Ne, endsBefore_iff] at ahead
          refine ih child among ⟨Nat.le_of_not_lt begun, ?_⟩ further
          omega

theorem searched_of_around (arranged : node.subtree.Arranged) {child : Node}
    (member : child ∈ node.childNodes) (around : child.span.Around start stop)
    (filled : start < stop) :
    node.searched .bytes start stop = node :: child.searched .bytes start stop := by
  obtain ⟨ordered, inner⟩ := arranged_children arranged
  obtain ⟨starts, ends⟩ := around
  obtain ⟨passed, rest, split, early, outcome⟩ := node.searched_cases .bytes start stop
  have kept : child ∈ rest := by
    rw [split, List.mem_append] at member
    refine member.resolve_left fun before => ?_
    have past := endsBefore_iff.mp (early child before)
    omega
  rw [split, List.pairwise_append] at ordered
  cases rest with
  | nil => simp at kept
  | cons next after =>
      have nextOrdered := (inner next (by simp [split])).2.ordered
      rcases List.mem_cons.mp kept with same | later
      · subst same
        rcases outcome with ⟨_, late⟩ | ⟨_, _, same, _, _, goes⟩
        · have begins := late child rfl
          change start < child.span.startByte at begins
          omega
        · injection same with same
          rwa [← same] at goes
      · have follows := List.rel_of_pairwise_cons ordered.2.1 later
        rcases outcome with ⟨_, late⟩ | ⟨_, _, same, ahead, _, _⟩
        · have begins := late next rfl
          change start < next.span.startByte at begins
          omega
        · injection same with same
          rw [← same, Bool.eq_false_iff, Ne, endsBefore_iff] at ahead
          omega

theorem mem_searched_of_around (arranged : node.subtree.Arranged) (filled : start < stop)
    (above : node.Above other) (around : other.span.Around start stop) :
    other ∈ node.searched .bytes start stop := by
  induction node using childInduction with
  | step node ih =>
      rcases above_iff.mp above with same | ⟨child, member, below⟩
      · rw [same]
        exact self_mem_searched .bytes start stop node
      · have childArranged := ((arranged_children arranged).2 child member).1
        have within := (below.arranged childArranged).2
        have childAround : child.span.Around start stop :=
          ⟨Nat.le_trans within.starts around.starts, Nat.le_trans around.ends within.ends⟩
        rw [searched_of_around arranged member childAround filled]
        exact List.mem_cons_of_mem node (ih child member childArranged below)

theorem touches_of_ended (arranged : found.subtree.Arranged)
    (ended : found.searched .bytes start start = [found]) {child : Node}
    (member : child ∈ found.childNodes) (around : child.span.Around start start) :
    child.span.startByte < child.span.endByte ∧ child.span.endByte = start := by
  obtain ⟨ordered, inner⟩ := arranged_children arranged
  obtain ⟨starts, ends⟩ := around
  have childOrdered := (inner child member).2.ordered
  obtain ⟨passed, rest, split, early, outcome⟩ := found.searched_cases .bytes start start
  have late : ∀ next ∈ rest.head?, start < next.span.startByte := by
    rcases outcome with ⟨_, late⟩ | ⟨next, _, _, _, _, goes⟩
    · exact late
    · rw [ended] at goes
      injection goes with _ nothing
      contradiction
  rw [split, List.mem_append] at member
  rcases member with before | kept
  · have past := endsBefore_iff.mp (early child before)
    omega
  · rw [split, List.pairwise_append] at ordered
    cases rest with
    | nil => simp at kept
    | cons next after =>
        have begins := late next rfl
        have nextOrdered := (inner next (by simp [split])).2.ordered
        rcases List.mem_cons.mp kept with same | later
        · rw [same] at starts
          omega
        · have follows := List.rel_of_pairwise_cons ordered.2.1 later
          omega

/-- What makes a node the smallest around a range of bytes. A child of it may hold the range only if
the range is empty and the child, itself not empty, ends there. -/
structure IsSmallestAround (node : Node) (start stop : Nat) (found : Node) : Prop where
  below : node.Above found
  around : found.span.Around start stop
  smallest : start < stop → ∀ other, node.Above other → other.span.Around start stop →
    other.Above found
  touches : start = stop → ∀ child ∈ found.childNodes, child.span.Around start stop →
    child.span.startByte < child.span.endByte ∧ child.span.endByte = start

theorem covers_iff (node : Node) (start stop : Nat) :
    Measure.bytes.covers node.span start stop = true ↔
      start ≤ stop ∧ node.span.Around start stop := by
  rw [Measure.covers, decide_eq_true_iff]
  constructor
  · rintro ⟨ordered, starts, ends⟩
    exact ⟨ordered, starts, ends⟩
  · rintro ⟨ordered, starts, ends⟩
    exact ⟨ordered, starts, ends⟩

/-- A lookup around a range of bytes has an answer just if the node has the range in it, and then
answers with the smallest node around the range. -/
theorem descendantForBytes?_smallest (node : Node) (arranged : node.subtree.Arranged)
    (start stop : Nat) :
    ((node.descendantForBytes? (fun _ => true) start stop).isSome ↔
        start ≤ stop ∧ node.span.Around start stop) ∧
      ∀ found, node.descendantForBytes? (fun _ => true) start stop = some found →
        node.IsSmallestAround start stop found := by
  rw [descendantForBytes?, ← covers_iff]
  refine ⟨by simp, ?_⟩
  intro found answer
  split at answer
  next covered =>
    obtain ⟨_, around⟩ := (covers_iff node start stop).mp covered
    rw [← Option.some_inj.mp answer]
    obtain ⟨onWay, lowest, _⟩ := smallestAround_spec .bytes start stop node fun _ => true
    have below := above_of_mem_searched .bytes start stop onWay
    refine ⟨below, around_of_mem_searched around onWay, ?_, ?_⟩
    · intro filled other above otherAround
      exact lowest other (mem_searched_of_around arranged filled above otherAround) rfl
    · intro empty
      subst empty
      intro child member childAround
      exact touches_of_ended (below.arranged arranged).1
        (searched_smallestAround .bytes start start node) member childAround
  · contradiction

theorem arranged_brokenLine : brokenLine.subtree.Arranged := by
  constructor <;>
    simp [Tree.Nested, brokenLine, SyntaxTree.rootNode, Tree.everywhere_node, Span.within_iff]

theorem brokenLine_smallest :
    brokenLine.subtree.Arranged ∧
      brokenLine.descendantForBytes? (fun _ => true) 1 1 = some brokenLine ∧
      brokenLine.IsSmallestAround 1 1 brokenLine := by
  have answer : brokenLine.descendantForBytes? (fun _ => true) 1 1 = some brokenLine := rfl
  obtain ⟨_, smallest⟩ := descendantForBytes?_smallest brokenLine arranged_brokenLine 1 1
  exact ⟨arranged_brokenLine, answer, smallest brokenLine answer⟩

/-! Named nodes. -/

/-- A lookup of the smallest named node around a range that is not empty always has an answer. It is
the smallest named node around the range if there is one, and otherwise the node where the lookup
starts, although that is not named. -/
theorem descendantForBytes?_named (node : Node) (arranged : node.subtree.Arranged)
    {start stop : Nat} (filled : start < stop) (around : node.span.Around start stop) :
    ∃ found, node.descendantForBytes? (·.isNamed) start stop = some found ∧
      ((∃ other, node.Above other ∧ other.isNamed ∧ other.span.Around start stop) →
        node.Above found ∧ found.isNamed ∧ found.span.Around start stop ∧
          ∀ other, node.Above other → other.isNamed → other.span.Around start stop →
            other.Above found) ∧
      ((∀ other, node.Above other → other.isNamed → ¬other.span.Around start stop) →
        found = node ∧ node.isNamed = false) := by
  have covered := (covers_iff node start stop).mpr ⟨Nat.le_of_lt filled, around⟩
  obtain ⟨onWay, lowest, named⟩ := smallestAround_spec .bytes start stop node (·.isNamed)
  refine ⟨_, by rw [descendantForBytes?, if_pos covered], ?_, ?_⟩
  · rintro ⟨other, above, otherNamed, otherAround⟩
    have passed := mem_searched_of_around arranged filled above otherAround
    refine ⟨above_of_mem_searched .bytes start stop onWay, ?_,
      around_of_mem_searched around onWay, ?_⟩
    · refine named.resolve_right ?_
      rintro ⟨_, unnamed⟩
      rw [unnamed other passed] at otherNamed
      contradiction
    · intro other above otherNamed otherAround
      exact lowest other (mem_searched_of_around arranged filled above otherAround) otherNamed
  · intro nothing
    have unnamed (other : Node) (member : other ∈ node.searched .bytes start stop) :
        ¬other.isNamed := fun otherNamed =>
      nothing other (above_of_mem_searched .bytes start stop member) otherNamed
        (around_of_mem_searched around member)
    refine ⟨(named.resolve_left (unnamed _ onWay)).1, ?_⟩
    exact Bool.eq_false_iff.mpr (unnamed node (self_mem_searched .bytes start stop node))

theorem brokenLine_named :
    brokenLine.subtree.Arranged ∧ 2 < 3 ∧ brokenLine.span.Around 2 3 ∧
      brokenLine.descendantForBytes? (·.isNamed) 2 3 = some brokenLine ∧
      ∀ other, brokenLine.Above other → other.isNamed → other.span.Around 2 3 →
        other.Above brokenLine := by
  have around : brokenLine.span.Around 2 3 := by constructor <;> decide
  obtain ⟨found, answer, smallest, _⟩ :=
    descendantForBytes?_named brokenLine arranged_brokenLine (by decide : 2 < 3) around
  have whole : brokenLine.descendantForBytes? (·.isNamed) 2 3 = some brokenLine := rfl
  rw [whole] at answer
  obtain ⟨_, _, _, lowest⟩ := smallest ⟨brokenLine, .refl brokenLine, rfl, around⟩
  rw [← Option.some_inj.mp answer] at lowest
  exact ⟨arranged_brokenLine, by decide, around, whole, lowest⟩

/-- The operator has no named node in it, and yet the lookup of a named node from there answers, with
the operator itself. -/
theorem operator_answersItself :
    let operator := brokenLine.walk.childNode ⟨1, by decide⟩
    operator.span.Around 2 3 ∧ (∀ other, operator.Above other → ¬other.isNamed) ∧
      operator.descendantForBytes? (·.isNamed) 2 3 = some operator := by
  intro operator
  refine ⟨by constructor <;> decide, ?_, rfl⟩
  intro other above
  have same : other = operator := by
    rcases above_iff.mp above with same | ⟨child, member, _⟩
    · exact same
    · contradiction
  rw [same]
  decide

end Node

end ConcreteSyntax
