import ConcreteSyntax.Proofs.CursorRun

/-!
Cursors never leave the subtree of their root.

Whatever is done with a cursor, it stands on a node below the node that it was last given, in the
tree of that node, and its way up ends there.
-/

namespace ConcreteSyntax

def Node.nodeAt? (node : Node) (path : List Nat) : Option Node :=
  (node.subtree.subtreeAt? path).map (⟨node.tree, node.path ++ path, ·⟩)

theorem Node.nodeAt?_nil (node : Node) : node.nodeAt? [] = some node := by
  rw [Node.nodeAt?, Tree.subtreeAt?, Option.map_some, List.append_nil]

theorem Node.nodeAt?_cons (node : Node) (index : Nat) (path : List Nat) :
    node.nodeAt? (index :: path) = (node.childNodes[index]?).bind (·.nodeAt? path) := by
  rw [Node.nodeAt?, Tree.subtreeAt?, Node.childNodes, List.getElem?_mapIdx, Option.map_bind,
    Option.bind_map]
  congr 1
  funext child
  simp [Node.nodeAt?, Node.below]

namespace Kept

variable {lost : LostCount} {root : Node} {marks : List Bool} {cursor : CountingCursor}

theorem subtreeAt? (kept : Kept lost root marks cursor) :
    root.subtree.subtreeAt? cursor.place.steps = some cursor.place.focus := by
  induction kept with
  | root => rfl
  | child above index mark count counted ih =>
      rw [Cursor.steps_onChild, Tree.subtreeAt?_append, ih, Option.bind_some, Tree.subtreeAt?_cons]
      exact ⟨_, List.getElem?_eq_getElem index.isLt, rfl⟩

theorem place_root (kept : Kept lost root marks cursor) :
    cursor.place.tree = root.tree ∧ cursor.place.base = root.path := by
  induction kept with
  | root => exact ⟨rfl, rfl⟩
  | child above index mark count counted ih => exact ih

theorem nodeAt? (kept : Kept lost root marks cursor) :
    root.nodeAt? cursor.place.steps = some cursor.place.node := by
  obtain ⟨tree, base⟩ := kept.place_root
  rw [Node.nodeAt?, kept.subtreeAt?, Option.map_some, Cursor.node, tree, base]

theorem treeNodeAt? (kept : Kept lost root marks cursor)
    (placed : root.tree.nodeAt? root.path = some root) :
    root.tree.nodeAt? cursor.place.node.path = some cursor.place.node := by
  obtain ⟨tree, base⟩ := kept.place_root
  obtain ⟨subtree, here, same⟩ := Option.map_eq_some_iff.mp placed
  have whole : subtree = root.subtree := congrArg Node.subtree same
  rw [whole] at here
  rw [SyntaxTree.nodeAt?, Cursor.node, tree, base, Tree.subtreeAt?_append, here, Option.bind_some,
    kept.subtreeAt?, Option.map_some]

theorem climb (kept : Kept lost root marks cursor) (levels : Nat) :
    Kept lost root (marks.drop levels) ⟨cursor.place.climb levels, cursor.counts.drop levels⟩ := by
  induction levels generalizing cursor marks with
  | zero => exact kept
  | succ levels ih =>
      cases kept with
      | root => exact .root
      | child above index mark count counted =>
          simp only [Cursor.climb, Cursor.parent?_onChild, List.drop_succ_cons]
          exact ih above

theorem top (kept : Kept lost root marks cursor) : cursor.place.top = root.walk := by
  induction kept with
  | root => rfl
  | child above index mark count counted ih => rw [Cursor.top_onChild, ih]

theorem node_beq_root_iff (kept : Kept lost root marks cursor) :
    (cursor.place.node == root) = true ↔ cursor.place.depth = 0 := by
  obtain ⟨tree, base⟩ := kept.place_root
  rw [Node.beq_iff_identity, Node.identity, Node.identity, Cursor.node, tree, base,
    ← Cursor.length_steps, List.length_eq_zero_iff]
  simp

end Kept

theorem Outcome.place_ofOption_of_not_found {Place : Type} {start : Place} {place : Option Place}
    (failed : (ofOption place).isFound = false) : (ofOption place).place start = start := by
  cases place with
  | none => rfl
  | some place => contradiction

namespace CountingCursor

theorem perform_of_isPlain (cursor : CountingCursor) {call : CursorCall} (plain : call.isPlain) :
    ∃ place, cursor.perform call = .ofOption place := by
  cases call with
  | parent => exact ⟨_, rfl⟩
  | enter order =>
      have anyNode : order.namedOnly = false := by simpa [CursorCall.isPlain] using plain
      rw [perform, enter, Cursor.enter, anyNode, if_neg (by simp), Outcome.map_ofOption]
      exact ⟨_, rfl⟩
  | proceed order =>
      have anyNode : order.namedOnly = false := by simpa [CursorCall.isPlain] using plain
      rw [perform, proceed, Cursor.proceed, anyNode, if_neg (by simp), Outcome.map_ofOption]
      exact ⟨_, rfl⟩
  | descendant index => exact ⟨some (cursor.descendant index), rfl⟩
  | firstChildPastByte byte => exact ⟨_, rfl⟩
  | firstChildPastPoint point => exact ⟨_, rfl⟩

end CountingCursor

/-- What confines a cursor to a root. A clone or an edited copy of a tree is another tree, with an
identity of its own. -/
structure Confined (root : Node) (cursor : CountingCursor) : Prop where
  top : cursor.place.top = root.walk
  climbs : cursor.place.climb cursor.place.depth = root.walk
  inside : root.nodeAt? cursor.place.steps = some cursor.place.node
  inTree : root.tree.nodeAt? root.path = some root →
    root.tree.nodeAt? cursor.place.node.path = some cursor.place.node
  distance : cursor.place.node.path.length = root.path.length + cursor.place.depth
  same : ∀ handle : Node, (cursor.place.node == handle) = true ↔
    handle.tree.id = root.tree.id ∧ handle.path = root.path ++ cursor.place.steps
  up : (cursor.perform .parent).isFound = false ↔ (cursor.place.node == root) = true
  atRoot : (cursor.place.node == root) = true →
    (∀ order, cursor.perform (.proceed order) = .unmoved) ∧
      cursor.place.fieldId = 0 ∧ cursor.place.fieldName = none
  failed : ∀ call : CursorCall, call.isPlain → (cursor.perform call).isFound = false →
    (cursor.perform call).place cursor = cursor

/-- Whatever is done with cursors, each is confined to the node that it was made from or last reset
to. -/
theorem Reached.confined {lost : LostCount} {root : Node} {marks : List Bool}
    {cursor : CountingCursor} (reached : Reached lost root marks cursor) :
    Confined root cursor := by
  have kept := reached.kept
  obtain ⟨tree, base⟩ := kept.place_root
  refine ⟨kept.top, ?_, kept.nodeAt?, kept.treeNodeAt?, ?_, ?_, ?_, ?_, ?_⟩
  · rw [Cursor.climb_depth, kept.top]
  · rw [Cursor.node, List.length_append, base, Cursor.length_steps]
  · intro handle
    rw [Node.beq_iff_identity, Node.identity, Node.identity, Cursor.node, tree, base,
      Prod.mk.injEq]
    exact and_congr eq_comm eq_comm
  · rw [kept.node_beq_root_iff]
    cases kept with
    | root => exact ⟨fun _ => rfl, fun _ => rfl⟩
    | child above index mark count counted =>
        simp [CountingCursor.perform, CountingCursor.parent?, Outcome.ofOption, Outcome.isFound]
  · rw [kept.node_beq_root_iff]
    intro top
    have nothing : cursor.place.field? = none := by
      rw [Cursor.field?, List.length_eq_zero_iff.mp top]
    refine ⟨fun order => ?_, ?_, ?_⟩
    · rw [CountingCursor.perform, CountingCursor.proceed, Cursor.proceed_of_depth_zero top]
      rfl
    · rw [Cursor.fieldId, nothing]
      rfl
    · rw [Cursor.fieldName, nothing]
      rfl
  · intro call plain failed
    obtain ⟨place, same⟩ := cursor.perform_of_isPlain plain
    rw [same] at failed ⊢
    exact Outcome.place_ofOption_of_not_found failed

/-- The tree of the text `x < 5`. -/
def comparison : Node :=
  let operator : Label :=
    { kindId := 39, kind := "<", grammarId := 39, grammarName := "<", isNamed := false,
      isExtra := false, isError := false, isMissing := false, hasChanges := false,
      hasError := false, field := some ⟨26, "operator"⟩, span := ⟨2, 3, ⟨0, 2⟩, ⟨0, 3⟩⟩,
      firstChar := some '<' }
  let left : Label :=
    { operator with
      kindId := 1, kind := "identifier", grammarId := 1, grammarName := "identifier",
      isNamed := true, field := some ⟨22, "left"⟩, span := ⟨0, 1, ⟨0, 0⟩, ⟨0, 1⟩⟩,
      firstChar := some 'x' }
  let right : Label :=
    { operator with
      kindId := 141, kind := "number_literal", grammarId := 141, grammarName := "number_literal",
      isNamed := true, field := some ⟨32, "right"⟩, span := ⟨4, 5, ⟨0, 4⟩, ⟨0, 5⟩⟩,
      firstChar := some '5' }
  let whole : Label :=
    { left with
      kindId := 290, kind := "binary_expression", grammarId := 290,
      grammarName := "binary_expression", field := none, span := ⟨0, 5, ⟨0, 0⟩, ⟨0, 5⟩⟩ }
  SyntaxTree.rootNode ⟨0, .node whole [.node left [], .node operator [], .node right []]⟩

theorem operator_confined :
    let operator := comparison.walk.childNode ⟨1, by decide⟩
    let clone : Node := { operator with tree := ⟨1, comparison.subtree⟩ }
    let cursor := (comparison.walkCounting.perform (.enter .named)).place comparison.walkCounting
    let other := (clone.walkCounting.perform (.proceed .named)).place clone.walkCounting
    Reached .any clone [] (cursor.resetTo other) ∧ Confined clone (cursor.resetTo other) := by
  intro operator clone cursor other
  have reached : Reached .any clone [] (cursor.resetTo other) :=
    .resetTo (.call (.enter .named) (.walk comparison)) (.call (.proceed .named) (.walk clone))
  exact ⟨reached, Reached.confined reached⟩

end ConcreteSyntax
