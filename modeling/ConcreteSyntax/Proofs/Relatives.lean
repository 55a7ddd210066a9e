import ConcreteSyntax.Proofs.Confinement
import ConcreteSyntax.Proofs.Drain

/-!
The moves of a cursor against the lookups of the node that it is on.

A cursor remembers the siblings around it, and a node looks them up in its tree, by way of the
parent. For a cursor below a node of a tree both come to the children of one parent, and go through
those ahead in one order.
-/

namespace ConcreteSyntax

namespace Outcome

variable {First Second Place : Type}

def found? : Outcome Place → Option Place
  | found place => some place
  | _ => none

theorem found?_map (outcome : Outcome First) (change : First → Second) :
    (outcome.map change).found? = outcome.found?.map change := by
  cases outcome <;> rfl

theorem found?_seek (accept : Place → Bool) (places : List Place) :
    (seek accept places).found? = places.find? accept := by
  rw [seek]
  cases places.find? accept with
  | some place => rfl
  | none => cases places.getLast? <;> rfl

end Outcome

def Traversal.takes (order : Traversal) (node : Node) : Bool :=
  !order.namedOnly || node.isNamed

/-- Starting from `start` and going on by `next`, one comes to these nodes and then to no more. -/
def Enumerates (next : Node → Option Node) : Option Node → List Node → Prop
  | start, [] => start = none
  | start, node :: rest => start = some node ∧ Enumerates next (next node) rest

theorem enumerates_of_ahead {ahead : Node → List Node} {nodes : List Node}
    (follows : ∀ passed node rest, nodes = passed ++ node :: rest → ahead node = rest)
    (accept : Node → Bool) :
    Enumerates (fun node => (ahead node).find? accept) (nodes.find? accept)
      (nodes.filter accept) := by
  -- the induction is on what is still ahead, with the nodes passed in front of it
  suffices onward : ∀ rest passed, nodes = passed ++ rest →
      Enumerates (fun node => (ahead node).find? accept) (rest.find? accept)
        (rest.filter accept) from onward nodes [] rfl
  intro rest
  induction rest with
  | nil =>
      intro passed split
      rfl
  | cons node rest ih =>
      intro passed split
      have further := ih (passed ++ [node]) (by rw [split]; simp)
      rw [List.find?_cons, List.filter_cons]
      cases accepted : accept node with
      | true =>
          rw [← follows passed node rest split] at further ⊢
          exact ⟨rfl, further⟩
      | false => exact further

namespace Node

/-- The node is one of its tree, and has not been moved by an edit. -/
def InTree (node : Node) : Prop :=
  node.tree.nodeAt? node.path = some node

def ahead (node : Node) : Direction → List Node
  | .forward => node.following
  | .backward => node.preceding

def siblingIn? (order : Traversal) (node : Node) : Option Node :=
  (node.ahead order.direction).find? order.takes

theorem find?_plain (direction : Direction) (nodes : List Node) :
    nodes.find? (Traversal.mk direction false).takes = nodes.head? := by
  cases nodes <;> rfl

theorem siblingIn?_all : siblingIn? .all = nextSibling? :=
  funext fun node => find?_plain .forward node.following

theorem siblingIn?_allReverse : siblingIn? .allReverse = previousSibling? :=
  funext fun node => find?_plain .backward node.preceding

theorem parent?_below {parent : Node} (placed : parent.InTree) (index : Nat) (child : Tree) :
    (parent.below index child).parent? = some parent := by
  have filled : (parent.below index child).path ≠ [] := by simp [below]
  obtain ⟨first, rest, path⟩ := List.exists_cons_of_ne_nil filled
  have back : (parent.below index child).path.dropLast = parent.path := List.dropLast_concat
  rw [parent?, path]
  simp only
  rw [← path, back]
  exact placed

theorem position?_below (parent : Node) (index : Nat) (child : Tree) :
    (parent.below index child).position? = some index :=
  List.getLast?_concat

theorem head?_childNodes (node : Node) : (node.childNodesIn .all).head? = node.child? 0 := by
  rw [child?_eq_getElem?]
  exact List.head?_eq_getElem?

theorem last_childNodes (node : Node) (counted : node.childCount < 0x100000000) :
    (node.childNodesIn .allReverse).head? = node.child? (node.childCount - 1) := by
  have index : wrap (node.childCount - 1) = node.childCount - 1 :=
    wrap_eq_self_iff.mpr (by omega)
  rw [child?_eq_getElem?, index, ← length_childNodes, ← List.getLast?_eq_getElem?]
  exact List.head?_reverse

theorem head?_namedChildNodes (node : Node) :
    (node.childNodesIn .named).head? = node.namedChild? 0 :=
  List.head?_eq_getElem?

theorem last_namedChildNodes (node : Node) (counted : node.childCount < 0x100000000) :
    (node.childNodesIn .namedReverse).head? = node.namedChild? (node.namedChildCount - 1) := by
  have fewer : node.namedChildCount ≤ node.childCount := List.countP_le_length
  have index : wrap (node.namedChildCount - 1) = node.namedChildCount - 1 :=
    wrap_eq_self_iff.mpr (by omega)
  rw [namedChild?, index, ← length_namedChildNodes, ← List.getLast?_eq_getElem?]
  exact List.head?_reverse

theorem children_eq (node : Node) : node.children = node.childNodesIn .all := by
  rw [children, iterate, node.walk.items_drain, Cursor.node_walk]

theorem namedChildren_eq (node : Node) : node.namedChildren = node.childNodesIn .named := by
  rw [namedChildren, iterate, node.walk.items_drain, Cursor.node_walk]

end Node

namespace Cursor

variable (parent : Cursor)

theorem ahead_childNode (placed : parent.node.InTree)
    (index : Fin parent.focus.children.length) (direction : Direction) :
    (parent.childNode index).ahead direction =
      (routeFrom index direction).map parent.childNode := by
  have up := Node.parent?_below placed index parent.focus.children[index]
  have place := parent.node.position?_below index parent.focus.children[index]
  cases direction with
  | forward =>
      simp only [Node.ahead, Node.following, childNode, up, place]
      rw [routeFrom, List.map_drop, childNodes_node]
  | backward =>
      simp only [Node.ahead, Node.preceding, childNode, up, place]
      rw [routeFrom, List.map_reverse, List.map_take, childNodes_node]

theorem found?_proceed (placed : parent.node.InTree) (index : Fin parent.focus.children.length)
    (order : Traversal) :
    ((parent.onChild index).proceed order).found?.map (·.node) =
      (parent.childNode index).siblingIn? order := by
  rw [proceed_onChild, Outcome.found?_map, Outcome.found?_seek, Node.siblingIn?,
    ahead_childNode parent placed, List.find?_map, Option.map_map]
  congr 1
  funext other
  exact parent.node_onChild other

theorem fieldName_onChild (index : Fin parent.focus.children.length) :
    (parent.onChild index).fieldName = parent.node.fieldNameForChild? index := by
  rw [Node.fieldNameForChild?, childNodes_node, List.getElem?_map,
    List.getElem?_eq_getElem (by simp), List.getElem_finRange]
  rfl

theorem filter_route (order : Traversal) :
    ((route parent.focus.children.length order.direction).map parent.childNode).filter
        order.takes =
      parent.node.childNodesIn order := by
  rw [List.filter_map, ← parent.map_taken order]
  rfl

theorem found?_enter (order : Traversal) :
    (parent.enter order).found?.map (·.node) = (parent.node.childNodesIn order).head? := by
  rw [enter_eq, Outcome.found?_map, Outcome.found?_seek, ← filter_route, List.head?_filter,
    List.find?_map, Option.map_map]
  congr 1
  funext index
  exact parent.node_onChild index

theorem enumerates_siblings (placed : parent.node.InTree) (order : Traversal) :
    Enumerates (Node.siblingIn? order) (parent.node.childNodesIn order).head?
      (parent.node.childNodesIn order) := by
  rw [← filter_route, List.head?_filter]
  apply enumerates_of_ahead
  intro passed node rest split
  obtain ⟨before, others, whole, _, same⟩ := List.map_eq_append_iff.mp split
  obtain ⟨index, after, items, rfl, rfl⟩ := List.map_eq_cons_iff.mp same
  rw [items] at whole
  rw [parent.ahead_childNode placed, routeFrom_of_split whole]

end Cursor

namespace CountingCursor

def goal? (cursor : CountingCursor) (call : CursorCall) : Option Node :=
  (cursor.perform call).found?.map (·.place.node)

theorem goal?_enter (cursor : CountingCursor) (order : Traversal) :
    cursor.goal? (.enter order) = (cursor.place.node.childNodesIn order).head? := by
  rw [goal?, perform, enter, Outcome.found?_map, Option.map_map]
  exact cursor.place.found?_enter order

theorem goal?_proceed {parent : Cursor} (placed : parent.node.InTree)
    (index : Fin parent.focus.children.length) (counts : List Nat) (order : Traversal) :
    goal? ⟨parent.onChild index, counts⟩ (.proceed order) =
      (parent.childNode index).siblingIn? order := by
  rw [goal?, perform, proceed, Outcome.found?_map, Option.map_map]
  exact parent.found?_proceed placed index order

theorem goal?_parent (parent : Cursor) (index : Fin parent.focus.children.length)
    (counts : List Nat) : goal? ⟨parent.onChild index, counts⟩ .parent = some parent.node := by
  rw [goal?, perform, parent?, Cursor.parent?_onChild]
  rfl

/-- The moves between a node and its relatives in the tree are the lookups from the node. -/
structure AgreesAround (cursor : CountingCursor) (node : Node) : Prop where
  parent : cursor.goal? .parent = node.parent?
  next : cursor.goal? (.proceed .all) = node.nextSibling?
  previous : cursor.goal? (.proceed .allReverse) = node.previousSibling?
  nextNamed : cursor.goal? (.proceed .named) = node.nextNamedSibling?
  previousNamed : cursor.goal? (.proceed .namedReverse) = node.previousNamedSibling?
  field : ∃ parent index, node.parent? = some parent ∧ node.position? = some index ∧
    parent.childNodes[index]? = some node ∧
    cursor.place.fieldName = parent.fieldNameForChild? index

/-- The moves into the children are the lookups by number, and the siblings of the children are
the children. The number of children is a 32-bit counter. -/
structure AgreesInside (cursor : CountingCursor) (node : Node) : Prop where
  first : cursor.goal? (.enter .all) = node.child? 0
  last : node.childCount < 0x100000000 →
    cursor.goal? (.enter .allReverse) = node.child? (node.childCount - 1)
  enters : ∀ direction, (cursor.goal? (.enter ⟨direction, false⟩)).isSome ↔ 0 < node.childCount
  forward : Enumerates Node.nextSibling? (node.child? 0) node.children
  backward : node.childCount < 0x100000000 →
    Enumerates Node.previousSibling? (node.child? (node.childCount - 1)) node.children.reverse
  namedForward : Enumerates Node.nextNamedSibling? (node.namedChild? 0) node.namedChildren
  namedBackward : node.childCount < 0x100000000 →
    Enumerates Node.previousNamedSibling? (node.namedChild? (node.namedChildCount - 1))
      node.namedChildren.reverse

theorem agreesAround_onChild {parent : Cursor} (placed : parent.node.InTree)
    (index : Fin parent.focus.children.length) (counts : List Nat) :
    AgreesAround ⟨parent.onChild index, counts⟩ (parent.childNode index) := by
  have up : (parent.childNode index).parent? = some parent.node :=
    Node.parent?_below placed index parent.focus.children[index]
  have among : parent.node.childNodes[(index : Nat)]? = some (parent.childNode index) := by
    simp [parent.childNodes_node]
  constructor
  · rw [goal?_parent, up]
  · rw [goal?_proceed placed, Node.siblingIn?_all]
  · rw [goal?_proceed placed, Node.siblingIn?_allReverse]
  · exact goal?_proceed placed index counts .named
  · exact goal?_proceed placed index counts .namedReverse
  · refine ⟨parent.node, index, up, ?_, among, parent.fieldName_onChild index⟩
    exact parent.node.position?_below index _

theorem agreesInside (cursor : CountingCursor) (placed : cursor.place.node.InTree) :
    cursor.AgreesInside cursor.place.node := by
  have siblings := cursor.place.enumerates_siblings placed
  constructor
  · rw [goal?_enter, Node.head?_childNodes]
  · intro counted
    rw [goal?_enter, Node.last_childNodes _ counted]
  · intro direction
    rw [goal?_enter, ← Node.length_childNodes, List.isSome_head?, Node.childNodesIn]
    cases direction <;> simp [List.length_pos_iff]
  · rw [Node.children_eq, ← Node.head?_childNodes, ← Node.siblingIn?_all]
    exact siblings .all
  · intro counted
    rw [Node.children_eq, ← Node.last_childNodes _ counted, ← Node.siblingIn?_allReverse]
    exact siblings .allReverse
  · rw [Node.namedChildren_eq, ← Node.head?_namedChildNodes]
    exact siblings .named
  · intro counted
    rw [Node.namedChildren_eq, ← Node.last_namedChildNodes _ counted]
    exact siblings .namedReverse

end CountingCursor

theorem Kept.inTree {lost : LostCount} {root : Node} {marks : List Bool} {cursor : CountingCursor}
    (kept : Kept lost root marks cursor) (placed : root.InTree) : cursor.place.node.InTree := by
  have here := kept.treeNodeAt? placed
  have tree : cursor.place.node.tree = root.tree := kept.place_root.1
  rwa [← tree] at here

/-- Below a node of a tree, whatever has been done with a cursor, its moves go where the lookups
from its node go, and fail where they find nothing. -/
theorem Reached.agrees {lost : LostCount} {root : Node} {marks : List Bool}
    {cursor : CountingCursor} (reached : Reached lost root marks cursor) (placed : root.InTree) :
    (0 < cursor.place.depth → cursor.AgreesAround cursor.place.node) ∧
      cursor.AgreesInside cursor.place.node := by
  have kept := reached.kept
  refine ⟨?_, cursor.agreesInside (kept.inTree placed)⟩
  intro below
  cases kept with
  | root => contradiction
  | @child marks parent above index mark count counted =>
      rw [Cursor.node_onChild]
      exact CountingCursor.agreesAround_onChild (above.inTree placed) index _

theorem lastOperand_agrees :
    let cursor := (comparison.walkCounting.perform (.enter .allReverse)).place
      comparison.walkCounting
    Reached .any comparison [false] cursor ∧ comparison.InTree ∧ 0 < cursor.place.depth ∧
      cursor.AgreesAround cursor.place.node ∧ cursor.AgreesInside cursor.place.node := by
  intro cursor
  have reached : Reached .any comparison [false] cursor :=
    .call (.enter .allReverse) (.walk comparison)
  have below : 0 < cursor.place.depth := by decide
  have agrees := Reached.agrees reached rfl
  exact ⟨reached, rfl, below, agrees.1 below, agrees.2⟩

end ConcreteSyntax
