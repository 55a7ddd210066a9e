import ConcreteSyntax.Tree

/-!
Nodes: places in a tree, and the lookups that start from them.

A node holds its address and the subtree found there. Lookups downwards use the subtree, so
they follow a node whose positions have been moved. The parent and the siblings are looked up
in the tree itself. An index is a 32-bit counter, and is reduced before use.

An edit of a node places its start anew. The node keeps its extent, so its end and everything
below it move along; its place in the tree, and with it its identity, stays.
-/

namespace ConcreteSyntax

namespace Label

def moved (label : Label) (byte : Nat) (point : Point) (newByte : Nat) (newPoint : Point) : Label :=
  { label with span := label.span.moved byte point newByte newPoint }

end Label

structure Node where
  tree : SyntaxTree
  path : List Nat
  subtree : Tree

namespace SyntaxTree

def rootNode (tree : SyntaxTree) : Node :=
  ⟨tree, [], tree.root⟩

def nodeAt? (tree : SyntaxTree) (path : List Nat) : Option Node :=
  (tree.root.subtreeAt? path).map (⟨tree, path, ·⟩)

def nodeOfIndex? (tree : SyntaxTree) (index : Nat) : Option Node :=
  (tree.root.pathAt? index).bind tree.nodeAt?

end SyntaxTree

namespace Node

def identity (node : Node) : Nat × List Nat :=
  (node.tree.id, node.path)

instance : BEq Node where
  beq first second := first.identity == second.identity

theorem beq_iff_identity (first second : Node) :
    (first == second) = true ↔ first.identity = second.identity := by
  change (first.identity == second.identity) = true ↔ _
  exact beq_iff_eq

instance : EquivBEq Node where
  symm same := by
    rw [beq_iff_identity] at same ⊢
    exact same.symm
  trans left right := by
    rw [beq_iff_identity] at left right ⊢
    exact left.trans right
  rfl := by
    intro node
    rw [beq_iff_identity]

instance : Hashable Node where
  hash node := hash node.identity

instance : LawfulHashable Node where
  hash_eq first second same := by
    rw [beq_iff_identity] at same
    change hash first.identity = hash second.identity
    rw [same]

def distinct (nodes : List Node) : List Node :=
  nodes.eraseDups

def label (node : Node) : Label :=
  node.subtree.label

def isNamed (node : Node) : Bool :=
  node.label.isNamed

def span (node : Node) : Span :=
  node.label.span

def index (node : Node) : Nat :=
  node.tree.root.indexAt node.path

def below (node : Node) (index : Nat) (child : Tree) : Node :=
  ⟨node.tree, node.path ++ [index], child⟩

def childNodes (node : Node) : List Node :=
  node.subtree.children.mapIdx node.below

theorem size_lt_of_mem_childNodes {node child : Node} (member : child ∈ node.childNodes) :
    child.subtree.size < node.subtree.size := by
  obtain ⟨index, bound, same⟩ := List.mem_iff_getElem.mp member
  simp only [childNodes, List.getElem_mapIdx] at same
  subst same
  exact Tree.size_lt_of_mem_children (List.getElem_mem _)

def childCount (node : Node) : Nat :=
  node.subtree.children.length

theorem length_childNodes (node : Node) : node.childNodes.length = node.childCount :=
  List.length_mapIdx

def namedChildCount (node : Node) : Nat :=
  node.subtree.children.countP (·.isNamed)

def child? (node : Node) (index : Nat) : Option Node :=
  (node.subtree.children[wrap index]?).map (node.below (wrap index))

theorem child?_eq_getElem? (node : Node) (index : Nat) :
    node.child? index = node.childNodes[wrap index]? := by
  rw [child?, childNodes, List.getElem?_mapIdx]

def namedChild? (node : Node) (index : Nat) : Option Node :=
  (node.childNodes.filter (·.isNamed))[wrap index]?

def childByFieldName? (node : Node) (name : String) : Option Node :=
  node.childNodes.find? (·.label.fieldName = some name)

/-- The first child in a field given by its identifier. No field has the identifier zero. -/
def childByFieldId? (node : Node) (id : Nat) : Option Node :=
  if id = 0 then none else node.childNodes.find? (·.label.fieldId = id)

def fieldNameForChild? (node : Node) (index : Nat) : Option String :=
  (node.childNodes[index]?).bind (·.label.fieldName)

def fieldNameForNamedChild? (node : Node) (index : Nat) : Option String :=
  ((node.childNodes.filter (·.isNamed))[index]?).bind (·.label.fieldName)

def parent? (node : Node) : Option Node :=
  match node.path with
  | [] => none
  | _ :: _ => node.tree.nodeAt? node.path.dropLast

def position? (node : Node) : Option Nat :=
  node.path.getLast?

def following (node : Node) : List Node :=
  match node.parent?, node.position? with
  | some parent, some position => parent.childNodes.drop (position + 1)
  | _, _ => []

def preceding (node : Node) : List Node :=
  match node.parent?, node.position? with
  | some parent, some position => (parent.childNodes.take position).reverse
  | _, _ => []

def nextSibling? (node : Node) : Option Node :=
  node.following.head?

def previousSibling? (node : Node) : Option Node :=
  node.preceding.head?

def nextNamedSibling? (node : Node) : Option Node :=
  node.following.find? (·.isNamed)

def previousNamedSibling? (node : Node) : Option Node :=
  node.preceding.find? (·.isNamed)

/-- The bytes of a source that the node spans. Both ends are brought inside the source. -/
def rawText (node : Node) (source : Array UInt8) : Array UInt8 :=
  let stop := min node.span.endByte source.size
  let start := min node.span.startByte stop
  source.extract start stop

def display (node : Node) : String :=
  let start := node.span.startPoint
  let stop := node.span.endPoint
  node.label.kind ++ " [" ++ toString start.row ++ ":" ++ toString start.column ++ " - " ++
    toString stop.row ++ ":" ++ toString stop.column ++ "]"

def reference (node : Node) : String :=
  toString node.tree.id ++ "#" ++ toString node.index ++ " " ++ node.display

def edit (node : Node) (change : Edit) : Node :=
  let start := change.place node.span.startByte node.span.startPoint
  { node with
    subtree := node.subtree.map fun label =>
      label.moved node.span.startByte node.span.startPoint start.1 start.2 }

end Node

end ConcreteSyntax
