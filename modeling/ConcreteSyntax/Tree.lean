import ConcreteSyntax.Position

/-!
Concrete syntax trees: labels, trees, addresses in them and the order in which their nodes are
counted.

An address is the list of child indices that leads to a node from the root. Nodes are counted
in pre-order, so `pathAt?` and `indexAt` take a count to an address and back.
-/

namespace ConcreteSyntax

structure Field where
  id : Nat
  name : String
deriving DecidableEq

structure Label where
  kindId : Nat
  /-- The kind after aliasing. A token that stands for itself has its text as its kind. -/
  kind : String
  grammarId : Nat
  grammarName : String
  isNamed : Bool
  isExtra : Bool
  isError : Bool
  isMissing : Bool
  hasChanges : Bool
  hasError : Bool
  field : Option Field
  span : Span
  /-- The character of the source where the node starts; `none` if none can be read there. -/
  firstChar : Option Char
deriving DecidableEq

namespace Label

def fieldName (label : Label) : Option String :=
  label.field.map (·.name)

def fieldId (label : Label) : Nat :=
  (label.field.map (·.id)).getD 0

end Label

inductive Tree where
  | node (label : Label) (children : List Tree)

namespace Tree

def label : Tree → Label
  | node label _ => label

def children : Tree → List Tree
  | node _ children => children

@[simp] theorem label_node (label : Label) (children : List Tree) :
    (node label children).label = label := rfl

@[simp] theorem children_node (label : Label) (children : List Tree) :
    (node label children).children = children := rfl

def isNamed (tree : Tree) : Bool :=
  tree.label.isNamed

mutual

def size : Tree → Nat
  | node _ children => forestSize children + 1

def forestSize : List Tree → Nat
  | [] => 0
  | tree :: rest => tree.size + forestSize rest

end

theorem size_pos (tree : Tree) : 0 < tree.size := by
  cases tree
  simp [size]

theorem size_le_forestSize {tree : Tree} {trees : List Tree} (member : tree ∈ trees) :
    tree.size ≤ forestSize trees := by
  induction trees with
  | nil => simp at member
  | cons first rest ih =>
      simp only [forestSize]
      rcases List.mem_cons.mp member with same | later
      · subst same
        omega
      · have bound := ih later
        omega

theorem size_lt_of_mem_children {tree child : Tree} (member : child ∈ tree.children) :
    child.size < tree.size := by
  cases tree with
  | node label children =>
      have bound := size_le_forestSize member
      simp only [children_node] at bound
      simp only [size]
      omega

mutual

def map (change : Label → Label) : Tree → Tree
  | node label children => node (change label) (mapForest change children)

def mapForest (change : Label → Label) : List Tree → List Tree
  | [] => []
  | tree :: rest => tree.map change :: mapForest change rest

end

def subtreeAt? (tree : Tree) : List Nat → Option Tree
  | [] => some tree
  | index :: path => tree.children[index]?.bind (·.subtreeAt? path)

def indexAt (tree : Tree) : List Nat → Nat
  | [] => 0
  | index :: path =>
      1 + forestSize (tree.children.take index) +
        (tree.children[index]?.map (·.indexAt path)).getD 0

mutual

/-- The address of the node with the given pre-order count. -/
def pathAt? : Tree → Nat → Option (List Nat)
  | node _ _, 0 => some []
  | node _ children, index + 1 => forestPathAt? children index 0

def forestPathAt? : List Tree → Nat → Nat → Option (List Nat)
  | [], _, _ => none
  | tree :: rest, index, position =>
      if index < tree.size then (tree.pathAt? index).map (position :: ·)
      else forestPathAt? rest (index - tree.size) (position + 1)

end

end Tree

/-- A tree together with its identity. Two trees with one content are still two trees. -/
structure SyntaxTree where
  id : Nat
  root : Tree

end ConcreteSyntax
