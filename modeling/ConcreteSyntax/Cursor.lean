import ConcreteSyntax.Node
import ConcreteSyntax.Row

/-!
Cursors: walks through a subtree that remember the way back up.

The node that a cursor is made from is its root. The cursor never climbs above it and sees no
siblings or field there, whatever the tree holds around it. A move is `none` where it cannot be
made; a named move has an `Outcome`, since it may leave the cursor elsewhere although it fails.
-/

namespace ConcreteSyntax

/-- One step of the way up: the label of the parent, and the siblings on both sides, the nearest
first. -/
structure Frame where
  label : Label
  before : List Tree
  after : List Tree

namespace Frame

def close (frame : Frame) (child : Tree) : Tree :=
  .node frame.label (frame.before.reverse ++ child :: frame.after)

end Frame

structure Cursor where
  tree : SyntaxTree
  base : List Nat
  trail : List Frame
  focus : Tree

namespace Node

def walk (node : Node) : Cursor :=
  ⟨node.tree, node.path, [], node.subtree⟩

end Node

namespace Cursor

def steps (cursor : Cursor) : List Nat :=
  (cursor.trail.map (·.before.length)).reverse

def node (cursor : Cursor) : Node :=
  ⟨cursor.tree, cursor.base ++ cursor.steps, cursor.focus⟩

@[simp] theorem node_walk (start : Node) : start.walk.node = start := by
  simp [node, steps, Node.walk]

def depth (cursor : Cursor) : Nat :=
  cursor.trail.length

/-- The field that the tree has for the node, whatever moves have led to it. -/
def field? (cursor : Cursor) : Option Field :=
  match cursor.trail with
  | [] => none
  | _ :: _ => cursor.focus.label.field

def fieldId (cursor : Cursor) : Nat :=
  (cursor.field?.map (·.id)).getD 0

def fieldName (cursor : Cursor) : Option String :=
  cursor.field?.map (·.name)

def parent? (cursor : Cursor) : Option Cursor :=
  match cursor.trail with
  | [] => none
  | frame :: above => some { cursor with trail := above, focus := frame.close cursor.focus }

def climb (cursor : Cursor) : Nat → Cursor
  | 0 => cursor
  | count + 1 =>
      match cursor.parent? with
      | some parent => parent.climb count
      | none => cursor

def row? (cursor : Cursor) : Option Row :=
  match cursor.trail with
  | [] => none
  | frame :: _ => some ⟨frame.before, cursor.focus, frame.after⟩

def alongside (cursor : Cursor) (row : Row) : Cursor :=
  match cursor.trail with
  | [] => cursor
  | frame :: above =>
      { cursor with trail := ⟨frame.label, row.before, row.after⟩ :: above, focus := row.here }

def inside (cursor : Cursor) (row : Row) : Cursor :=
  { cursor with
    trail := ⟨cursor.focus.label, row.before, row.after⟩ :: cursor.trail, focus := row.here }

def child? (cursor : Cursor) (direction : Direction) : Option Cursor :=
  (Row.start? cursor.focus.children direction).map cursor.inside

def childAt? (cursor : Cursor) (index : Nat) : Option Cursor :=
  (Row.ofIndex? cursor.focus.children index).map cursor.inside

def sibling? (cursor : Cursor) (direction : Direction) : Option Cursor :=
  cursor.row?.bind fun row => (row.step? direction).map cursor.alongside

def firstPast? (cursor : Cursor) (byte : Nat) (point : Point) : Option Nat :=
  cursor.focus.children.findIdx? fun child =>
    byte < child.label.span.endByte && point < child.label.span.endPoint

def firstChildPast? (cursor : Cursor) (byte : Nat) (point : Point) : Option (Nat × Cursor) :=
  (cursor.firstPast? byte point).bind fun index =>
    (cursor.childAt? index).map fun child => (index, child)

/-- The first child past a byte. A child that ends at the start of the text is past none. -/
def firstChildPastByte? (cursor : Cursor) (byte : Nat) : Option (Nat × Cursor) :=
  cursor.firstChildPast? (wrap byte) .zero

def firstChildPastPoint? (cursor : Cursor) (point : Point) : Option (Nat × Cursor) :=
  cursor.firstChildPast? 0 point.reduced

/-- The first named child in a direction. With none, the cursor is left on the last child that
the direction comes to. -/
def namedChild (cursor : Cursor) (direction : Direction) : Outcome Cursor :=
  (Row.startNamed cursor.focus.children direction).map cursor.inside

/-- The nearest named sibling in a direction. With none, the cursor is left on the last sibling
in that direction. -/
def namedSibling (cursor : Cursor) (direction : Direction) : Outcome Cursor :=
  match cursor.row? with
  | none => .unmoved
  | some row => (row.seekNamed direction).map cursor.alongside

def reset (_ : Cursor) (node : Node) : Cursor :=
  node.walk

def resetTo (_ other : Cursor) : Cursor :=
  other

def top (cursor : Cursor) : Cursor :=
  { cursor with
    trail := [], focus := cursor.trail.foldl (fun tree frame => frame.close tree) cursor.focus }

end Cursor

end ConcreteSyntax
