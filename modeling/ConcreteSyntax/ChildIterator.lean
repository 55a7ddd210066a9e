import ConcreteSyntax.Cursor

/-!
Iteration over the children of the node that a cursor stands on, in four orders.

The first step of a pass enters the children and later steps go from sibling to sibling, so the
orders may be mixed. If the first step finds no children, the pass stays on the parent and later
steps find nothing.
-/

namespace ConcreteSyntax

structure Traversal where
  direction : Direction
  namedOnly : Bool
deriving DecidableEq

namespace Traversal

def all : Traversal := ⟨.forward, false⟩

def allReverse : Traversal := ⟨.backward, false⟩

def named : Traversal := ⟨.forward, true⟩

def namedReverse : Traversal := ⟨.backward, true⟩

end Traversal

namespace Cursor

def enter (cursor : Cursor) (order : Traversal) : Outcome Cursor :=
  if order.namedOnly then cursor.namedChild order.direction
  else .ofOption (cursor.child? order.direction)

def proceed (cursor : Cursor) (order : Traversal) : Outcome Cursor :=
  if order.namedOnly then cursor.namedSibling order.direction
  else .ofOption (cursor.sibling? order.direction)

end Cursor

structure ChildIterator where
  cursor : Cursor
  parentDepth : Nat
  /-- No step has been taken in this pass. -/
  initial : Bool

namespace Cursor

def iterate (cursor : Cursor) : ChildIterator :=
  ⟨cursor, cursor.depth, true⟩

end Cursor

namespace ChildIterator

def move (iterator : ChildIterator) (order : Traversal) : Outcome Cursor :=
  if iterator.initial then iterator.cursor.enter order
  else if iterator.parentDepth < iterator.cursor.depth then iterator.cursor.proceed order
  else .unmoved

def advance (iterator : ChildIterator) (order : Traversal) : ChildIterator :=
  { iterator with cursor := (iterator.move order).place iterator.cursor, initial := false }

def finds (iterator : ChildIterator) (order : Traversal) : Bool :=
  (iterator.move order).isFound

def next? (iterator : ChildIterator) (order : Traversal) : Option Node :=
  if iterator.finds order then some (iterator.advance order).cursor.node else none

def landing? (iterator : ChildIterator) (order : Traversal) : Option Cursor :=
  (iterator.move order).landed?

def reset (iterator : ChildIterator) : ChildIterator :=
  { iterator with
    cursor := iterator.cursor.climb (iterator.cursor.depth - iterator.parentDepth)
    initial := true }

/-- Several steps in one order: the places of the nodes found, where a last step that found
nothing has landed, and the iterator afterwards. -/
structure Run where
  stops : List Cursor
  landing : Option Cursor
  last : ChildIterator

def Run.items (run : Run) : List Node :=
  run.stops.map (·.node)

def run (iterator : ChildIterator) (order : Traversal) : Nat → Run
  | 0 => ⟨[], none, iterator⟩
  | count + 1 =>
      let after := iterator.advance order
      if iterator.finds order then
        let rest := after.run order count
        { rest with stops := after.cursor :: rest.stops }
      else ⟨[], iterator.landing? order, after⟩

def room (iterator : ChildIterator) : Nat :=
  iterator.cursor.focus.children.length +
    (iterator.cursor.row?.map (·.trees.length)).getD 0 + 1

def drain (iterator : ChildIterator) (order : Traversal) : Run :=
  iterator.run order iterator.room

end ChildIterator

namespace Node

def iterate (node : Node) : ChildIterator :=
  node.walk.iterate

def children (node : Node) : List Node :=
  (node.iterate.drain .all).items

def namedChildren (node : Node) : List Node :=
  (node.iterate.drain .named).items

def childrenByFieldName (node : Node) (name : String) : List Node :=
  ((node.iterate.drain .all).stops.filter (·.fieldName = some name)).map (·.node)

end Node

end ConcreteSyntax
