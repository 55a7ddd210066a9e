import ConcreteSyntax.ChildIterator

/-!
Cursors that keep count of the nodes on their way, and jumps to a node by its count.

Nodes are counted in pre-order below the root of the cursor. A move into the children or forward
carries the count on by the trees that it passes. A step backward keeps no count: it takes the node
that it comes to for number zero, and moves from there carry on from that, until the cursor goes
back up to the parent. The number is no more than a choice.
-/

namespace ConcreteSyntax

namespace Cursor

def before (cursor : Cursor) : List Tree :=
  (cursor.row?.map (·.before)).getD []

def isLast (cursor : Cursor) : Bool :=
  ((cursor.row?.map (·.after)).getD []).isEmpty

end Cursor

structure CountingCursor where
  place : Cursor
  /-- The counts of the nodes from the present one up to the root, without the root. -/
  counts : List Nat

namespace Node

def walkCounting (node : Node) : CountingCursor :=
  ⟨node.walk, []⟩

end Node

namespace CountingCursor

def count (cursor : CountingCursor) : Nat :=
  cursor.counts.headD 0

def inside (cursor : CountingCursor) (direction : Direction) (child : Cursor) : CountingCursor :=
  -- the last child is entered at once, and any other from behind by steps backward
  let lost := direction = .backward ∧ ¬child.isLast
  let counted := cursor.count + 1 + Tree.forestSize child.before
  ⟨child, (if lost then 0 else counted) :: cursor.counts⟩

def alongside (cursor : CountingCursor) (direction : Direction) (sibling : Cursor) :
    CountingCursor :=
  let counted :=
    match direction with
    | .forward =>
        cursor.count + (Tree.forestSize sibling.before - Tree.forestSize cursor.place.before)
    | .backward => 0
  ⟨sibling, counted :: cursor.counts.tail⟩

def parent? (cursor : CountingCursor) : Option CountingCursor :=
  cursor.place.parent?.map (⟨·, cursor.counts.tail⟩)

def enter (cursor : CountingCursor) (order : Traversal) : Outcome CountingCursor :=
  (cursor.place.enter order).map (cursor.inside order.direction)

def proceed (cursor : CountingCursor) (order : Traversal) : Outcome CountingCursor :=
  (cursor.place.proceed order).map (cursor.alongside order.direction)

def childAt? (cursor : CountingCursor) (index : Nat) : Option CountingCursor :=
  (cursor.place.childAt? index).map (cursor.inside .forward)

def firstChildPastByte? (cursor : CountingCursor) (byte : Nat) : Option (Nat × CountingCursor) :=
  (cursor.place.firstChildPastByte? byte).map fun (index, child) =>
    (index, cursor.inside .forward child)

def firstChildPastPoint? (cursor : CountingCursor) (point : Point) :
    Option (Nat × CountingCursor) :=
  (cursor.place.firstChildPastPoint? point).map fun (index, child) =>
    (index, cursor.inside .forward child)

def holds (cursor : CountingCursor) (index : Nat) : Bool :=
  cursor.count ≤ index ∧ index < cursor.count + cursor.place.focus.size

def ascend (cursor : CountingCursor) (index : Nat) : Nat → CountingCursor
  | 0 => cursor
  | levels + 1 =>
      if cursor.holds index then cursor
      else
        match cursor.parent? with
        | some parent => parent.ascend index levels
        | none => cursor

def turn (cursor : CountingCursor) (index : Nat) : CountingCursor :=
  cursor.ascend (wrap index) cursor.place.depth

def follow? (cursor : CountingCursor) : List Nat → Option CountingCursor
  | [] => some cursor
  | index :: path => (cursor.childAt? index).bind (·.follow? path)

/-- The node with a count below the cursor's root. A count that is not in the tree leads to the
root. -/
def descendant (cursor : CountingCursor) (index : Nat) : CountingCursor :=
  let start := cursor.turn index
  ((start.place.focus.pathAt? (wrap index - start.count)).bind start.follow?).getD start

def reset (_ : CountingCursor) (node : Node) : CountingCursor :=
  node.walkCounting

def resetTo (_ other : CountingCursor) : CountingCursor :=
  other

end CountingCursor

structure CountingIterator where
  pass : ChildIterator
  counts : List Nat

namespace CountingCursor

def iterate (cursor : CountingCursor) : CountingIterator :=
  ⟨cursor.place.iterate, cursor.counts⟩

end CountingCursor

namespace CountingIterator

def cursor (iterator : CountingIterator) : CountingCursor :=
  ⟨iterator.pass.cursor, iterator.counts⟩

def advance (iterator : CountingIterator) (order : Traversal) : CountingIterator :=
  let arrive :=
    if iterator.pass.initial then iterator.cursor.inside else iterator.cursor.alongside
  let after := ((iterator.pass.move order).map (arrive order.direction)).place iterator.cursor
  ⟨iterator.pass.advance order, after.counts⟩

def run (iterator : CountingIterator) (order : Traversal) : Nat → CountingIterator
  | 0 => iterator
  | count + 1 =>
      let after := iterator.advance order
      if iterator.pass.finds order then after.run order count else after

def reset (iterator : CountingIterator) : CountingIterator :=
  ⟨iterator.pass.reset,
    iterator.counts.drop (iterator.pass.cursor.depth - iterator.pass.parentDepth)⟩

end CountingIterator

end ConcreteSyntax
