import ConcreteSyntax.Node

/-!
The smallest node around a range of bytes or of points.

A search goes from a node to the child that holds the range for as long as there is one. The
children are looked through in order, and the first that starts after the range ends the look.
Bytes and points are searched alike, each with its own view of a span.
-/

namespace ConcreteSyntax

structure Measure (Position : Type) where
  ends : Span → Position × Position

namespace Measure

def bytes : Measure Nat := ⟨Span.bytes⟩

def points : Measure Point := ⟨Span.points⟩

variable {Position : Type} [LE Position] [LT Position] [DecidableEq Position]
  [∀ first second : Position, Decidable (first ≤ second)]
  [∀ first second : Position, Decidable (first < second)]

def covers (measure : Measure Position) (span : Span) (start stop : Position) : Bool :=
  start ≤ stop ∧ (measure.ends span).1 ≤ start ∧ stop ≤ (measure.ends span).2

/-- The span ends too early for the range: before its end, or no later than its start. An empty
span may end at the start of the range. -/
def endsBefore (measure : Measure Position) (span : Span) (start stop : Position) : Bool :=
  let (first, last) := measure.ends span
  last < stop ∨ (if first = last then last < start else last ≤ start)

mutual

/-- The nodes that a search for a range passes below a tree, each with its place in its
parent. -/
def descent (measure : Measure Position) (start stop : Position) : Tree → List (Nat × Tree)
  | .node _ children => descentIn measure start stop children 0

def descentIn (measure : Measure Position) (start stop : Position) :
    List Tree → Nat → List (Nat × Tree)
  | [], _ => []
  | child :: rest, position =>
      if measure.endsBefore child.label.span start stop then
        descentIn measure start stop rest (position + 1)
      else if start < (measure.ends child.label.span).1 then []
      else (position, child) :: descent measure start stop child

end

end Measure

namespace Node

def along (node : Node) : List (Nat × Tree) → List Node
  | [] => []
  | (position, child) :: rest =>
      let next := node.below position child
      next :: next.along rest

section

variable {Position : Type} [LE Position] [LT Position] [DecidableEq Position]
  [∀ first second : Position, Decidable (first ≤ second)]
  [∀ first second : Position, Decidable (first < second)]

def smallestAround (node : Node) (measure : Measure Position) (accept : Node → Bool)
    (start stop : Position) : Node :=
  (((node.along (measure.descent start stop node.subtree)).filter accept).getLast?).getD node

end

def descendantForBytes? (node : Node) (accept : Node → Bool) (start stop : Nat) : Option Node :=
  if Measure.bytes.covers node.span start stop then
    some (node.smallestAround .bytes accept start stop)
  else none

/-- The smallest node around a point range, among those that are accepted. The range is compared
with the node as it is given, and reduced to 32-bit counters for the search. -/
def descendantForPoints? (node : Node) (accept : Node → Bool) (start stop : Point) : Option Node :=
  if Measure.points.covers node.span start stop then
    if start.reduced ≤ stop.reduced then
      some (node.smallestAround .points accept start.reduced stop.reduced)
    else none
  else none

end Node

end ConcreteSyntax
