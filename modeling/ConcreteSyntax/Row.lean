import ConcreteSyntax.Tree

/-!
A place in a row of sibling trees, and steps along the row.

A plain step either moves by one tree or does not move. A search for a named tree has a third
outcome: it may run out of trees after it has moved.
-/

namespace ConcreteSyntax

inductive Direction where
  | forward
  | backward
deriving DecidableEq

inductive Outcome (Place : Type) where
  | found (place : Place)
  /-- The move runs out of room and stays where it has come to. -/
  | landed (place : Place)
  | unmoved
deriving DecidableEq

namespace Outcome

def map {First Second : Type} (change : First → Second) : Outcome First → Outcome Second
  | found place => found (change place)
  | landed place => landed (change place)
  | unmoved => unmoved

def ofOption {Place : Type} : Option Place → Outcome Place
  | some place => found place
  | none => unmoved

def place {Place : Type} (start : Place) : Outcome Place → Place
  | found place => place
  | landed place => place
  | unmoved => start

def isFound {Place : Type} : Outcome Place → Bool
  | found _ => true
  | _ => false

def landed? {Place : Type} : Outcome Place → Option Place
  | landed place => some place
  | _ => none

end Outcome

/-- One tree of a row with the trees on both sides of it, the nearest first. -/
structure Row where
  before : List Tree
  here : Tree
  after : List Tree

namespace Row

def trees (row : Row) : List Tree :=
  row.before.reverse ++ row.here :: row.after

def index (row : Row) : Nat :=
  row.before.length

def turned (row : Row) : Row :=
  ⟨row.after, row.here, row.before⟩

def ofIndex? (trees : List Tree) (index : Nat) : Option Row :=
  (trees[index]?).map fun here => ⟨(trees.take index).reverse, here, trees.drop (index + 1)⟩

def start? (trees : List Tree) : Direction → Option Row
  | .forward =>
      match trees with
      | [] => none
      | first :: rest => some ⟨[], first, rest⟩
  | .backward =>
      match trees.reverse with
      | [] => none
      | last :: rest => some ⟨rest, last, []⟩

def next? (row : Row) : Option Row :=
  match row.after with
  | [] => none
  | next :: rest => some ⟨row.here :: row.before, next, rest⟩

def step? (row : Row) : Direction → Option Row
  | .forward => row.next?
  | .backward => row.turned.next?.map turned

/-- Steps over the trees ahead to the first named one. `reached` is the outcome if none of them
is. -/
def seekFrom (reached : Outcome Row) (before : List Tree) (here : Tree) : List Tree → Outcome Row
  | [] => reached
  | next :: rest =>
      let row : Row := ⟨here :: before, next, rest⟩
      if next.isNamed then .found row else seekFrom (.landed row) (here :: before) next rest

def nextNamed (row : Row) : Outcome Row :=
  seekFrom .unmoved row.before row.here row.after

def seekNamed (row : Row) : Direction → Outcome Row
  | .forward => row.nextNamed
  | .backward => row.turned.nextNamed.map turned

def startNamed (trees : List Tree) (direction : Direction) : Outcome Row :=
  match start? trees direction with
  | none => .unmoved
  | some row =>
      if row.here.isNamed then .found row
      else
        match row.seekNamed direction with
        | .unmoved => .landed row
        | outcome => outcome

end Row

end ConcreteSyntax
