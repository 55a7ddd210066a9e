import ConcreteSyntax.ChildIterator
import ConcreteSyntax.Json.Writer
import ConcreteSyntax.Tree.Record

/-!
Requests to a session. Trees, handles, cursors and iterators are named by number.

The parts of a request are taken in order: one that cannot be read refuses the request only if
all that is named before it exists.
-/

namespace ConcreteSyntax

inductive Refusal where
  | badRequest
  | unknownOperation
  | noSuchTree
  | noSuchNode
  | noSuchHandle
  | noSuchCursor
  | noSuchIterator
deriving DecidableEq

inductive NodeRef where
  | counted (tree index : Nat)
  | held (slot : Nat)
deriving DecidableEq

inductive SourceRef where
  | ofTree (tree : Nat)
  | bytes (bytes : Array UInt8)
deriving DecidableEq

inductive NodeQuery where
  | info
  | child (index : Nat)
  | namedChild (index : Nat)
  | childByFieldName (name : String)
  | childByFieldId (id : Nat)
  | fieldNameForChild (index : Nat)
  | fieldNameForNamedChild (index : Nat)
  | parent
  | nextSibling
  | previousSibling
  | nextNamedSibling
  | previousNamedSibling
  | children
  | namedChildren
  | childrenByFieldName (name : String)
  | descendantForBytes (namedOnly : Bool) (start stop : Nat)
  | descendantForPoints (namedOnly : Bool) (start stop : Point)
  | rawText (source : SourceRef)
  | expression

inductive CursorRequest where
  | parent
  | enter (order : Traversal)
  | proceed (order : Traversal)
  | here
  | descendant (index : Nat)
  | descendantIndex
  | firstChildPastByte (byte : Nat)
  | firstChildPastPoint (point : Point)
  | reset (node : NodeRef)
  | resetTo (other : Nat)
  | describe

inductive IteratorRequest where
  | step (order : Traversal)
  | steps (order : Traversal) (count : Option Nat)
  | reset
  | intoCursor (slot : Nat)
  | describe

inductive DumpRequest where
  | bytes (node : NodeRef)
  | intoSink (node : NodeRef) (limit : Except Refusal (Option Nat))
  | series (nodes : List (Except Refusal NodeRef)) (style : Except Refusal Json.Style)
      (limit : Except Refusal (Option Nat))

inductive Request where
  | parse (source : Array UInt8) (previous : Option Nat) (record : Option Record)
  | cloneTree (tree : Nat)
  | editTree (tree : Nat) (edit : Except Refusal Edit) (record : Option Record)
  | treeRoot (tree : Nat)
  | treeExpression (tree : Nat)
  | treeGrammar (tree : Nat)
  | changedRanges (old : Nat) (new : Except Refusal Nat) (ranges : Option (List Span))
  | hold (node : NodeRef) (slot : Except Refusal Nat)
  | editHeld (edit : Edit) (slot : Nat)
  | same (first : Except Refusal NodeRef) (others : List (Except Refusal NodeRef))
  | node (node : NodeRef) (query : Except Refusal NodeQuery)
  | walkTree (slot tree : Nat)
  | walkNode (slot : Nat) (node : NodeRef)
  | copyCursor (slot other : Nat)
  | cursor (slot : Nat) (request : Except Refusal CursorRequest)
  | iterateCursor (slot cursor : Nat)
  | iterateNode (slot : Nat) (node : NodeRef)
  | copyIterator (slot other : Nat)
  | iterator (slot : Nat) (request : Except Refusal IteratorRequest)
  | dump (source : Option SourceRef) (request : Except Refusal DumpRequest)

end ConcreteSyntax
