import ConcreteSyntax.Event
import ConcreteSyntax.Grammar
import ConcreteSyntax.Session.Request

/-!
Answers of a session, and the descriptions of parsers, cursors and iterators in them.
-/

namespace ConcreteSyntax

def optionText : Option String → String
  | some text => "Some(" ++ quoted text ++ ")"
  | none => "None"

def Parser.description (parser : Parser) : String :=
  "SyntaxParser \x7b language: " ++ optionText parser.grammar.shownName ++ ", .. \x7d"

namespace Cursor

def description (cursor : Cursor) : String :=
  "TreeCursor \x7b node: " ++ cursor.node.display ++ ", depth: " ++ toString cursor.depth ++
    ", field: " ++ optionText cursor.fieldName ++ " \x7d"

end Cursor

namespace ChildIterator

def description (iterator : ChildIterator) : String :=
  "ChildIterator \x7b cursor: " ++ iterator.cursor.description ++ ", parent_depth: " ++
    toString iterator.parentDepth ++ ", initial: " ++ toString iterator.initial ++ " \x7d"

end ChildIterator

inductive Answer where
  | made (tree : SyntaxTree)
  | grammar (grammar : Grammar)
  | changed (ranges : List Span)
  | node (node : Option Node)
  | nodes (nodes : List Node)
  | info (node : Node)
  | text (text : Option String)
  | bytes (bytes : Array UInt8)
  /-- Which nodes are the first one again, whether their hashes agree where the nodes do, and how
  many different ones there are. -/
  | comparison (equal : List Bool) (hashesAgree : Bool) (distinct : Nat)
  | written (bytes : Array UInt8) (error : Option SinkError)
  | cursor (cursor : Cursor)
  | moved (moved : Bool) (cursor : Cursor)
  | place (cursor : Cursor)
  | placeIndex (index : Option Nat) (cursor : Cursor)
  | placeText (text : String) (cursor : Cursor)
  | placeItem (item : Option Node) (cursor : Cursor)
  | placeItems (items : List Node) (cursor : Cursor)

structure Reply where
  result : Except Refusal Answer
  events : List Event

end ConcreteSyntax
