import ConcreteSyntax.Node

/-!
The parenthesised form of a subtree: `(kind child ...)` for each node that is named or missing.

A child follows a space and, if it is in a field, the name of the field and a colon. Other nodes
are left out, and their children stand in their place.
-/

namespace ConcreteSyntax

/-- How a character is written that no token could start with: printable ASCII and four control
characters between quotes, any other as its code point. -/
def unexpectedText : Option Char → String
  | none => "INVALID"
  | some '\x00' => "'\\0'"
  | some '\n' => "'\\n'"
  | some '\t' => "'\\t'"
  | some '\r' => "'\\r'"
  | some char =>
      if ' ' ≤ char ∧ char ≤ '~' then "'" ++ String.singleton char ++ "'"
      else toString char.toNat

namespace Label

def isShown (label : Label) : Bool :=
  label.isNamed || label.isMissing

/-- The form of a shown node, given that of its children. A childless error that covers text says
what that text starts with. -/
def enclose (label : Label) (childless : Bool) (inner : String) : String :=
  if label.isError && childless && label.span.startByte != label.span.endByte then
    "(UNEXPECTED " ++ unexpectedText label.firstChar ++ ")"
  else if label.isMissing then
    if label.isNamed then "(MISSING " ++ label.kind ++ inner ++ ")"
    else "(MISSING \"" ++ label.kind ++ "\"" ++ inner ++ ")"
  else "(" ++ label.kind ++ inner ++ ")"

def lead (label : Label) : String :=
  match label.fieldName with
  | some name => " " ++ name ++ ": "
  | none => " "

end Label

namespace Tree

mutual

def childExpression : Tree → String
  | node label children =>
      let inner := forestExpression children
      if label.isShown then label.lead ++ label.enclose children.isEmpty inner else inner

def forestExpression : List Tree → String
  | [] => ""
  | tree :: rest => tree.childExpression ++ forestExpression rest

end

/-- The form of a tree on its own: its field is not shown. A root that would be left out is a
quoted kind if it is childless; otherwise its parenthesis stays open. -/
def expression (tree : Tree) : String :=
  let inner := forestExpression tree.children
  if tree.label.isShown then tree.label.enclose tree.children.isEmpty inner
  else if tree.children.isEmpty then "(\"" ++ tree.label.kind ++ "\")"
  else "(" ++ tree.label.kind ++ inner

end Tree

namespace Node

def expression (node : Node) : String :=
  node.subtree.expression

end Node

end ConcreteSyntax
