import ConcreteSyntax.Cursor

/-!
Log events: what operations report about themselves beside their results.

Kinds stand in double quotes there. Of the control characters, the line ends and the tab have an
escape between the quotes.
-/

namespace ConcreteSyntax

def quotedChar (char : Char) : List Char :=
  if char = '"' then ['\\', '"']
  else if char = '\\' then ['\\', '\\']
  else if char = '\n' then ['\\', 'n']
  else if char = '\r' then ['\\', 'r']
  else if char = '\t' then ['\\', 't']
  else [char]

def quoted (text : String) : String :=
  "\"" ++ String.ofList (text.toList.flatMap quotedChar) ++ "\""

inductive Event where
  | parsing (size : Nat) (incremental : Bool)
  | parsed (kind : String) (hasError : Bool)
  | editing (edit : Edit)
  | serializing (node : Node) (sourceSupplied : Bool)
  /-- A named move has run out of room and left a cursor on a node of this kind, at this depth. -/
  | landed (kind : String) (depth : Nat)

namespace Event

def level : Event → String
  | landed .. => "TRACE"
  | _ => "DEBUG"

def message : Event → String
  | parsing size incremental =>
      "parsing " ++ toString size ++ " bytes (incremental: " ++ toString incremental ++ ")"
  | parsed kind hasError =>
      "parsed " ++ kind ++ " (has errors: " ++ toString hasError ++ ")"
  | editing edit =>
      "editing tree at byte " ++ toString edit.startByte ++ ": " ++ toString edit.oldEndByte ++
        " -> " ++ toString edit.newEndByte
  | serializing node sourceSupplied =>
      "serializing " ++ node.display ++ " (source supplied: " ++ toString sourceSupplied ++ ")"
  | landed kind depth =>
      "no named node in direction, cursor left on " ++ quoted kind ++ " at depth " ++
        toString depth

def line (event : Event) : String :=
  event.level ++ " " ++ event.message

def ofLanding (cursor : Cursor) : Event :=
  landed cursor.focus.label.kind cursor.depth

end Event

def Outcome.events (outcome : Outcome Cursor) : List Event :=
  outcome.landed?.toList.map Event.ofLanding

end ConcreteSyntax
