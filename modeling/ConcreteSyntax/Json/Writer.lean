import ConcreteSyntax.Cursor
import ConcreteSyntax.Json.Escape

/-!
Dumps of a subtree as a JSON object, written while one cursor walks through it.

The entries of an object are the field, the kind identifier, the kind and, for a childless node,
its text, followed by one entry for each child under its number. A named child is an object, any
other child the text of its kind. Every entry has a line of its own.
-/

namespace ConcreteSyntax

namespace Json

structure Style where
  /-- What stands before a line for each level. -/
  indent : String
  includeRaw : Bool
deriving DecidableEq

def Style.standard : Style :=
  ⟨"    ", true⟩

def octets (text : String) : List UInt8 :=
  text.toUTF8.data.toList

def writeString (bytes : List UInt8) : Write Unit := do
  Sink.write [0x22]
  writeEscaped bytes
  Sink.write [0x22]

def writeIndent (style : Style) : Nat → Write Unit
  | 0 => pure ()
  | level + 1 => do
      Sink.write (octets style.indent)
      writeIndent style level

/-- Writes the end of the line before an entry, and its key. The first entry has no comma before
it. -/
def writeKey (style : Style) (level : Nat) (first : Bool) (key : String) : Write Unit := do
  Sink.write (if first then [0x0A] else [0x2C, 0x0A])
  writeIndent style level
  writeString (octets key)
  Sink.write [0x3A, 0x20]

def rawText? (style : Style) (source : Option (Array UInt8)) (node : Node) :
    Option (List UInt8) :=
  if node.childCount = 0 && style.includeRaw then
    source.map fun source => (node.rawText source).toList
  else none

def ownTexts (style : Style) (source : Option (Array UInt8)) (cursor : Cursor) :
    List (String × List UInt8) :=
  let node := cursor.node
  cursor.fieldName.toList.map (fun field => ("field", octets field)) ++
    [("kind_id", octets (toString node.label.kindId)), ("kind", octets node.label.kind)] ++
    (rawText? style source node).toList.map fun raw => ("raw", raw)

def writeTexts (style : Style) (level : Nat) (first : Bool) :
    List (String × List UInt8) → Write Unit
  | [] => pure ()
  | (key, bytes) :: rest => do
      writeKey style level first key
      writeString bytes
      writeTexts style level false rest

/-- Runs a program at the first child, and climbs back from where it leaves the cursor. Without
children there is nothing to run. -/
def withChildren (cursor : Cursor) (program : Cursor → Write Cursor) : Write Cursor :=
  match cursor.child? .forward with
  | none => pure cursor
  | some child => do
      let last ← program child
      pure (last.parent?.getD last)

def writeKind (cursor : Cursor) : Write Cursor := do
  writeString (octets cursor.node.label.kind)
  pure cursor

mutual

/-- Writes the object of the node that the cursor is on, and gives the cursor back. `tree` is
the subtree of that node; it bounds the walk, and what is written is read at the cursor. -/
def writeTree (style : Style) (source : Option (Array UInt8)) (cursor : Cursor) :
    Tree → Write Cursor
  | .node _ children => do
      let level := cursor.depth + 1
      Sink.write [0x7B]
      writeTexts style level true (ownTexts style source cursor)
      let back ← withChildren cursor fun child => writeForest style source level 0 child children
      Sink.write [0x0A]
      writeIndent style (level - 1)
      Sink.write [0x7D]
      pure back

def writeForest (style : Style) (source : Option (Array UInt8)) (level index : Nat)
    (cursor : Cursor) : List Tree → Write Cursor
  | [] => pure cursor
  | tree :: rest => do
      writeKey style level false (toString index)
      let back ← (if cursor.node.isNamed then writeTree style source cursor tree
        else writeKind cursor)
      match back.sibling? .forward with
      | none => pure back
      | some next => writeForest style source level (index + 1) next rest

end

def writeObject (style : Style) (source : Option (Array UInt8)) (cursor : Cursor) :
    Write Cursor :=
  writeTree style source cursor cursor.focus

def writeDocument (style : Style) (source : Option (Array UInt8)) (node : Node) : Write Unit := do
  discard (writeObject style source node.walk)
  Sink.write [0x0A]

end Json

namespace Node

def toJson (node : Node) (source : Option (Array UInt8)) : Except SinkError (Array UInt8) :=
  match (Json.writeDocument .standard source node).run (.empty none) with
  | .ok _ sink => .ok sink.bytes
  | .error error _ => .error error

end Node

end ConcreteSyntax
