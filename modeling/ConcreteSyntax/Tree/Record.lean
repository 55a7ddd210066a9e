import ConcreteSyntax.Tree.Preorder

/-!
Records of trees: rows of numbers in pre-order, with the names of kinds and fields beside them.

A row gives its flags as the bits of one number. A record does not hold the source; the
character that a node starts with comes from elsewhere, the source of a parse or the tree before
an edit.
-/

namespace ConcreteSyntax

structure RecordRow where
  kindId : Nat
  grammarId : Nat
  flags : Nat
  fieldId : Nat
  span : Span
  childCount : Nat
deriving DecidableEq

structure Record where
  rows : List RecordRow
  kinds : List (Nat × String)
  fields : List (Nat × String)
deriving DecidableEq

namespace RecordRow

def flag (row : RecordRow) (bit : Nat) : Bool :=
  row.flags.testBit bit

def read? (row : RecordRow) (kinds fields : List (Nat × String)) (firstChar : Option Char) :
    Option Entry := do
  let kind ← kinds.lookup row.kindId
  let grammarName ← kinds.lookup row.grammarId
  some {
    label := {
      kindId := row.kindId
      kind
      grammarId := row.grammarId
      grammarName
      isNamed := row.flag 0
      isExtra := row.flag 1
      isError := row.flag 2
      isMissing := row.flag 3
      hasChanges := row.flag 4
      hasError := row.flag 5
      field := (fields.lookup row.fieldId).map fun name => ⟨row.fieldId, name⟩
      span := row.span
      firstChar }
    childCount := row.childCount }

end RecordRow

namespace Record

def tree? (record : Record) (firstChars : List (Option Char)) : Option Tree := do
  let entries ← (record.rows.zip firstChars).mapM fun (start : RecordRow × Option Char) =>
    start.1.read? record.kinds record.fields start.2
  Tree.ofPreorder? entries

def parsedTree? (record : Record) (source : Array UInt8) : Option Tree :=
  record.tree? (record.rows.map fun row => (ByteArray.mk source).utf8DecodeChar? row.span.startByte)

def editedTree? (record : Record) (previous : Tree) : Option Tree :=
  record.tree? (previous.preorder.map (·.label.firstChar))

end Record

end ConcreteSyntax
