import ConcreteSyntax.Json.Writer

/-!
The value that a dump holds, and its written form.

`document` reads the value off a node by lookups alone, and `render` writes a value down. Both
do without a cursor.
-/

namespace ConcreteSyntax

namespace Json

inductive Document where
  | text (bytes : List UInt8)
  | object (entries : List (List UInt8 × Document))

namespace Document

def quote (bytes : List UInt8) : List UInt8 :=
  0x22 :: (escape bytes ++ [0x22])

def margin (indent : List UInt8) (level : Nat) : List UInt8 :=
  (List.replicate level indent).flatten

mutual

def render (indent : List UInt8) (level : Nat) : Document → List UInt8
  | text bytes => quote bytes
  | object entries =>
      [0x7B] ++ renderEntries indent (level + 1) [0x0A] entries ++ [0x0A] ++
        margin indent level ++ [0x7D]

/-- The written form of entries, the first of which follows `separator`. -/
def renderEntries (indent : List UInt8) (level : Nat) (separator : List UInt8) :
    List (List UInt8 × Document) → List UInt8
  | [] => []
  | (key, value) :: rest =>
      separator ++ margin indent level ++ quote key ++ [0x3A, 0x20] ++
        value.render indent level ++ renderEntries indent level [0x2C, 0x0A] rest

end

mutual

def Distinct : Document → Prop
  | text _ => True
  | object entries => (entries.map (·.1)).Nodup ∧ AllDistinct entries

def AllDistinct : List (List UInt8 × Document) → Prop
  | [] => True
  | (_, value) :: rest => value.Distinct ∧ AllDistinct rest

end

theorem allDistinct_iff (entries : List (List UInt8 × Document)) :
    AllDistinct entries ↔ ∀ entry ∈ entries, entry.2.Distinct := by
  induction entries with
  | nil => simp [AllDistinct]
  | cons entry rest ih => simp [AllDistinct, ih]

/-- The text of a node without children, where the style has it shown and there is a source. -/
def textEntries (style : Style) (source : Option (Array UInt8)) (node : Node) :
    List (List UInt8 × Document) :=
  match source with
  | none => []
  | some source =>
      if node.childNodes.length = 0 ∧ style.includeRaw = true then
        [(octets "raw", text (node.rawText source).toList)]
      else []

theorem textEntries_cases (style : Style) (source : Option (Array UInt8)) (node : Node) :
    textEntries style source node = [] ∨
      ∃ bytes, source = some bytes ∧ node.childCount = 0 ∧
        textEntries style source node = [(octets "raw", text (node.rawText bytes).toList)] := by
  cases source with
  | none => exact .inl rfl
  | some source =>
      rw [textEntries, Node.length_childNodes]
      split
      next shown => exact .inr ⟨source, rfl, shown.1, rfl⟩
      next => exact .inl rfl

theorem of_mem_textEntries {style : Style} {source : Option (Array UInt8)} {node : Node}
    {entry : List UInt8 × Document} (member : entry ∈ textEntries style source node) :
    ∃ bytes, source = some bytes ∧ node.childCount = 0 ∧
      entry = (octets "raw", text (node.rawText bytes).toList) := by
  rcases textEntries_cases style source node with none | ⟨bytes, given, childless, one⟩
  · rw [none] at member
    contradiction
  · rw [one, List.mem_singleton] at member
    exact ⟨bytes, given, childless, member⟩

def ownEntries (style : Style) (source : Option (Array UInt8)) (field : Option String)
    (node : Node) : List (List UInt8 × Document) :=
  field.toList.map (fun name => (octets "field", text (octets name))) ++
    [(octets "kind_id", text (octets (toString node.label.kindId))),
      (octets "kind", text (octets node.label.kind))] ++
    textEntries style source node

def ofNode (style : Style) (source : Option (Array UInt8)) (field : Option String)
    (node : Node) : Document :=
  object (ownEntries style source field node ++
    node.childNodes.attach.mapIdx fun index ⟨child, _⟩ =>
      (octets (toString index),
        if child.isNamed then ofNode style source (node.fieldNameForChild? index) child
        else text (octets child.label.kind)))
termination_by node.subtree.size
decreasing_by exact Node.size_lt_of_mem_childNodes (by assumption)

def childEntry (style : Style) (source : Option (Array UInt8)) (parent : Node) (index : Nat)
    (child : Node) : List UInt8 × Document :=
  (octets (toString index),
    if child.isNamed then ofNode style source (parent.fieldNameForChild? index) child
    else text (octets child.label.kind))

theorem ofNode_eq (style : Style) (source : Option (Array UInt8)) (field : Option String)
    (node : Node) :
    ofNode style source field node =
      object (ownEntries style source field node ++
        node.childNodes.mapIdx (childEntry style source node)) := by
  rw [ofNode]
  congr 2
  apply List.ext_getElem
  · simp
  · intro index _ _
    simp [childEntry]

end Document

end Json

namespace Node

/-- The value of the dump of a node. The node's own field is no part of it. -/
def document (node : Node) (style : Json.Style) (source : Option (Array UInt8)) : Json.Document :=
  .ofNode style source none node

def dump (node : Node) (style : Json.Style) (source : Option (Array UInt8)) : List UInt8 :=
  (node.document style source).render (Json.octets style.indent) 0 ++ [0x0A]

end Node

end ConcreteSyntax
