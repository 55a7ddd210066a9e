import ConcreteSyntax.Proofs.Addresses
import ConcreteSyntax.Proofs.Confinement
import ConcreteSyntax.Proofs.Dump
import ConcreteSyntax.Proofs.Ranges

/-!
Handles kept while the source is edited elsewhere.

An edit moves all spans of a handle by one distance, and changes nothing else in it. Where the text
of the handle has moved by that distance too, the handle and the nodes below it have the texts that
they had, and the dump of the handle is the same.
-/

namespace ConcreteSyntax

namespace Tree

variable (change : Label → Label)

theorem mapForest_eq (trees : List Tree) : mapForest change trees = trees.map (·.map change) := by
  induction trees with
  | nil => rfl
  | cons tree rest ih => rw [mapForest, ih, List.map_cons]

@[simp] theorem label_map (tree : Tree) : (tree.map change).label = change tree.label := by
  cases tree
  rw [map]
  rfl

@[simp] theorem children_map (tree : Tree) :
    (tree.map change).children = tree.children.map (·.map change) := by
  cases tree
  rw [map, children_node, mapForest_eq]
  rfl

theorem subtreeAt?_map (tree : Tree) (path : List Nat) :
    (tree.map change).subtreeAt? path = (tree.subtreeAt? path).map (·.map change) := by
  induction path generalizing tree with
  | nil => rfl
  | cons index path ih =>
      rw [subtreeAt?, subtreeAt?, children_map, List.getElem?_map, Option.map_bind,
        Option.bind_map]
      exact congrArg _ (funext ih)

end Tree

def Label.respan (shift : Span → Span) (label : Label) : Label :=
  { label with span := shift label.span }

namespace Node

variable (shift : Span → Span)

def respan (node : Node) : Node :=
  { node with subtree := node.subtree.map (Label.respan shift) }

theorem label_respan (node : Node) : (node.respan shift).label = node.label.respan shift :=
  Tree.label_map _ _

theorem span_respan (node : Node) : (node.respan shift).span = shift node.span :=
  congrArg Label.span (node.label_respan shift)

theorem childCount_respan (node : Node) : (node.respan shift).childCount = node.childCount := by
  simp [childCount, respan]

theorem childNodes_respan (node : Node) :
    (node.respan shift).childNodes = node.childNodes.map (·.respan shift) := by
  apply List.ext_getElem
  · simp [childNodes, respan]
  · intro index _ _
    simp [childNodes, respan, below]

theorem fieldNameForChild?_respan (node : Node) (index : Nat) :
    (node.respan shift).fieldNameForChild? index = node.fieldNameForChild? index := by
  rw [fieldNameForChild?, fieldNameForChild?, childNodes_respan, List.getElem?_map,
    Option.bind_map]
  congr 1
  funext child
  rw [Function.comp_apply, label_respan]
  rfl

theorem nodeAt?_respan (node : Node) (path : List Nat) :
    (node.respan shift).nodeAt? path = (node.nodeAt? path).map (·.respan shift) := by
  rw [nodeAt?, nodeAt?, respan, Tree.subtreeAt?_map, Option.map_map, Option.map_map]
  rfl

end Node

namespace Json

open Document

theorem Document.ownEntries_respan (shift : Span → Span) (style : Style)
    (source current : Array UInt8) (field : Option String) (node : Node)
    (same : (node.respan shift).rawText current = node.rawText source) :
    ownEntries style (some current) field (node.respan shift) =
      ownEntries style (some source) field node := by
  rw [ownEntries, ownEntries, textEntries, textEntries, Node.length_childNodes,
    Node.childCount_respan, ← Node.length_childNodes, Node.label_respan, same]
  rfl

theorem Document.ofNode_respan (shift : Span → Span) (style : Style)
    (source current : Array UInt8) (field : Option String) (node : Node)
    (same : ∀ path below, node.nodeAt? path = some below →
      (below.respan shift).rawText current = below.rawText source) :
    ofNode style (some current) field (node.respan shift) =
      ofNode style (some source) field node := by
  induction node using Node.childInduction generalizing field with
  | step node ih =>
      rw [ofNode_eq, ofNode_eq, Node.childNodes_respan,
        ownEntries_respan shift style source current field node (same [] node node.nodeAt?_nil)]
      congr 2
      apply List.ext_getElem
      · simp
      · intro index _ bound
        rw [List.length_mapIdx] at bound
        have again := ih _ (List.getElem_mem bound) (node.fieldNameForChild? index) ?_
        · simp only [List.getElem_mapIdx, List.getElem_map, childEntry, Node.isNamed]
          rw [Node.label_respan, Node.fieldNameForChild?_respan, again]
          rfl
        · intro path below here
          apply same (index :: path) below
          rw [Node.nodeAt?_cons, List.getElem?_eq_getElem bound]
          exact here

end Json

structure Replacement where
  edit : Edit
  text : Array UInt8

namespace Replacement

def apply (change : Replacement) (source : Array UInt8) : Array UInt8 :=
  source.extract 0 change.edit.startByte ++ change.text ++
    source.extract change.edit.oldEndByte source.size

theorem toList_apply (change : Replacement) (source : Array UInt8) :
    (change.apply source).toList =
      source.toList.take change.edit.startByte ++ change.text.toList ++
        source.toList.drop change.edit.oldEndByte := by
  have rest : (source.toList.drop change.edit.oldEndByte).take
      (source.size - change.edit.oldEndByte) = source.toList.drop change.edit.oldEndByte :=
    List.take_of_length_le (by simp)
  simp only [apply, Array.toList_append, Array.toList_extract, List.extract_eq_take_drop,
    List.drop_zero, Nat.sub_zero, rest]

/-- The replacement is one in this source, and outside of a span of it. All offsets are 32-bit
counters, before and after it. -/
structure Spares (change : Replacement) (source : Array UInt8) (span : Span) : Prop where
  ordered : change.edit.startByte ≤ change.edit.oldEndByte
  inside : change.edit.oldEndByte ≤ source.size
  length : change.edit.newEndByte = change.edit.startByte + change.text.size
  apart : change.edit.oldEndByte ≤ span.startByte ∨
    span.startByte < span.endByte ∧ span.endByte ≤ change.edit.startByte
  oldCounted : change.edit.oldEndByte < 0x100000000
  newCounted : change.edit.newEndByte < 0x100000000
  endCounted : span.endByte + change.edit.newEndByte < 0x100000000 + change.edit.oldEndByte

def carry (change : Replacement) (span : Span) (byte : Nat) : Nat :=
  if change.edit.oldEndByte ≤ span.startByte then
    change.edit.newEndByte + (byte - change.edit.oldEndByte)
  else byte

end Replacement

def Edit.shift (change : Edit) (whole span : Span) : Span :=
  let start := change.place whole.startByte whole.startPoint
  span.moved whole.startByte whole.startPoint start.1 start.2

theorem displaced_eq {count origin target : Nat} (after : origin ≤ count)
    (counted : count - origin + target < 0x100000000) :
    displaced count origin target = count - origin + target := by
  rw [displaced, wrap, wrap]
  omega

namespace Replacement

variable {change : Replacement} {source : Array UInt8} {whole span : Span}

theorem place_eq (spares : change.Spares source whole) (ordered : whole.startByte ≤ whole.endByte)
    (point : Point) :
    (change.edit.place whole.startByte point).1 = change.carry whole whole.startByte := by
  obtain ⟨forward, _, _, apart, oldCounted, newCounted, endCounted⟩ := spares
  have startByte : wrap change.edit.startByte = change.edit.startByte :=
    wrap_eq_self_iff.mpr (by omega)
  have oldEndByte : wrap change.edit.oldEndByte = change.edit.oldEndByte :=
    wrap_eq_self_iff.mpr oldCounted
  have newEndByte : wrap change.edit.newEndByte = change.edit.newEndByte :=
    wrap_eq_self_iff.mpr newCounted
  simp only [Edit.place, Edit.reduced, startByte, oldEndByte, newEndByte, carry]
  -- an edit after the span does not start before it, and leaves its start where it is
  by_cases before : change.edit.oldEndByte ≤ whole.startByte
  · rw [if_pos before, if_pos before]
    exact Nat.mod_eq_of_lt (by omega)
  · rw [if_neg before, if_neg before, if_neg (by omega)]

theorem displaced_carry (spares : change.Spares source whole) {byte : Nat}
    (starts : whole.startByte ≤ byte) (ends : byte ≤ whole.endByte) :
    displaced byte whole.startByte (change.carry whole whole.startByte) =
      change.carry whole byte := by
  obtain ⟨_, _, _, apart, oldCounted, _, endCounted⟩ := spares
  have carried : byte - whole.startByte + change.carry whole whole.startByte =
      change.carry whole byte := by
    rw [carry, carry]
    split <;> omega
  rw [← carried]
  apply displaced_eq starts
  rw [carried, carry]
  split <;> omega

theorem carry_le_carry (change : Replacement) (whole : Span) {first second : Nat}
    (ordered : first ≤ second) : change.carry whole first ≤ change.carry whole second := by
  rw [carry, carry]
  split <;> omega

theorem text_carry (spares : change.Spares source whole) {start stop : Nat}
    (starts : whole.startByte ≤ start) (ordered : start ≤ stop) (ends : stop ≤ whole.endByte) :
    ((change.apply source).toList.take (change.carry whole stop)).drop
        (change.carry whole start) =
      (source.toList.take stop).drop start := by
  obtain ⟨forward, inside, length, apart, _, _, _⟩ := spares
  rw [toList_apply, carry, carry]
  by_cases before : change.edit.oldEndByte ≤ whole.startByte
  · rw [if_pos before, if_pos before]
    have front : change.edit.newEndByte =
        (source.toList.take change.edit.startByte ++ change.text.toList).length := by
      simp only [List.length_append, List.length_take, Array.length_toList]
      omega
    rw [front, List.take_length_add_append, List.drop_length_add_append, List.take_drop,
      List.drop_drop, Nat.add_sub_cancel' (by omega), Nat.add_sub_cancel' (by omega)]
  · rw [if_neg before, if_neg before]
    have room : stop ≤ (source.toList.take change.edit.startByte).length := by
      simp only [List.length_take, Array.length_toList]
      omega
    rw [List.append_assoc, List.take_append_of_le_length room, List.take_take,
      Nat.min_eq_left (by omega)]

theorem shift_eq (spares : change.Spares source whole) (inside : span.Within whole) :
    (change.edit.shift whole span).startByte = change.carry whole span.startByte ∧
      (change.edit.shift whole span).endByte = change.carry whole span.endByte := by
  obtain ⟨starts, ordered, ends⟩ := inside
  have place := place_eq spares (by omega) whole.startPoint
  constructor
  · exact (congrArg _ place).trans (displaced_carry spares starts (by omega))
  · exact (congrArg _ place).trans (displaced_carry spares (by omega) ends)

theorem shift_within (spares : change.Spares source whole) (ordered : whole.Within whole)
    (inside : span.Within whole) :
    (change.edit.shift whole span).Within (change.edit.shift whole whole) := by
  have inner := shift_eq spares inside
  have outer := shift_eq spares ordered
  constructor
  · rw [inner.1, outer.1]
    exact change.carry_le_carry whole inside.starts
  · rw [inner.1, inner.2]
    exact change.carry_le_carry whole inside.ordered
  · rw [inner.2, outer.2]
    exact change.carry_le_carry whole inside.ends

end Replacement

namespace Node

def Spans (node : Node) : Prop :=
  node.subtree.Everywhere fun subtree => subtree.label.span.Within node.span

theorem edit_eq (node : Node) (change : Edit) :
    node.edit change = node.respan (change.shift node.span) := rfl

variable {change : Replacement} {source : Array UInt8} {node : Node}

theorem Spans.edit (spans : node.Spans) (spares : change.Spares source node.span) :
    (node.edit change.edit).Spans := by
  intro path subtree here
  rw [edit_eq, respan, Tree.subtreeAt?_map, Option.map_eq_some_iff] at here
  obtain ⟨before, here, rfl⟩ := here
  rw [Tree.label_map, edit_eq, span_respan]
  exact Replacement.shift_within spares (spans [] node.subtree rfl) (spans path before here)

theorem rawText_edit (spans : node.Spans) (spares : change.Spares source node.span)
    {path : List Nat} {below : Node} (here : node.nodeAt? path = some below) :
    (below.respan (change.edit.shift node.span)).rawText (change.apply source) =
      below.rawText source := by
  have inside : below.span.Within node.span := by
    obtain ⟨subtree, found, rfl⟩ := Option.map_eq_some_iff.mp here
    exact spans path subtree found
  obtain ⟨start, stop⟩ := Replacement.shift_eq spares inside
  apply Array.toList_inj.mp
  rw [toList_rawText, toList_rawText, span_respan, start, stop]
  exact Replacement.text_carry spares inside.starts inside.ordered inside.ends

end Node

/-- The handles that come of a node, and the sources that come of the source, by replacements that
spare the handle. -/
inductive Retained (node : Node) (source : Array UInt8) : Node → Array UInt8 → Prop
  | untouched : Retained node source node source
  | edited {handle : Node} {current : Array UInt8} (change : Replacement) :
      Retained node source handle current → change.Spares current handle.span →
      Retained node source (handle.edit change.edit) (change.apply current)

namespace Retained

variable {node handle : Node} {source current : Array UInt8}

theorem spans (retained : Retained node source handle current) (spans : node.Spans) :
    handle.Spans := by
  induction retained with
  | untouched => exact spans
  | edited change retained spares ih => exact ih.edit spares

theorem rawTexts (retained : Retained node source handle current) (spans : node.Spans)
    (path : List Nat) :
    (handle.nodeAt? path).map (·.rawText current) = (node.nodeAt? path).map (·.rawText source) := by
  induction retained with
  | untouched => rfl
  | @edited handle current change retained spares ih =>
      rw [← ih, Node.edit_eq, Node.nodeAt?_respan, Option.map_map]
      cases here : handle.nodeAt? path with
      | none => rfl
      | some below =>
          exact congrArg some (Node.rawText_edit (retained.spans spans) spares here)

theorem document (retained : Retained node source handle current) (spans : node.Spans)
    (style : Json.Style) :
    handle.document style (some current) = node.document style (some source) := by
  induction retained with
  | untouched => rfl
  | @edited handle current change retained spares ih =>
      rw [← ih]
      apply Json.Document.ofNode_respan (change.edit.shift handle.span)
      intro path below here
      exact Node.rawText_edit (retained.spans spans) spares here

/-- While a source is edited outside of a handle, the handle keeps its dump and the text of every
node that is reached from it downwards. -/
theorem sameTexts (retained : Retained node source handle current) (nested : node.subtree.Nested) :
    (∃ bytes, handle.toJson (some current) = .ok bytes ∧ node.toJson (some source) = .ok bytes) ∧
      ∀ path, (handle.nodeAt? path).map (·.rawText current) =
        (node.nodeAt? path).map (·.rawText source) := by
  have spans : node.Spans := nested.within
  refine ⟨⟨_, Json.toJson_eq _ handle, ?_⟩, retained.rawTexts spans⟩
  rw [Json.toJson_eq, Node.dump, Node.dump, retained.document spans]

end Retained

theorem bracketed_sameTexts :
    let source : Array UInt8 := #[0x78, 0x20, 0x3C, 0x20, 0x35]
    let opening : Replacement := ⟨⟨0, 0, 1, .zero, .zero, ⟨0, 1⟩⟩, #[0x28]⟩
    let closing : Replacement := ⟨⟨6, 6, 7, ⟨0, 6⟩, ⟨0, 6⟩, ⟨0, 7⟩⟩, #[0x29]⟩
    let handle := (comparison.edit opening.edit).edit closing.edit
    let current := closing.apply (opening.apply source)
    Retained comparison source handle current ∧ comparison.subtree.Nested ∧
      (∃ bytes, handle.toJson (some current) = .ok bytes ∧
        comparison.toJson (some source) = .ok bytes) ∧
      ∀ path, (handle.nodeAt? path).map (·.rawText current) =
        (comparison.nodeAt? path).map (·.rawText source) := by
  intro source opening closing handle current
  have retained : Retained comparison source handle current := by
    refine .edited closing (.edited opening .untouched ?_) ?_
    · constructor <;> decide
    · constructor <;> decide
  have nested : comparison.subtree.Nested := by
    simp [Tree.Nested, comparison, SyntaxTree.rootNode, Tree.everywhere_node, Span.within_iff]
  exact ⟨retained, nested, Retained.sameTexts retained nested⟩

end ConcreteSyntax
