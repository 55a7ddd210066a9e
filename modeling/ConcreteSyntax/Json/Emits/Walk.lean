import ConcreteSyntax.Json.Emits
import ConcreteSyntax.Proofs.Children

/-!
What a dump writes: the written form of the node's document, by a cursor that comes back to where
it started.
-/

namespace ConcreteSyntax

namespace Json

open Write

namespace Document

def treeEntry (style : Style) (source : Option (Array UInt8)) (parent : Node) (index : Nat)
    (tree : Tree) : List UInt8 × Document :=
  (octets (toString index),
    if tree.isNamed then ofNode style source tree.label.fieldName (parent.below index tree)
    else text (octets tree.label.kind))

theorem mapIdx_childEntry (style : Style) (source : Option (Array UInt8)) (node : Node) :
    node.childNodes.mapIdx (childEntry style source node) =
      node.subtree.children.mapIdx (treeEntry style source node) := by
  apply List.ext_getElem?
  intro index
  simp only [List.getElem?_mapIdx, Node.childNodes]
  cases found : node.subtree.children[index]? with
  | none => rfl
  | some tree =>
      have field : node.fieldNameForChild? index = tree.label.fieldName := by
        simp [Node.fieldNameForChild?, Node.childNodes, found, Node.label, Node.below]
      simp only [Option.map_some, childEntry, field]
      rfl

theorem ownEntries_ne_nil (style : Style) (source : Option (Array UInt8)) (field : Option String)
    (node : Node) : ownEntries style source field node ≠ [] := by
  simp [ownEntries]

theorem renderEntries_append (indent : List UInt8) (level : Nat) (separator : List UInt8)
    (first second : List (List UInt8 × Document)) (filled : first ≠ []) :
    renderEntries indent level separator (first ++ second) =
      renderEntries indent level separator first ++
        renderEntries indent level [0x2C, 0x0A] second := by
  induction first generalizing separator with
  | nil => exact absurd rfl filled
  | cons entry rest ih =>
      obtain ⟨key, value⟩ := entry
      simp only [List.cons_append, renderEntries]
      cases rest with
      | nil => simp [renderEntries]
      | cons next others =>
          rw [ih _ (by simp)]
          simp only [List.append_assoc]

end Document

open Document

theorem emits_writeTexts (style : Style) (level : Nat) (first : Bool)
    (entries : List (String × List UInt8)) :
    Emits (writeTexts style level first entries)
      (renderEntries (octets style.indent) level (if first then [0x0A] else [0x2C, 0x0A])
        (entries.map fun entry => (octets entry.1, .text entry.2))) () := by
  induction entries generalizing first with
  | nil => exact emits_pure ()
  | cons entry rest ih =>
      have written := emits_then (emits_writeKey style level first entry.1)
        (emits_then (emits_writeString entry.2) (ih false))
      simp only [List.map_cons, renderEntries, render, List.append_assoc] at written ⊢
      exact written

theorem map_rawText? (style : Style) (source : Option (Array UInt8)) (node : Node) :
    ((rawText? style source node).toList.map fun raw => (octets "raw", Document.text raw)) =
      textEntries style source node := by
  rw [rawText?]
  cases source with
  | none => simp [textEntries]
  | some source =>
      rw [textEntries, Node.length_childNodes]
      by_cases shown : node.childCount = 0 ∧ style.includeRaw = true
      · simp [shown]
      · rw [if_neg shown, if_neg (by simpa using shown)]
        rfl

theorem map_ownTexts (style : Style) (source : Option (Array UInt8)) (cursor : Cursor) :
    ((ownTexts style source cursor).map fun entry => (octets entry.1, Document.text entry.2)) =
      ownEntries style source cursor.fieldName cursor.node := by
  rw [ownEntries, ← map_rawText?]
  simp [ownTexts, Function.comp_def]

theorem emits_writeKind (cursor : Cursor) :
    Emits (writeKind cursor) (quote (octets cursor.focus.label.kind)) cursor := by
  rw [← List.append_nil (quote _)]
  exact emits_then (emits_writeString _) (emits_pure cursor)

theorem emits_withChildren {cursor : Cursor} {program : Cursor → Write Cursor}
    {bytes : List UInt8} (childless : cursor.focus.children = [] → bytes = [])
    (writes : ∀ filled : 0 < cursor.focus.children.length, ∃ last,
      Emits (program (cursor.onChild ⟨0, filled⟩)) bytes last ∧ last.parent? = some cursor) :
    Emits (withChildren cursor program) bytes cursor := by
  rw [withChildren, Cursor.child?_forward]
  by_cases filled : 0 < cursor.focus.children.length
  · obtain ⟨last, written, up⟩ := writes filled
    have climbs : Emits (pure (last.parent?.getD last)) [] cursor := by
      rw [up]
      exact emits_pure cursor
    rw [Cursor.childAt?_eq_some.mpr ⟨filled, rfl⟩, ← List.append_nil bytes]
    exact emits_bind written climbs
  · rw [Cursor.childAt?_eq_none.mpr (Nat.le_of_not_lt filled), childless (by simpa using filled)]
    exact emits_pure cursor

mutual

/-- Writing an object writes the document of the node and gives the cursor back. -/
theorem emits_writeTree (style : Style) (source : Option (Array UInt8)) (tree : Tree)
    (cursor : Cursor) (here : cursor.focus = tree) :
    Emits (writeTree style source cursor tree)
      ((ofNode style source cursor.fieldName cursor.node).render
        (octets style.indent) cursor.depth) cursor := by
  match tree with
  | .node label children =>
    have inner : cursor.focus.children = children := by rw [here, Tree.children_node]
    rw [writeTree, ofNode_eq, mapIdx_childEntry, render,
      renderEntries_append _ _ _ _ _ (ownEntries_ne_nil _ _ _ _), ← map_ownTexts]
    simp only [List.append_assoc]
    refine emits_then (emits_write _) (emits_then (emits_writeTexts style _ true _)
      (emits_bind (emits_withChildren ?_ ?_) (emits_then (emits_write _)
        (emits_then (emits_writeIndent style _) (emits_then (emits_write _)
          (emits_pure cursor))))))
    · intro childless
      change cursor.node.subtree.children = [] at childless
      rw [childless, List.mapIdx_nil, renderEntries]
    · intro filled
      obtain ⟨last, written, up⟩ := emits_writeForest style source children cursor ⟨0, filled⟩ inner
      refine ⟨last, emits_congr ?_ written, up⟩
      simp [Cursor.node, inner]

theorem emits_writeForest (style : Style) (source : Option (Array UInt8)) (trees : List Tree)
    (parent : Cursor) (index : Fin parent.focus.children.length)
    (ahead : parent.focus.children.drop index = trees) :
    ∃ last, Emits (writeForest style source (parent.depth + 1) index (parent.onChild index) trees)
        (renderEntries (octets style.indent) (parent.depth + 1) [0x2C, 0x0A]
          (trees.mapIdx fun offset => treeEntry style source parent.node (index + offset))) last ∧
      last.parent? = some parent := by
  -- The cursor on the last child comes out of the loop, which one it is does not matter to the
  -- caller: only that it goes up to the parent.
  match trees with
  | [] =>
    have ended := List.drop_eq_nil_iff.mp ahead
    omega
  | tree :: rest =>
    rw [List.drop_eq_getElem_cons index.isLt] at ahead
    injection ahead with here others
    have placed : (parent.onChild index).node = parent.node.below index tree := by
      rw [Cursor.node_onChild, Cursor.childNode]
      exact congrArg _ here
    have named : (parent.onChild index).node.isNamed = tree.isNamed := by
      rw [placed]
      rfl
    have value : Emits
        (if (parent.onChild index).node.isNamed then
          writeTree style source (parent.onChild index) tree
        else writeKind (parent.onChild index))
        ((treeEntry style source parent.node index tree).2.render
          (octets style.indent) (parent.depth + 1)) (parent.onChild index) := by
      rw [named, treeEntry]
      cases tree.isNamed with
      | true =>
        have written := emits_writeTree style source tree (parent.onChild index) here
        have field : (parent.onChild index).fieldName = tree.label.fieldName := by
          rw [← here]
          rfl
        rw [field, placed] at written
        exact written
      | false =>
        rw [← here]
        exact emits_writeKind (parent.onChild index)
    have key := emits_writeKey style (parent.depth + 1) false (toString (index : Nat))
    have step := parent.sibling?_forward_onChild index
    rw [writeForest, List.mapIdx_cons, renderEntries]
    by_cases more : (index : Nat) + 1 < parent.focus.children.length
    · rw [Cursor.childAt?_eq_some.mpr ⟨more, rfl⟩] at step
      obtain ⟨last, written, up⟩ :=
        emits_writeForest style source rest parent ⟨index + 1, more⟩ others
      refine ⟨last, emits_congr ?_ (emits_then key (emits_bind value (?_ : Emits _
        (renderEntries (octets style.indent) (parent.depth + 1) [0x2C, 0x0A]
          (rest.mapIdx fun offset =>
            treeEntry style source parent.node (index + 1 + offset))) last))), up⟩
      · simp [treeEntry, Nat.add_assoc, Nat.add_comm 1]
      · rw [step]
        exact written
    · rw [Cursor.childAt?_eq_none.mpr (Nat.le_of_not_lt more)] at step
      have last : rest = [] := by
        rw [← others, List.drop_eq_nil_iff]
        omega
      refine ⟨parent.onChild index, emits_congr ?_ (emits_then key (emits_bind value
        (?_ : Emits _ [] (parent.onChild index)))), parent.parent?_onChild index⟩
      · simp [treeEntry, last, renderEntries]
      · rw [step]
        exact emits_pure (parent.onChild index)

end

theorem emits_writeObject (style : Style) (source : Option (Array UInt8)) (cursor : Cursor) :
    Emits (writeObject style source cursor)
      ((ofNode style source cursor.fieldName cursor.node).render
        (octets style.indent) cursor.depth) cursor :=
  emits_writeTree style source cursor.focus cursor rfl

theorem emits_writeDocument (style : Style) (source : Option (Array UInt8)) (node : Node) :
    Emits (writeDocument style source node) (node.dump style source) () := by
  have written := emits_writeObject style source node.walk
  rw [Cursor.node_walk] at written
  rw [writeDocument, Node.dump, ← List.append_nil (render _ _ _)]
  exact emits_then (emits_bind written (emits_pure ())) (emits_write _)

end Json

end ConcreteSyntax
