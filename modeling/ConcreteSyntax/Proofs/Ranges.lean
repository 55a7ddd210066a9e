import ConcreteSyntax.Node

/-!
Properties of all nodes in a tree, trees whose nodes lie within their parents, and the text that is
in the range of a node.
-/

namespace ConcreteSyntax

namespace Tree

def Everywhere (property : Tree → Prop) (tree : Tree) : Prop :=
  ∀ path subtree, tree.subtreeAt? path = some subtree → property subtree

theorem everywhere_iff {property : Tree → Prop} {tree : Tree} :
    tree.Everywhere property ↔
      property tree ∧ ∀ child ∈ tree.children, child.Everywhere property := by
  constructor
  · intro everywhere
    refine ⟨everywhere [] tree rfl, ?_⟩
    intro child member path subtree here
    obtain ⟨index, bound, same⟩ := List.mem_iff_getElem.mp member
    apply everywhere (index :: path)
    rw [subtreeAt?, List.getElem?_eq_getElem bound, Option.bind_some, same]
    exact here
  · rintro ⟨top, below⟩ path subtree here
    cases path with
    | nil =>
        injection here with same
        exact same ▸ top
    | cons index path =>
        rw [subtreeAt?, Option.bind_eq_some_iff] at here
        obtain ⟨child, found, here⟩ := here
        exact below child (List.mem_of_getElem? found) path subtree here

theorem everywhere_node {property : Tree → Prop} {label : Label} {children : List Tree} :
    (node label children).Everywhere property ↔
      property (node label children) ∧ ∀ child ∈ children, child.Everywhere property :=
  everywhere_iff

end Tree

theorem Node.childInduction {motive : Node → Prop}
    (step : ∀ node : Node, (∀ child ∈ node.childNodes, motive child) → motive node)
    (node : Node) : motive node := by
  induction size : node.subtree.size using Nat.strongRecOn generalizing node with
  | ind size ih =>
      subst size
      apply step
      intro child member
      exact ih _ (Node.size_lt_of_mem_childNodes member) child rfl

structure Span.Within (inner outer : Span) : Prop where
  starts : outer.startByte ≤ inner.startByte
  ordered : inner.startByte ≤ inner.endByte
  ends : inner.endByte ≤ outer.endByte

theorem Span.within_iff {inner outer : Span} :
    inner.Within outer ↔ outer.startByte ≤ inner.startByte ∧ inner.startByte ≤ inner.endByte ∧
      inner.endByte ≤ outer.endByte :=
  ⟨fun ⟨starts, ordered, ends⟩ => ⟨starts, ordered, ends⟩,
    fun ⟨starts, ordered, ends⟩ => ⟨starts, ordered, ends⟩⟩

theorem Span.Within.trans {first second third : Span} (inner : first.Within second)
    (outer : second.Within third) : first.Within third :=
  ⟨Nat.le_trans outer.starts inner.starts, inner.ordered, Nat.le_trans inner.ends outer.ends⟩

namespace Tree

/-- No node of the tree ends before it starts or reaches out of its parent. -/
def Nested (tree : Tree) : Prop :=
  tree.Everywhere fun subtree =>
    subtree.label.span.Within subtree.label.span ∧
      ∀ child ∈ subtree.children, child.label.span.Within subtree.label.span

theorem Nested.within {tree : Tree} (nested : tree.Nested) :
    tree.Everywhere fun subtree => subtree.label.span.Within tree.label.span := by
  intro path subtree here
  induction path generalizing tree with
  | nil =>
      obtain ⟨top, below⟩ := everywhere_iff.mp nested
      injection here with same
      exact same ▸ top.1
  | cons index path ih =>
      obtain ⟨top, below⟩ := everywhere_iff.mp nested
      rw [subtreeAt?, Option.bind_eq_some_iff] at here
      obtain ⟨child, found, here⟩ := here
      have member := List.mem_of_getElem? found
      exact (ih (below child member) here).trans (top.2 child member)

end Tree

theorem Node.toList_rawText (node : Node) (source : Array UInt8) :
    (node.rawText source).toList =
      (source.toList.take node.span.endByte).drop node.span.startByte := by
  have stop : source.toList.take (min node.span.endByte source.size) =
      source.toList.take node.span.endByte := by
    simp
  rw [rawText, Array.toList_extract, List.extract_eq_take_drop, ← List.drop_take, stop]
  rcases Nat.le_total node.span.startByte (min node.span.endByte source.size) with inside | past
  · rw [Nat.min_eq_left inside]
  · rw [Nat.min_eq_right past, List.drop_of_length_le, List.drop_of_length_le]
    · simpa using past
    · simp

end ConcreteSyntax
