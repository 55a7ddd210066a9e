import ConcreteSyntax.Proofs.Confinement
import ConcreteSyntax.Proofs.Ranges

/-!
The text of a node in a source that need not reach so far.

Both ends of a span are brought inside the source, the end first and then the start below the end.
So the text can always be cut out, even for a span that ends before it starts. Where the spans of
the children are in order inside the span of their parent, that is still so for what is left of
them.
-/

namespace ConcreteSyntax

/-- The bytes between two places of a source, if the places are in order and not past its end. -/
def slice? (source : Array UInt8) (start stop : Nat) : Option (Array UInt8) :=
  if start ≤ stop ∧ stop ≤ source.size then some (source.extract start stop) else none

namespace Span

def stopIn (span : Span) (size : Nat) : Nat :=
  min span.endByte size

def startIn (span : Span) (size : Nat) : Nat :=
  min span.startByte (span.stopIn size)

theorem startIn_le_stopIn (span : Span) (size : Nat) : span.startIn size ≤ span.stopIn size :=
  Nat.min_le_right _ _

theorem stopIn_le (span : Span) (size : Nat) : span.stopIn size ≤ size :=
  Nat.min_le_right _ _

theorem stopIn_le_startIn {first next : Span} (apart : first.endByte ≤ next.startByte)
    (ordered : next.startByte ≤ next.endByte) (size : Nat) :
    first.stopIn size ≤ next.startIn size := by
  simp only [startIn, stopIn]
  omega

theorem Within.startIn_le {inner outer : Span} (within : inner.Within outer) (size : Nat) :
    outer.startIn size ≤ inner.startIn size := by
  obtain ⟨starts, ordered, ends⟩ := within
  simp only [startIn, stopIn]
  omega

theorem Within.stopIn_le {inner outer : Span} (within : inner.Within outer) (size : Nat) :
    inner.stopIn size ≤ outer.stopIn size := by
  have ends := within.ends
  simp only [stopIn]
  omega

end Span

namespace Node

theorem slice?_rawText (node : Node) (source : Array UInt8) :
    slice? source (node.span.startIn source.size) (node.span.stopIn source.size) =
      some (node.rawText source) :=
  if_pos ⟨node.span.startIn_le_stopIn source.size, node.span.stopIn_le source.size⟩

theorem rawText_cut (node : Node) (source : Array UInt8) (count : Nat) :
    (node.rawText (source.extract 0 count)).toList =
      (node.rawText source).toList.take (count - node.span.startByte) := by
  have front : (source.extract 0 count).toList = source.toList.take count := by simp
  -- On lists the clamps are gone, and the two cuts at the end of the text change places.
  rw [toList_rawText, toList_rawText, front, ← List.drop_take, List.take_take, List.take_take,
    Nat.min_comm]

theorem rawText_child {node child : Node} (within : child.span.Within node.span)
    (source : Array UInt8) :
    child.rawText source = (node.rawText source).extract
      (child.span.startIn source.size - node.span.startIn source.size)
      (child.span.stopIn source.size - node.span.startIn source.size) := by
  have starts := within.startIn_le source.size
  have ordered := child.span.startIn_le_stopIn source.size
  have ends := within.stopIn_le source.size
  change source.extract (child.span.startIn source.size) (child.span.stopIn source.size) =
    (source.extract (node.span.startIn source.size) (node.span.stopIn source.size)).extract _ _
  rw [Array.extract_extract, Nat.add_sub_cancel' starts, Nat.add_sub_cancel' (by omega),
    Nat.min_eq_left ends]

/-- The text of a node can be cut out of every source, also if the offsets of the node have wrapped
and it ends before it starts. In a source that is cut off the text is a first part of what it was.
If the children are in order inside the node, then so are the parts of them that a source
reaches. -/
theorem rawText_clamped (node : Node) (source : Array UInt8) :
    (node.span.startIn source.size ≤ node.span.stopIn source.size ∧
        node.span.stopIn source.size ≤ source.size ∧
        slice? source (node.span.startIn source.size) (node.span.stopIn source.size) =
          some (node.rawText source)) ∧
      (∀ count, (node.rawText (source.extract 0 count)).toList <+: (node.rawText source).toList) ∧
      ((∀ child ∈ node.childNodes, child.span.Within node.span) →
        (node.childNodes.Pairwise fun first next => first.span.endByte ≤ next.span.startByte) →
        (node.childNodes.Pairwise fun first next =>
            first.span.stopIn source.size ≤ next.span.startIn source.size) ∧
          ∀ child ∈ node.childNodes,
            node.span.startIn source.size ≤ child.span.startIn source.size ∧
              child.span.stopIn source.size ≤ node.span.stopIn source.size ∧
              child.rawText source = (node.rawText source).extract
                (child.span.startIn source.size - node.span.startIn source.size)
                (child.span.stopIn source.size - node.span.startIn source.size)) := by
  refine ⟨⟨node.span.startIn_le_stopIn _, node.span.stopIn_le _, node.slice?_rawText source⟩,
    ?_, ?_⟩
  · intro count
    rw [rawText_cut]
    exact List.take_prefix _ _
  · intro within inOrder
    constructor
    · apply inOrder.imp_of_mem
      intro first next _ member apart
      exact Span.stopIn_le_startIn apart (within next member).ordered source.size
    · intro child member
      have inner := within child member
      exact ⟨inner.startIn_le source.size, inner.stopIn_le source.size, rawText_child inner source⟩

/-- Of `x < 5` the source has only three bytes, which leaves nothing of the last operand. A handle
whose start has been moved to the last but one of all offsets ends at byte three. -/
theorem shortSource_rawText :
    let source : Array UInt8 := #[0x78, 0x20, 0x3C]
    let wrapped := comparison.edit ⟨0, 0, 0xFFFFFFFE, .zero, .zero, ⟨0, 0xFFFFFFFE⟩⟩
    (∀ child ∈ comparison.childNodes, child.span.Within comparison.span) ∧
      (comparison.childNodes.Pairwise fun first next =>
        first.span.endByte ≤ next.span.startByte) ∧
      (comparison.childNodes.Pairwise fun first next =>
        first.span.stopIn 3 ≤ next.span.startIn 3) ∧
      wrapped.span.endByte < wrapped.span.startByte ∧
      slice? source 3 3 = some (wrapped.rawText source) := by
  intro source wrapped
  have within : ∀ child ∈ comparison.childNodes, child.span.Within comparison.span := by
    simp only [Span.within_iff]
    decide
  have inOrder : comparison.childNodes.Pairwise fun first next =>
      first.span.endByte ≤ next.span.startByte := by
    decide
  obtain ⟨_, _, children⟩ := rawText_clamped comparison source
  obtain ⟨⟨_, _, cut⟩, _⟩ := rawText_clamped wrapped source
  exact ⟨within, inOrder, (children within inOrder).1, by decide, cut⟩

end Node

end ConcreteSyntax
