import ConcreteSyntax.Proofs.Relatives
import Mathlib.Data.List.Nodup

/-!
Lookups of children by number, in bounds and out of them.

A number is reduced to a 32-bit counter before the lookup. So a number that is too large for one is
not out of bounds by itself: it answers with the child of the reduced number, if there is one.
-/

namespace ConcreteSyntax

/-- The answer to a lookup by number that is right: there is one just below the count, and it is
the element with that number. -/
structure ExactAt (index count : Nat) (elements : List Node) (answer : Option Node) : Prop where
  present : answer.isSome ↔ index < count
  element : ∀ node, answer = some node → elements[index]? = some node

theorem exactAt_iff {index : Nat} {elements : List Node} {answer : Option Node} :
    ExactAt index elements.length elements answer ↔ answer = elements[index]? := by
  constructor
  · rintro ⟨present, element⟩
    cases answer with
    | some node => exact (element node rfl).symm
    | none =>
        symm
        simpa using present
  · intro same
    subst same
    constructor
    · simp
    · intro node here
      exact here

theorem exactAt_wrap_iff {index : Nat} {elements : List Node} (distinct : elements.Nodup) :
    ExactAt index elements.length elements elements[wrap index]? ↔
      index < 0x100000000 ∨ elements.length ≤ wrap index := by
  have reduced : wrap index ≤ index := Nat.mod_le _ _
  rw [exactAt_iff]
  by_cases bound : wrap index < elements.length
  · rw [List.getElem?_inj bound distinct, wrap_eq_self_iff]
    omega
  · rw [List.getElem?_eq_none (by omega), List.getElem?_eq_none (by omega)]
    simp only [true_iff]
    omega

namespace Node

theorem nodup_childNodes (node : Node) : node.childNodes.Nodup := by
  rw [← Cursor.node_walk node, Cursor.childNodes_node]
  refine List.Nodup.map ?_ (List.nodup_finRange _)
  intro first second same
  have paths := List.append_cancel_left (congrArg Node.path same)
  exact Fin.ext (List.singleton_inj.mp paths)

/-- A lookup by number answers with the child, or the named child, of the reduced number. This is
right for all 32-bit counters, and beyond them just where the reduced number is out of bounds too. -/
theorem lookups_exactAt_iff (node : Node) (index : Nat) :
    (ExactAt index node.childCount node.children (node.child? index) ↔
        index < 0x100000000 ∨ node.childCount ≤ wrap index) ∧
      (ExactAt index node.namedChildCount node.namedChildren (node.namedChild? index) ↔
        index < 0x100000000 ∨ node.namedChildCount ≤ wrap index) ∧
      node.child? index = node.children[wrap index]? ∧
      node.namedChild? index = node.namedChildren[wrap index]? := by
  have all : node.children = node.childNodes := node.children_eq
  have named : node.namedChildren = node.childNodes.filter (·.isNamed) := node.namedChildren_eq
  have here : node.child? index = node.children[wrap index]? := by
    rw [all, child?_eq_getElem?]
  have namedHere : node.namedChild? index = node.namedChildren[wrap index]? := by
    rw [named, namedChild?]
  have count : node.childCount = node.children.length := by
    rw [all, length_childNodes]
  have namedCount : node.namedChildCount = node.namedChildren.length := by
    rw [named, length_namedChildNodes]
  have distinct : node.children.Nodup := by
    rw [all]
    exact node.nodup_childNodes
  have namedDistinct : node.namedChildren.Nodup := by
    rw [named]
    exact node.nodup_childNodes.filter _
  refine ⟨?_, ?_, here, namedHere⟩
  · rw [here, count]
    exact exactAt_wrap_iff distinct
  · rw [namedHere, namedCount]
    exact exactAt_wrap_iff namedDistinct

/-- Number 4294967296 answers with the first child, also when only the named ones count. -/
theorem comparison_wideIndex :
    (comparison.child? 0x100000000).isSome = true ∧
      ¬0x100000000 < comparison.childCount ∧
      (comparison.namedChild? 0x100000000).isSome = true ∧
      ¬0x100000000 < comparison.namedChildCount := by
  refine ⟨rfl, ?_, rfl, ?_⟩
  · decide
  · decide

end Node

end ConcreteSyntax
