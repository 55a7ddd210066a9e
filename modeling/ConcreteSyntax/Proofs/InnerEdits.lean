import ConcreteSyntax.Proofs.Edits

/-!
Handles kept while the source is edited inside of them.

An edit of a handle looks only at where the handle starts. If the text is replaced further inside,
the handle keeps both of its ends, so it has as many bytes as before, whatever has been put in.
-/

namespace ConcreteSyntax

namespace Replacement

/-- The replacement is one in this source, inside of a span of it and not at the start of the span.
All offsets in the span are 32-bit counters. -/
structure Inside (change : Replacement) (source : Array UInt8) (span : Span) : Prop where
  starts : span.startByte < change.edit.startByte
  ordered : change.edit.startByte ≤ change.edit.oldEndByte
  ends : change.edit.oldEndByte ≤ span.endByte
  inside : span.endByte ≤ source.size
  length : change.edit.newEndByte = change.edit.startByte + change.text.size
  counted : span.endByte < 0x100000000

def amended (change : Replacement) (span : Span) (text : List UInt8) : List UInt8 :=
  text.take (change.edit.startByte - span.startByte) ++ change.text.toList ++
    text.drop (change.edit.oldEndByte - span.startByte)

variable {change : Replacement} {source : Array UInt8} {span : Span}

theorem length_amended (inside : change.Inside source span) {text : List UInt8}
    (whole : text.length = span.endByte - span.startByte) :
    (change.amended span text).length + change.edit.oldEndByte + span.startByte =
      span.endByte + change.edit.newEndByte := by
  obtain ⟨starts, ordered, ends, _, length, _⟩ := inside
  simp only [amended, List.length_append, List.length_take, List.length_drop,
    Array.length_toList, whole]
  omega

theorem length_front (inside : change.Inside source span) :
    (source.toList.take span.startByte).length = span.startByte := by
  obtain ⟨starts, ordered, ends, fits, _, _⟩ := inside
  rw [List.length_take, Array.length_toList, Nat.min_eq_left (by omega)]

theorem toList_apply_of_inside (inside : change.Inside source span) :
    (change.apply source).toList =
      source.toList.take span.startByte ++
        (change.amended span ((source.toList.take span.endByte).drop span.startByte) ++
          source.toList.drop span.endByte) := by
  obtain ⟨starts, ordered, ends, fits, _, _⟩ := inside
  have front : source.toList.take change.edit.startByte =
      source.toList.take span.startByte ++
        ((source.toList.take span.endByte).drop span.startByte).take
          (change.edit.startByte - span.startByte) := by
    rw [List.take_drop, List.take_take, Nat.add_sub_cancel' (by omega),
      Nat.min_eq_left (by omega)]
    have again := List.take_append_drop span.startByte
      (source.toList.take change.edit.startByte)
    rw [List.take_take, Nat.min_eq_left (by omega)] at again
    exact again.symm
  have back : source.toList.drop change.edit.oldEndByte =
      ((source.toList.take span.endByte).drop span.startByte).drop
          (change.edit.oldEndByte - span.startByte) ++
        source.toList.drop span.endByte := by
    rw [List.drop_drop, Nat.add_sub_cancel' (by omega), ← List.drop_append_of_le_length,
      List.take_append_drop]
    rw [List.length_take, Array.length_toList]
    omega
  rw [toList_apply, front, back, amended]
  simp only [List.append_assoc]

theorem place_of_inside (inside : change.Inside source span) (point : Point) :
    change.edit.place span.startByte point = (span.startByte, point) := by
  obtain ⟨starts, ordered, ends, _, _, counted⟩ := inside
  have startByte : wrap change.edit.startByte = change.edit.startByte :=
    wrap_eq_self_iff.mpr (by omega)
  have oldEndByte : wrap change.edit.oldEndByte = change.edit.oldEndByte :=
    wrap_eq_self_iff.mpr (by omega)
  simp only [Edit.place, Edit.reduced, startByte, oldEndByte]
  rw [if_neg (by omega), if_neg (by omega)]

end Replacement

theorem take_append_eq_left_iff {first second : List UInt8} {count : Nat} :
    (first ++ second).take count = first ↔
      first.length ≤ count ∧ (first.length = count ∨ second = []) := by
  rw [List.take_append]
  by_cases enough : first.length ≤ count
  · have exact : count - first.length = 0 ↔ first.length = count := by omega
    rw [List.take_of_length_le enough, List.append_right_eq_self, List.take_eq_nil_iff, exact,
      and_iff_right enough]
  · constructor
    · intro same
      have length := congrArg List.length same
      simp only [List.length_append, List.length_take] at length
      omega
    · rintro ⟨enough', _⟩
      contradiction

namespace Node

variable {change : Replacement} {source : Array UInt8} {node : Node}

theorem span_edit_of_inside (inside : change.Inside source node.span) :
    (node.edit change.edit).span.startByte = node.span.startByte ∧
      (node.edit change.edit).span.endByte = node.span.endByte := by
  have place := change.place_of_inside inside node.span.startPoint
  obtain ⟨starts, ordered, ends, _, _, counted⟩ := inside
  rw [edit_eq, span_respan, Edit.shift, place]
  simp only [Span.moved]
  rw [displaced_eq (Nat.le_refl _) (by omega), displaced_eq (by omega) (by omega)]
  omega

theorem rawText_edit_of_inside (inside : change.Inside source node.span) :
    ((node.edit change.edit).rawText (change.apply source)).toList =
      (change.amended node.span (node.rawText source).toList ++
        source.toList.drop node.span.endByte).take
          (node.span.endByte - node.span.startByte) := by
  obtain ⟨start, stop⟩ := span_edit_of_inside inside
  rw [toList_rawText, start, stop, change.toList_apply_of_inside inside, toList_rawText,
    List.drop_take, List.drop_left' (change.length_front inside)]

/-- A replacement inside of a handle leaves both ends of the handle where they are. So its text is
the amended one with the bytes after it, cut to the old length. The end is right just if the new
part is as long as the old one, and the text also if the part is shorter and the source ends with
the handle. -/
theorem edit_inside (inside : change.Inside source node.span) :
    let handle := node.edit change.edit
    let text := (handle.rawText (change.apply source)).toList
    let amended := change.amended node.span (node.rawText source).toList
    handle.span.startByte = node.span.startByte ∧
      handle.span.endByte = node.span.endByte ∧
      text = (amended ++ source.toList.drop node.span.endByte).take
        (node.span.endByte - node.span.startByte) ∧
      (handle.span.endByte + change.edit.oldEndByte =
          node.span.endByte + change.edit.newEndByte ↔
        change.edit.newEndByte = change.edit.oldEndByte) ∧
      (text = amended ↔
        change.edit.newEndByte = change.edit.oldEndByte ∨
          change.edit.newEndByte < change.edit.oldEndByte ∧
            node.span.endByte = source.size) := by
  intro handle text amended
  obtain ⟨start, stop⟩ := span_edit_of_inside inside
  have cut : text = (amended ++ source.toList.drop node.span.endByte).take
      (node.span.endByte - node.span.startByte) := rawText_edit_of_inside inside
  have length : amended.length + change.edit.oldEndByte + node.span.startByte =
      node.span.endByte + change.edit.newEndByte := by
    apply change.length_amended inside
    rw [toList_rawText, List.length_drop, List.length_take, Array.length_toList,
      Nat.min_eq_left inside.inside]
  have rest : source.toList.drop node.span.endByte = [] ↔ node.span.endByte = source.size := by
    have fits := inside.inside
    rw [List.drop_eq_nil_iff, Array.length_toList]
    omega
  obtain ⟨starts, ordered, ends, _, _, _⟩ := inside
  refine ⟨start, stop, cut, ?_, ?_⟩
  · rw [stop]
    omega
  · rw [cut, take_append_eq_left_iff, rest]
    omega

theorem blanksDropped_inside :
    let source : Array UInt8 := #[0x78, 0x20, 0x3C, 0x20, 0x35]
    let change : Replacement := ⟨⟨1, 4, 2, ⟨0, 1⟩, ⟨0, 4⟩, ⟨0, 2⟩⟩, #[0x3C]⟩
    let handle := comparison.edit change.edit
    change.Inside source comparison.span ∧ handle.span.endByte = 5 ∧
      (handle.rawText (change.apply source)).toList =
        change.amended comparison.span (comparison.rawText source).toList := by
  intro source change handle
  have inside : change.Inside source comparison.span := by
    constructor <;> decide
  obtain ⟨_, stop, _, _, right⟩ := edit_inside inside
  exact ⟨inside, stop, right.mpr (.inr ⟨by decide, rfl⟩)⟩

/-- In `x < 5` the operator becomes `<=`. The end of the whole stays at byte five, and its text loses
the last byte. -/
theorem operatorGrown_losesEnd :
    let source : Array UInt8 := #[0x78, 0x20, 0x3C, 0x20, 0x35]
    let change : Replacement := ⟨⟨2, 3, 4, ⟨0, 2⟩, ⟨0, 3⟩, ⟨0, 4⟩⟩, #[0x3C, 0x3D]⟩
    let handle := comparison.edit change.edit
    change.Inside source comparison.span ∧
      handle.span.endByte + 3 ≠ comparison.span.endByte + 4 ∧
      (handle.rawText (change.apply source)).toList = [0x78, 0x20, 0x3C, 0x3D, 0x20] ∧
      change.amended comparison.span (comparison.rawText source).toList =
        [0x78, 0x20, 0x3C, 0x3D, 0x20, 0x35] := by
  intro source change handle
  have inside : change.Inside source comparison.span := by
    constructor <;> decide
  refine ⟨inside, ?_, ?_, ?_⟩
  · rw [(span_edit_of_inside inside).2]
    decide
  · rw [rawText_edit_of_inside inside, toList_rawText]
    rfl
  · rw [toList_rawText]
    rfl

end Node

end ConcreteSyntax
