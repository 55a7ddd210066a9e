import ConcreteSyntax.Json.Document
import Mathlib.Data.List.Nodup

/-!
The keys of a node's object: a few words and the numbers of the children, all different.
-/

namespace ConcreteSyntax

namespace Json

theorem octets_injective {first second : String} (same : octets first = octets second) :
    first = second := by
  simp only [octets, Array.toList_inj] at same
  exact String.toByteArray_inj.mp (ByteArray.ext same)

theorem isDigit_of_mem_toString {number : Nat} {char : Char}
    (member : char ∈ (toString number).toList) : char.isDigit = true := by
  rw [Nat.toString_eq_repr, Nat.toList_repr] at member
  exact Nat.isDigit_of_mem_toDigits (by decide) (by decide) member

theorem toString_injective {first second : Nat} (same : toString first = toString second) :
    first = second := by
  have digits := congrArg String.toList same
  rw [Nat.toString_eq_repr, Nat.toString_eq_repr, Nat.toList_repr, Nat.toList_repr] at digits
  rw [← Nat.ofDigitChars_ten_toDigits (n := first), digits, Nat.ofDigitChars_ten_toDigits]

def wordKeys : List String :=
  ["field", "kind_id", "kind", "raw"]

theorem nodup_wordKeys : wordKeys.Nodup := by
  decide

theorem toString_not_mem_wordKeys (number : Nat) : toString number ∉ wordKeys := by
  intro member
  have digits : ∀ char ∈ (toString number).toList, char.isDigit = true :=
    fun _ inside => isDigit_of_mem_toString inside
  have words : wordKeys.all (fun word => word.toList.any fun char => !char.isDigit) = true := rfl
  obtain ⟨char, inside, letter⟩ := List.any_eq_true.mp (List.all_eq_true.mp words _ member)
  rw [digits char inside] at letter
  contradiction

namespace Document

def wordsOf (style : Style) (source : Option (Array UInt8)) (field : Option String)
    (node : Node) : List String :=
  field.toList.map (fun _ => "field") ++ ["kind_id", "kind"] ++
    (textEntries style source node).map fun _ => "raw"

theorem wordsOf_sublist (style : Style) (source : Option (Array UInt8)) (field : Option String)
    (node : Node) : (wordsOf style source field node).Sublist wordKeys := by
  rcases textEntries_cases style source node with none | ⟨_, _, _, one⟩
  · cases field <;> simp [wordsOf, wordKeys, none]
  · cases field <;> simp [wordsOf, wordKeys, one]

theorem keys_ownEntries (style : Style) (source : Option (Array UInt8)) (field : Option String)
    (node : Node) :
    (ownEntries style source field node).map (·.1) =
      (wordsOf style source field node).map octets := by
  rcases textEntries_cases style source node with none | ⟨_, _, _, one⟩
  · simp [ownEntries, wordsOf, none, Function.comp_def]
  · simp [ownEntries, wordsOf, one, Function.comp_def]

theorem keys_childEntries (style : Style) (source : Option (Array UInt8)) (node : Node) :
    (node.childNodes.mapIdx (childEntry style source node)).map (·.1) =
      ((List.range node.childCount).map toString).map octets := by
  apply List.ext_getElem
  · simp [Node.childNodes, Node.childCount]
  · intro index _ _
    simp [childEntry]

theorem nodup_keys_ofNode (style : Style) (source : Option (Array UInt8)) (field : Option String)
    (node : Node) :
    ((ownEntries style source field node ++
      node.childNodes.mapIdx (childEntry style source node)).map (·.1)).Nodup := by
  rw [List.map_append, keys_ownEntries, keys_childEntries, ← List.map_append]
  apply List.Nodup.map (fun _ _ same => octets_injective same)
  rw [List.nodup_append]
  have words := wordsOf_sublist style source field node
  refine ⟨words.nodup nodup_wordKeys, ?_, ?_⟩
  · exact List.nodup_range.map fun _ _ same => toString_injective same
  · intro word wordMember key keyMember same
    obtain ⟨index, _, shown⟩ := List.mem_map.mp keyMember
    apply toString_not_mem_wordKeys index
    rw [shown, ← same]
    exact words.subset wordMember

theorem distinct_ofNode (style : Style) (source : Option (Array UInt8)) (field : Option String)
    (node : Node) : (ofNode style source field node).Distinct := by
  rw [ofNode_eq, Distinct, allDistinct_iff]
  refine ⟨nodup_keys_ofNode style source field node, ?_⟩
  intro entry member
  rcases List.mem_append.mp member with own | below
  · simp only [ownEntries, List.mem_append, List.mem_map, List.mem_cons, List.not_mem_nil,
      or_false] at own
    rcases own with (⟨_, _, rfl⟩ | rfl | rfl) | shown
    · trivial
    · trivial
    · trivial
    · obtain ⟨_, _, _, rfl⟩ := of_mem_textEntries shown
      trivial
  · obtain ⟨index, bound, same⟩ := List.mem_iff_getElem.mp below
    rw [List.getElem_mapIdx] at same
    subst same
    have smaller := Node.size_lt_of_mem_childNodes (List.getElem_mem (l := node.childNodes)
      (by simpa using bound))
    rw [childEntry]
    split
    · exact distinct_ofNode style source _ _
    · trivial
termination_by node.subtree.size

end Document

end Json

end ConcreteSyntax
