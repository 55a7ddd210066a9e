import ConcreteSyntax.Proofs.Dump
import ConcreteSyntax.Proofs.Escaping
import ConcreteSyntax.Proofs.Excerpts

/-!
Dumps inside dumps.

Whatever a dump writes for a node below the root, it writes what the dump of that node alone holds,
moved in by as many levels and with the line of the field that the node has in its parent.
-/

namespace ConcreteSyntax

/-- The node reached by a way of child indices on which every node but the first is named. -/
def Node.namedAt? (node : Node) : List Nat → Option Node
  | [] => some node
  | index :: path => do
      let child ← node.childNodes[index]?
      if child.isNamed then child.namedAt? path else none

namespace Json

open Document

/-- The text with more lines put in after its first, and a margin before every line but the
first. -/
def movedIn (margin : List UInt8) (added : List (List UInt8)) (text : List UInt8) : List UInt8 :=
  match text.splitOn 0x0A with
  | [] => []
  | first :: rest => first ++ (added ++ rest).flatMap fun line => 0x0A :: (margin ++ line)

def shifted (margin text : List UInt8) : List UInt8 :=
  text.flatMap fun byte => if byte = 0x0A then 0x0A :: margin else [byte]

theorem shifted_append (margin first second : List UInt8) :
    shifted margin (first ++ second) = shifted margin first ++ shifted margin second :=
  List.flatMap_append

theorem shifted_of_oneLine {text : List UInt8} (margin : List UInt8)
    (oneLine : (0x0A : UInt8) ∉ text) : shifted margin text = text := by
  induction text with
  | nil => rfl
  | cons byte rest ih =>
      rw [List.mem_cons, not_or] at oneLine
      obtain ⟨other, inner⟩ := oneLine
      rw [shifted, List.flatMap_cons, if_neg (Ne.symm other), ← shifted, ih inner]
      rfl

theorem shifted_line {first : List UInt8} (margin : List UInt8) (oneLine : (0x0A : UInt8) ∉ first)
    (rest : List UInt8) :
    shifted margin (first ++ 0x0A :: rest) = first ++ 0x0A :: (margin ++ shifted margin rest) := by
  rw [shifted_append, shifted_of_oneLine margin oneLine]
  rfl

theorem flatMap_splitOn (margin text : List UInt8) :
    (text.splitOn 0x0A).flatMap (fun line => 0x0A :: (margin ++ line)) =
      0x0A :: (margin ++ shifted margin text) := by
  induction text with
  | nil => simp [shifted]
  | cons byte rest ih =>
      rw [List.splitOn_cons_eq_if_modifyHead, shifted, List.flatMap_cons, ← shifted]
      by_cases lineEnd : byte = 0x0A
      · simp [lineEnd, ih]
      · obtain ⟨first, others, lines⟩ :=
          List.exists_cons_of_ne_nil (List.splitOn_ne_nil 0x0A rest)
        rw [lines] at ih ⊢
        simp only [List.flatMap_cons, List.cons_append, List.append_assoc, List.cons.injEq,
          true_and, List.append_cancel_left_eq] at ih
        simp [lineEnd, ih]

theorem movedIn_eq {first : List UInt8} (margin : List UInt8) (added : List (List UInt8))
    (rest : List UInt8) (oneLine : (0x0A : UInt8) ∉ first) :
    movedIn margin added (first ++ 0x0A :: rest) =
      first ++ ((added.flatMap fun line => 0x0A :: (margin ++ line)) ++
        0x0A :: (margin ++ shifted margin rest)) := by
  rw [movedIn, List.splitOn_append_cons_self_of_not_mem oneLine]
  simp only [List.flatMap_append, flatMap_splitOn]

example : movedIn (octets "  ") [octets "b"] (octets "a\nc") = octets "a\n  b\n  c" := rfl

theorem oneLine_quote (bytes : List UInt8) : (0x0A : UInt8) ∉ quote bytes := by
  intro member
  have image : (0x0A : UInt8) ∈ escape bytes := by
    simpa [quote] using member
  rcases of_mem_escape image with plain | quote | backslash <;> contradiction

section

variable {indent : List UInt8}

theorem oneLine_margin (flat : (0x0A : UInt8) ∉ indent) (level : Nat) :
    (0x0A : UInt8) ∉ margin indent level := by
  intro member
  obtain ⟨piece, copied, inside⟩ := List.mem_flatten.mp member
  rw [List.eq_of_mem_replicate copied] at inside
  exact flat inside

theorem margin_add (indent : List UInt8) (level more : Nat) :
    margin indent (level + more) = margin indent more ++ margin indent level := by
  rw [Nat.add_comm, margin, List.replicate_add, List.flatten_append]
  rfl

mutual

theorem render_add (flat : (0x0A : UInt8) ∉ indent) (level more : Nat) (document : Document) :
    document.render indent (level + more) =
      shifted (margin indent more) (document.render indent level) := by
  match document with
  | .text bytes =>
      rw [render, render, shifted_of_oneLine _ (oneLine_quote bytes)]
  | .object entries =>
      have entriesMoved := renderEntries_add flat (level + 1) more entries [0x0A]
        (by simp [shifted])
      rw [Nat.add_right_comm] at entriesMoved
      simp only [render, shifted_append, entriesMoved,
        shifted_of_oneLine _ (oneLine_margin flat level), margin_add]
      simp [shifted]

theorem renderEntries_add (flat : (0x0A : UInt8) ∉ indent) (level more : Nat)
    (entries : List (List UInt8 × Document)) (separator : List UInt8)
    (ends : shifted (margin indent more) separator = separator ++ margin indent more) :
    renderEntries indent (level + more) separator entries =
      shifted (margin indent more) (renderEntries indent level separator entries) := by
  match entries with
  | [] => rfl
  | (key, value) :: rest =>
      have others := renderEntries_add flat level more rest [0x2C, 0x0A]
        (by simp [shifted])
      have colon : shifted (margin indent more) [0x3A, 0x20] = [0x3A, 0x20] := rfl
      simp only [renderEntries, shifted_append, ends, others, colon,
        shifted_of_oneLine _ (oneLine_margin flat level), shifted_of_oneLine _ (oneLine_quote key),
        render_add flat level more value, margin_add, List.append_assoc]

end

def fieldLine (indent : List UInt8) (name : String) : List UInt8 :=
  indent ++ quote (octets "field") ++ [0x3A, 0x20] ++ quote (octets name) ++ [0x2C]

theorem oneLine_fieldLine (flat : (0x0A : UInt8) ∉ indent) (name : String) :
    (0x0A : UInt8) ∉ fieldLine indent name := by
  simp [fieldLine, flat, oneLine_quote]

theorem ofNode_field (style : Style) (source : Option (Array UInt8)) (node : Node) :
    ∃ entries, entries ≠ [] ∧ ∀ field, ofNode style source field node =
      object (field.toList.map (fun name => (octets "field", text (octets name))) ++ entries) := by
  refine ⟨ownEntries style source none node ++
    node.childNodes.mapIdx (childEntry style source node), ?_, ?_⟩
  · simp [ownEntries]
  · intro field
    rw [ofNode_eq]
    simp [ownEntries]

theorem render_ofNode (flat : (0x0A : UInt8) ∉ indent) (level : Nat) (style : Style)
    (source : Option (Array UInt8)) (field : Option String) (node : Node) :
    (ofNode style source field node).render indent level =
      movedIn (margin indent level) (field.toList.map (fieldLine indent))
        ((ofNode style source none node).render indent 0) := by
  obtain ⟨entries, filled, same⟩ := ofNode_field style source node
  obtain ⟨entry, rest, parts⟩ := List.exists_cons_of_ne_nil filled
  have opening : (0x0A : UInt8) ∉ [0x7B] := by decide
  have alone : (ofNode style source none node).render indent 0 =
      [0x7B] ++ 0x0A :: (renderEntries indent 1 [] entries ++ [0x0A, 0x7D]) := by
    rw [same, parts]
    simp [render, renderEntries_separator _ _ [0x0A], margin]
  have moved := render_add flat 0 level (ofNode style source field node)
  rw [Nat.zero_add] at moved
  rw [moved, alone, movedIn_eq _ _ _ opening]
  cases field with
  | none => rw [alone, shifted_line _ opening]; rfl
  | some name =>
      have own : (ofNode style source (some name) node).render indent 0 =
          [0x7B] ++ 0x0A :: (fieldLine indent name ++
            0x0A :: (renderEntries indent 1 [] entries ++ [0x0A, 0x7D])) := by
        rw [same, parts]
        simp [render, renderEntries, margin, fieldLine]
      rw [own, shifted_line _ opening, shifted_line _ (oneLine_fieldLine flat name)]
      simp

end

theorem valueText?_ofNode {indent : List UInt8} (blank : Blank indent) (level : Nat)
    (tail : List UInt8) (style : Style) (source : Option (Array UInt8)) (field : Option String)
    {node child : Node} {index : Nat} (here : node.childNodes[index]? = some child) (named : child.isNamed = true) :
    valueText? ((ofNode style source field node).render indent level ++ tail)
        (octets (toString index)) =
      some ((ofNode style source (node.fieldNameForChild? index) child).render indent
        (level + 1)) := by
  have distinct := distinct_ofNode style source field node
  rw [ofNode_eq] at distinct ⊢
  apply valueText?_render blank level tail distinct
  apply List.mem_append_right
  apply List.mem_of_getElem? (i := index)
  rw [List.getElem?_mapIdx, here, Option.map_some, childEntry, if_pos named]

theorem excerpt?_ofNode {indent : List UInt8} (blank : Blank indent) (style : Style)
    (source : Option (Array UInt8)) {node parent child : Node} {path : List Nat} {index : Nat}
    (way : node.namedAt? path = some parent) (here : parent.childNodes[index]? = some child)
    (named : child.isNamed = true) (field : Option String) (level : Nat) (tail : List UInt8) :
    excerpt? ((ofNode style source field node).render indent level ++ tail)
        ((path ++ [index]).map fun step => octets (toString step)) =
      some ((ofNode style source (parent.fieldNameForChild? index) child).render indent
        (level + (path.length + 1))) := by
  induction path generalizing node field level tail with
  | nil =>
      injection way with same
      subst same
      rw [List.nil_append, List.map_singleton, excerpt?,
        valueText?_ofNode blank level tail style source field here named]
      rfl
  | cons step path ih =>
      obtain ⟨next, below, onward⟩ := Option.bind_eq_some_iff.mp way
      split at onward
      next nextNamed =>
        have inner := ih onward (node.fieldNameForChild? step) (level + 1) []
        rw [List.append_nil] at inner
        rw [List.cons_append, List.map_cons, excerpt?,
          valueText?_ofNode blank level tail style source field below nextNamed,
          Option.bind_some, inner, List.length_cons]
        congr 2
        omega
      · contradiction

/-- Dumps nest. Under the numbers of the children on a way through named nodes, the dump of a node
holds the dump of the last of them, moved in by a margin for each level. The line of its field,
where its parent has one for it, comes after the opening brace. -/
theorem toJson_nests (source : Option (Array UInt8)) {node parent child : Node} {path : List Nat}
    {index : Nat} (way : node.namedAt? path = some parent)
    (here : parent.childNodes[index]? = some child) (named : child.isNamed = true) :
    ∃ whole body : List UInt8,
      node.toJson source = .ok whole.toArray ∧
      child.toJson source = .ok (body ++ [0x0A]).toArray ∧
      excerpt? whole ((path ++ [index]).map fun step => octets (toString step)) =
        some (movedIn (margin (octets "    ") (path.length + 1))
          ((parent.fieldNameForChild? index).toList.map (fieldLine (octets "    "))) body) := by
  have blank : Blank (octets "    ") := rfl
  have flat : (0x0A : UInt8) ∉ octets "    " := by decide
  refine ⟨_, (ofNode .standard source none child).render (octets "    ") 0, toJson_eq source node,
    toJson_eq source child, ?_⟩
  rw [← render_ofNode flat, Node.dump, Node.document]
  have found := excerpt?_ofNode blank .standard source way here named none 0 [0x0A]
  rw [Nat.zero_add] at found
  exact found

def quotedFile : Node :=
  SyntaxTree.rootNode ⟨0, .node { quotedCall.label with kindId := 11, kind := "file" }
    [quotedCall.subtree]⟩

theorem quotedFile_nests :
    ∃ parent child : Node,
      quotedFile.namedAt? [0] = some parent ∧ parent.childNodes[1]? = some child ∧
      child.isNamed = true ∧
      ∃ whole body : List UInt8,
        quotedFile.toJson (some #[0x22, 0x5C, 0x0A, 0xFF, 0x22]) = .ok whole.toArray ∧
        child.toJson (some #[0x22, 0x5C, 0x0A, 0xFF, 0x22]) = .ok (body ++ [0x0A]).toArray ∧
        excerpt? whole (([0] ++ [1]).map fun step => octets (toString step)) =
          some (movedIn (margin (octets "    ") 2) [fieldLine (octets "    ") "callee"] body) := by
  have way : quotedFile.namedAt? [0] = some (quotedFile.below 0 quotedCall.subtree) := rfl
  exact ⟨_, _, way, rfl, rfl, toJson_nests _ way rfl rfl⟩

end Json

end ConcreteSyntax
