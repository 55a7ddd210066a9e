import ConcreteSyntax.Json.Emits.Walk
import ConcreteSyntax.Proofs.Keys
import ConcreteSyntax.Proofs.Rendering

/-!
What a dump leaves in its sink: the written form of the node's document, of which nothing is lost
to a reader, and the first part of it where the sink runs full.
-/

namespace ConcreteSyntax

namespace Json

open Write

/-- A dump succeeds where the sink has room for the written form of the document, and appends just
that to what the sink holds. -/
theorem writeDocument_appends (style : Style) (source : Option (Array UInt8)) (node : Node)
    (sink after : Sink) :
    (writeDocument style source node).run sink = .ok () after ↔
      sink.room (node.dump style source) = node.dump style source ∧
        after = sink.append (node.dump style source) :=
  (emits_writeDocument style source node).run_eq_ok_iff sink after

theorem toJson_eq (source : Option (Array UInt8)) (node : Node) :
    node.toJson source = .ok (node.dump .standard source).toArray := by
  rw [Node.toJson, (emits_writeDocument .standard source node).run_unlimited]

theorem read?_dump (style : Style) (source : Option (Array UInt8)) (node : Node)
    (blank : Blank (octets style.indent)) :
    Document.read? (node.dump style source) = some (node.document style source) :=
  Document.read?_render blank _ (Document.distinct_ofNode style source none node)

/-- A dump with blanks for its indentation is read back by a strict reader as the node's document,
in which no object has a key twice. So another dump with the same bytes is of the same document. -/
theorem writeDocument_readsBack (style : Style) (source : Option (Array UInt8)) (node : Node)
    (blank : Blank (octets style.indent)) :
    StrictReader Document.read? ∧
    ∃ bytes : List UInt8,
      (writeDocument style source node).run (.empty none) = .ok () ⟨bytes.toArray, none⟩ ∧
      Document.read? bytes = some (node.document style source) ∧
      (node.document style source).Distinct ∧
      ∀ (otherStyle : Style) (otherSource : Option (Array UInt8)) (other : Node),
        Blank (octets otherStyle.indent) →
        (writeDocument otherStyle otherSource other).run (.empty none) =
          .ok () ⟨bytes.toArray, none⟩ →
        other.document otherStyle otherSource = node.document style source := by
  have read := read?_dump style source node blank
  refine ⟨Document.strictReader_read?, _, (emits_writeDocument style source node).run_unlimited,
    read, Document.distinct_ofNode style source none node, ?_⟩
  intro otherStyle otherSource other otherBlank same
  rw [(emits_writeDocument otherStyle otherSource other).run_unlimited] at same
  injection same with _ sinks
  injection sinks with bytes
  injection bytes with bytes
  have otherRead := read?_dump otherStyle otherSource other otherBlank
  rw [bytes, read] at otherRead
  injection otherRead with documents
  exact documents.symm

def quotedCall : Node :=
  let token : Label :=
    { kindId := 2, kind := "\"", grammarId := 2, grammarName := "\"", isNamed := false,
      isExtra := false, isError := false, isMissing := false, hasChanges := false,
      hasError := false, field := none, span := ⟨0, 1, ⟨0, 0⟩, ⟨0, 1⟩⟩, firstChar := some '"' }
  let name : Label :=
    { token with
      kindId := 1, kind := "name", isNamed := true, field := some ⟨7, "callee"⟩,
      span := ⟨1, 4, ⟨0, 1⟩, ⟨1, 1⟩⟩ }
  let call : Label := { token with kindId := 9, kind := "call", isNamed := true }
  SyntaxTree.rootNode ⟨0, .node call [.node token [], .node name [], .node token []]⟩

theorem quotedCall_readsBack :
    Blank (octets "\t") ∧
      StrictReader Document.read? ∧
      ∃ bytes : List UInt8,
        (writeDocument ⟨"\t", true⟩ (some #[0x22, 0x5C, 0x0A, 0xFF, 0x22]) quotedCall).run
            (.empty none) = .ok () ⟨bytes.toArray, none⟩ ∧
        Document.read? bytes =
          some (quotedCall.document ⟨"\t", true⟩ (some #[0x22, 0x5C, 0x0A, 0xFF, 0x22])) ∧
        (quotedCall.document ⟨"\t", true⟩ (some #[0x22, 0x5C, 0x0A, 0xFF, 0x22])).Distinct ∧
        ∀ (otherStyle : Style) (otherSource : Option (Array UInt8)) (other : Node),
          Blank (octets otherStyle.indent) →
          (writeDocument otherStyle otherSource other).run (.empty none) =
            .ok () ⟨bytes.toArray, none⟩ →
          other.document otherStyle otherSource =
            quotedCall.document ⟨"\t", true⟩ (some #[0x22, 0x5C, 0x0A, 0xFF, 0x22]) :=
  ⟨rfl, writeDocument_readsBack ⟨"\t", true⟩ _ quotedCall rfl⟩

/-- A program that writes `complete` if it is let, and into a limited sink the first part of it:
everything if it fits, and otherwise as many bytes as the sink takes before it fails. -/
def WritesUpTo (program : Write Unit) (complete : List UInt8) : Prop :=
  program.run (.empty none) = .ok () ⟨complete.toArray, none⟩ ∧
    ∀ limit : Nat, program.run (.empty (some limit)) =
      if complete.length ≤ limit then .ok () ⟨complete.toArray, some limit⟩
      else .error .full ⟨(complete.take limit).toArray, some limit⟩

theorem writesUpTo_of_emits {program : Write Unit} {complete : List UInt8}
    (writes : program.Emits complete ()) : WritesUpTo program complete :=
  ⟨writes.run_unlimited, writes.run_limited⟩

/-- Dumps and escaped strings leave just a first part of their output in a sink that runs full. A
dump into a buffer never fails, and is what a standard dump into an unlimited sink writes. -/
theorem writes_firstPart (style : Style) (source : Option (Array UInt8)) (node : Node)
    (bytes : List UInt8) :
    WritesUpTo (writeDocument style source node) (node.dump style source) ∧
      WritesUpTo (writeEscaped bytes) (escape bytes) ∧
      node.toJson source = .ok (node.dump .standard source).toArray ∧
      (writeDocument .standard source node).run (.empty none) =
        .ok () ⟨(node.dump .standard source).toArray, none⟩ := by
  have standard := (emits_writeDocument .standard source node).run_unlimited
  refine ⟨writesUpTo_of_emits (emits_writeDocument style source node),
    writesUpTo_of_emits (emits_writeEscaped bytes), ?_, standard⟩
  rw [Node.toJson, standard]

end Json

end ConcreteSyntax
