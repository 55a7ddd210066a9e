import ConcreteSyntax.Proofs.Confinement
import ConcreteSyntax.Proofs.Dump
import ConcreteSyntax.Proofs.Ranges
import ConcreteSyntax.Proofs.Strings

/-!
Which dumps are standard JSON.

The structure of a dump always is. Its strings are where the bytes of each are a text, and that text
has no control character that escaping leaves as it is.
-/

namespace ConcreteSyntax

namespace Json

theorem clean_append_iff {first second : List UInt8} :
    Clean (first ++ second) ↔ Clean first ∧ Clean second :=
  List.forall_mem_append

theorem clean_of_shown {bytes : List UInt8} (shown : ∀ byte ∈ bytes, 0x20 ≤ byte.toNat) :
    Clean bytes :=
  fun byte member bare => Nat.not_le.mpr bare.1 (shown byte member)

theorem Blank.clean {bytes : List UInt8} (blank : Blank bytes) : Clean bytes := by
  intro byte member
  have blankByte := List.all_eq_true.mp blank byte member
  simp only [isBlank, Bool.or_eq_true, decide_eq_true_eq] at blankByte
  rcases blankByte with ((rfl | rfl) | rfl) | rfl <;> decide

theorem Token.clean {byte : UInt8} {text : List UInt8} (token : Token byte text)
    (shown : 0x20 ≤ byte.toNat) : Clean text := by
  obtain ⟨blanks, blank, rfl⟩ := token.led
  refine clean_append_iff.mpr ⟨blank.clean, clean_of_shown ?_⟩
  simpa using shown

namespace Standard

theorem Spelled.clean {text : List UInt8} {units : List Nat} (spelled : Spelled text units) :
    Clean text := by
  obtain ⟨body, spells, rfl⟩ := spelled
  apply clean_of_shown
  simp only [List.forall_mem_cons, List.forall_mem_append]
  exact ⟨by decide, spells.shown, by decide, by simp⟩

theorem Name.clean {text : List UInt8} (name : Name text) : Clean text := by
  obtain ⟨blanks, string, blank, ⟨units, spelled⟩, rfl⟩ := name
  exact clean_append_iff.mpr ⟨blank.clean, spelled.clean⟩

theorem Digits.shown {bytes : List UInt8} (digits : Digits bytes) :
    ∀ byte ∈ bytes, 0x20 ≤ byte.toNat :=
  fun byte member => Nat.le_trans (by decide) (digits.2 byte member).1

theorem Number.clean {bytes : List UInt8} (number : Number bytes) : Clean bytes := by
  obtain ⟨sign, whole, fraction, exponent, signed, wholes, fractions, exponents, rfl⟩ := number
  simp only [clean_append_iff]
  refine ⟨?_, ?_, ?_, ?_⟩
  · rcases signed with rfl | rfl <;> decide
  · cases wholes with
    | zero => decide
    | digits digits _ => exact clean_of_shown digits.shown
  · cases fractions with
    | none => decide
    | digits digits =>
        apply clean_of_shown
        exact List.forall_mem_cons.mpr ⟨by decide, digits.shown⟩
  · cases exponents with
    | none => decide
    | digits letter sign digits =>
        apply clean_of_shown
        rw [List.forall_mem_cons, List.forall_mem_append]
        refine ⟨?_, ?_, digits.shown⟩
        · rcases letter with rfl | rfl <;> decide
        · rcases sign with rfl | rfl | rfl <;> simp

theorem clean_of_mem_words {word : String} (member : word ∈ words) : Clean (octets word) := by
  simp only [words, List.mem_cons, List.not_mem_nil, or_false] at member
  rcases member with rfl | rfl | rfl <;> decide

mutual

theorem Value.clean {text : List UInt8} (value : Value text) : Clean text := by
  have opens : 0x20 ≤ (0x5B : UInt8).toNat ∧ 0x20 ≤ (0x7B : UInt8).toNat := by decide
  have closes : 0x20 ≤ (0x5D : UInt8).toNat ∧ 0x20 ≤ (0x7D : UInt8).toNat := by decide
  match value with
  | .string name => exact name.clean
  | .number blank number => exact clean_append_iff.mpr ⟨blank.clean, number.clean⟩
  | .word blank word => exact clean_append_iff.mpr ⟨blank.clean, clean_of_mem_words word⟩
  | .emptyArray opening closing =>
      exact clean_append_iff.mpr ⟨opening.clean opens.1, closing.clean closes.1⟩
  | .array opening items closing =>
      simp only [clean_append_iff]
      exact ⟨opening.clean opens.1, items.clean, closing.clean closes.1⟩
  | .emptyObject opening closing =>
      exact clean_append_iff.mpr ⟨opening.clean opens.2, closing.clean closes.2⟩
  | .object opening members closing =>
      simp only [clean_append_iff]
      exact ⟨opening.clean opens.2, members.clean, closing.clean closes.2⟩

theorem Items.clean {text : List UInt8} (items : Items text) : Clean text := by
  match items with
  | .last value => exact value.clean
  | .more value comma rest =>
      simp only [clean_append_iff]
      exact ⟨value.clean, comma.clean (by decide), rest.clean⟩

theorem Members.clean {text : List UInt8} (members : Members text) : Clean text := by
  match members with
  | .last name colon value =>
      simp only [clean_append_iff]
      exact ⟨name.clean, colon.clean (by decide), value.clean⟩
  | .more name colon value comma rest =>
      simp only [clean_append_iff]
      exact ⟨name.clean, colon.clean (by decide), value.clean, comma.clean (by decide), rest.clean⟩

end

theorem IsDocument.clean {text : List UInt8} (document : IsDocument text) : Clean text := by
  obtain ⟨value, blanks, valid, blank, rfl⟩ := document
  exact clean_append_iff.mpr ⟨valid.clean, blank.clean⟩

end Standard

namespace Document

mutual

def strings : Document → List (List UInt8)
  | text bytes => [bytes]
  | object entries => entryStrings entries

def entryStrings : List (List UInt8 × Document) → List (List UInt8)
  | [] => []
  | (key, value) :: rest => key :: (value.strings ++ entryStrings rest)

end

theorem forall_entryStrings {property : List UInt8 → Prop}
    {entries : List (List UInt8 × Document)} :
    (∀ string ∈ entryStrings entries, property string) ↔
      ∀ entry ∈ entries, property entry.1 ∧ ∀ string ∈ entry.2.strings, property string := by
  induction entries with
  | nil => simp [entryStrings]
  | cons entry rest ih =>
      simp only [entryStrings, List.forall_mem_cons, List.forall_mem_append, ih, and_assoc]

theorem clean_of_quote {bytes : List UInt8} (clean : Clean (quote bytes)) : Clean bytes := by
  intro byte member bare
  refine clean byte ?_ bare
  exact List.mem_cons_of_mem _ (List.mem_append_left _ (mem_escape_of_bare member bare))

mutual

theorem clean_of_render {indent : List UInt8} {level : Nat} (document : Document)
    (clean : Clean (document.render indent level)) : ∀ string ∈ document.strings, Clean string := by
  match document with
  | .text bytes =>
      rw [render] at clean
      simpa [strings] using clean_of_quote clean
  | .object entries =>
      simp only [render, clean_append_iff] at clean
      exact clean_of_renderEntries entries clean.1.1.1.2

theorem clean_of_renderEntries {indent separator : List UInt8} {level : Nat}
    (entries : List (List UInt8 × Document))
    (clean : Clean (renderEntries indent level separator entries)) :
    ∀ string ∈ entryStrings entries, Clean string := by
  match entries with
  | [] => simp [entryStrings]
  | (key, value) :: rest =>
      simp only [renderEntries, clean_append_iff] at clean
      obtain ⟨⟨⟨⟨_, name⟩, _⟩, value⟩, others⟩ := clean
      simp only [entryStrings, List.forall_mem_cons, List.forall_mem_append]
      exact ⟨clean_of_quote name, clean_of_render _ value, clean_of_renderEntries rest others⟩

end

def Quotes (strings : List (List UInt8)) : Prop :=
  ∀ string ∈ strings, Standard.IsString (quote string)

theorem name_quote {lead bytes : List UInt8} (leads : Blank lead)
    (valid : Standard.IsString (quote bytes)) : Standard.Name (lead ++ quote bytes) :=
  ⟨lead, _, leads, valid, rfl⟩

theorem rules_value : Rules (fun text document => Quotes document.strings → Standard.Value text)
    (fun text entries => Quotes (entryStrings entries) → Standard.Members text) where
  text leads valid := by
    rw [Quotes, strings, List.forall_mem_singleton] at valid
    exact .string (name_quote leads valid)
  empty opening closing _ := .emptyObject opening closing
  object opening members closing valid := .object opening (members valid) closing
  last key leads colon value valid := by
    simp only [Quotes, entryStrings, List.forall_mem_cons, List.forall_mem_append] at valid
    exact .last (name_quote leads valid.1) colon (value valid.2.1)
  more key leads colon value comma others valid := by
    simp only [Quotes, entryStrings, List.forall_mem_cons, List.forall_mem_append] at valid
    exact .more (name_quote leads valid.1) colon (value valid.2.1) comma (others valid.2.2)

end Document

end Json

namespace Node

/-- The source is ASCII, or it is UTF-8 and no leaf below the node starts or ends inside one of its
characters. An end past the source is the end of the source. -/
def CutsAtCharacters (node : Node) (source : Array UInt8) : Prop :=
  (∀ byte ∈ source.toList, byte.toNat < 0x80) ∨
    node.subtree.Everywhere fun leaf => leaf.children = [] →
      Json.Boundary source.toList (min leaf.label.span.startByte source.size) ∧
        Json.Boundary source.toList (min leaf.label.span.endByte source.size)

theorem CutsAtCharacters.isText {node leaf : Node} {source : Array UInt8}
    (cut : node.CutsAtCharacters source) {path : List Nat}
    (here : node.nodeAt? path = some leaf) (childless : leaf.childCount = 0) :
    Json.IsText (leaf.rawText source).toList := by
  rw [toList_rawText]
  rcases cut with ascii | boundaries
  · apply Json.isText_of_ascii
    intro byte member
    exact ascii byte (List.mem_of_mem_take (List.mem_of_mem_drop member))
  · obtain ⟨subtree, found, rfl⟩ := Option.map_eq_some_iff.mp here
    obtain ⟨starts, stops⟩ := boundaries path subtree found (List.length_eq_zero_iff.mp childless)
    exact Json.isText_between starts stops

end Node

namespace Json

namespace Document

theorem isText_text (text : String) : ∀ string ∈ strings (.text (octets text)), IsText string := by
  intro string member
  exact ⟨text, List.mem_singleton.mp member⟩

theorem isText_ownEntries (style : Style) (source : Array UInt8) (field : Option String)
    (node : Node) (leaf : node.childCount = 0 → IsText (node.rawText source).toList) :
    ∀ entry ∈ ownEntries style (some source) field node,
      IsText entry.1 ∧ ∀ string ∈ entry.2.strings, IsText string := by
  intro entry member
  rw [ownEntries, List.mem_append, List.mem_append] at member
  rcases member with (fields | kinds) | raws
  · obtain ⟨name, _, rfl⟩ := List.mem_map.mp fields
    exact ⟨⟨_, rfl⟩, isText_text name⟩
  · rw [List.mem_pair] at kinds
    rcases kinds with rfl | rfl
    · exact ⟨⟨_, rfl⟩, isText_text _⟩
    · exact ⟨⟨_, rfl⟩, isText_text _⟩
  · obtain ⟨bytes, given, childless, rfl⟩ := of_mem_textEntries raws
    injection given with given
    subst given
    obtain ⟨text, spelled⟩ := leaf childless
    rw [spelled]
    exact ⟨⟨_, rfl⟩, isText_text text⟩

theorem isText_ofNode (style : Style) (source : Array UInt8) (field : Option String) (node : Node)
    (leaves : ∀ path leaf, node.nodeAt? path = some leaf → leaf.childCount = 0 →
      IsText (leaf.rawText source).toList) :
    ∀ string ∈ (ofNode style (some source) field node).strings, IsText string := by
  induction node using Node.childInduction generalizing field with
  | step node ih =>
      rw [ofNode_eq, strings, forall_entryStrings]
      intro entry member
      rcases List.mem_append.mp member with own | child
      · exact isText_ownEntries style source field node (leaves [] node node.nodeAt?_nil) entry own
      · obtain ⟨index, bound, rfl⟩ := List.mem_mapIdx.mp child
        refine ⟨⟨_, rfl⟩, ?_⟩
        simp only [childEntry]
        split
        · apply ih _ (List.getElem_mem bound)
          intro path leaf here
          apply leaves (index :: path) leaf
          rw [Node.nodeAt?_cons, List.getElem?_eq_getElem bound]
          exact here
        · exact isText_text _

end Document

open Standard

theorem isDocument_dump_iff {style : Style} {source : Option (Array UInt8)} {node : Node}
    (blank : Blank (octets style.indent))
    (texts : ∀ string ∈ (node.document style source).strings, IsText string) :
    IsDocument (node.dump style source) ↔
      ∀ string ∈ (node.document style source).strings, Clean string := by
  constructor
  · intro valid
    exact Document.clean_of_render _ (clean_append_iff.mp valid.clean).1
  · intro clean
    have nothing : Blank [] := rfl
    refine ⟨_, [0x0A], Document.rules_value.render blank 0 nothing _ ?_, rfl, rfl⟩
    intro string member
    obtain ⟨text, rfl⟩ := texts string member
    exact (isString_quote_iff text).mpr (clean _ member)

/-- What is written for a text, escaped and between quotes, is a standard string just if the text
has no control character but those that are escaped, and then it is decoded to the text and nothing
else. So a dump with an ASCII source, or one in UTF-8 that is cut between characters, is a standard
document just if all of its strings are such texts. -/
theorem escape_standard_iff (text other : String) {node : Node} {source : Array UInt8}
    (cut : node.CutsAtCharacters source) :
    (∃ written : List UInt8,
        (writeString (octets text)).run (.empty none) = .ok () ⟨written.toArray, none⟩ ∧
        (IsString written ↔ Clean (octets text)) ∧
        (Decodes written other ↔ Clean (octets text) ∧ other = text)) ∧
      ∃ bytes, node.toJson (some source) = .ok bytes ∧
        (IsDocument bytes.toList ↔
          ∀ string ∈ (node.document .standard (some source)).strings, Clean string) := by
  refine ⟨⟨_, (emits_writeString _).run_unlimited, isString_quote_iff text,
    decodes_quote_iff text other⟩, _, toJson_eq _ node, ?_⟩
  have blank : Blank (octets Style.standard.indent) := rfl
  rw [List.toList_toArray]
  apply isDocument_dump_iff blank
  apply Document.isText_ofNode
  intro path leaf here childless
  exact cut.isText here childless

theorem quotedCall_standard_iff :
    let source : Array UInt8 := #[0x22, 0xC3, 0xA9, 0x0A, 0x22]
    quotedCall.CutsAtCharacters source ∧
      (∃ written : List UInt8,
        (writeString (octets "é\n")).run (.empty none) = .ok () ⟨written.toArray, none⟩ ∧
        (IsString written ↔ Clean (octets "é\n")) ∧
        (Decodes written "é\n" ↔ Clean (octets "é\n") ∧ "é\n" = "é\n")) ∧
      ∃ bytes, quotedCall.toJson (some source) = .ok bytes ∧
        (IsDocument bytes.toList ↔
          ∀ string ∈ (quotedCall.document .standard (some source)).strings, Clean string) := by
  intro source
  have start : Boundary source.toList 0 := ⟨"", "\"é\n\"", by decide, rfl⟩
  have opened : Boundary source.toList 1 := ⟨"\"", "é\n\"", by decide, rfl⟩
  have named : Boundary source.toList 4 := ⟨"\"é\n", "\"", by decide, rfl⟩
  have cut : quotedCall.CutsAtCharacters source := by
    refine .inr (Tree.everywhere_node.mpr ⟨by simp, ?_⟩)
    simp only [List.forall_mem_cons, Tree.everywhere_node]
    exact ⟨⟨fun _ => ⟨start, opened⟩, by simp⟩, ⟨fun _ => ⟨opened, named⟩, by simp⟩,
      ⟨fun _ => ⟨start, opened⟩, by simp⟩, by simp⟩
  exact ⟨cut, escape_standard_iff "é\n" "é\n" cut⟩

/-- The first of the control characters that escaping leaves as they are. -/
theorem startOfHeading_notStandard :
    (writeString (octets "\x01")).run (.empty none) = .ok () ⟨#[0x22, 0x01, 0x22], none⟩ ∧
      ¬IsString [0x22, 0x01, 0x22] := by
  have written : Document.quote (octets "\x01") = [0x22, 0x01, 0x22] := by decide
  rw [← written]
  refine ⟨(emits_writeString _).run_unlimited, ?_⟩
  rw [isString_quote_iff]
  decide

end Json

end ConcreteSyntax
