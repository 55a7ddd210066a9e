import ConcreteSyntax.Proofs.Reading

/-!
The written form of a document denotes it.

The form is the same for every grammar that has its tokens: what a grammar says about strings and
objects, it says about the whole of a written document.
-/

namespace ConcreteSyntax

namespace Json

theorem unescapeLetter?_of_escapeLetter? {byte letter : UInt8}
    (escapes : escapeLetter? byte = some letter) : unescapeLetter? letter = some byte := by
  cases escapeLetter?_eq_some_iff.mp escapes <;> rfl

theorem spells_escape (bytes : List UInt8) : Spells (escape bytes) bytes := by
  induction bytes with
  | nil => exact .nil
  | cons byte rest ih =>
      rw [escape, List.flatMap_cons, escapeByte]
      cases found : escapeLetter? byte with
      | some letter => exact .escaped (unescapeLetter?_of_escapeLetter? found) ih
      | none =>
          refine .plain ?_ ?_ ih
          · rintro rfl
            contradiction
          · rintro rfl
            contradiction

theorem quoted_quote {blanks : List UInt8} (blank : Blank blanks) (bytes : List UInt8) :
    Quoted (blanks ++ Document.quote bytes) bytes :=
  ⟨blanks ++ [0x22], escape bytes, ⟨rfl, blanks, blank, rfl⟩, spells_escape bytes,
    by simp [Document.quote]⟩

theorem Blank.append {first second : List UInt8} (blank : Blank first) (more : Blank second) :
    Blank (first ++ second) := by
  rw [Blank, List.all_append, blank, more]
  rfl

namespace Document

theorem blank_margin {indent : List UInt8} (blank : Blank indent) (level : Nat) :
    Blank (margin indent level) := by
  induction level with
  | zero => rfl
  | succ level ih =>
      rw [margin, List.replicate_succ, List.flatten_cons]
      exact blank.append ih

theorem renderEntries_separator (indent : List UInt8) (level : Nat) (separator : List UInt8)
    (entry : List UInt8 × Document) (rest : List (List UInt8 × Document)) :
    renderEntries indent level separator (entry :: rest) =
      separator ++ renderEntries indent level [] (entry :: rest) := by
  simp [renderEntries]

/-- The rules of a grammar in which every token has its blanks before it, as far as the written form
of documents needs them. -/
structure Rules (whole : List UInt8 → Document → Prop)
    (inside : List UInt8 → List (List UInt8 × Document) → Prop) : Prop where
  text : ∀ {lead bytes}, Blank lead → whole (lead ++ quote bytes) (.text bytes)
  empty : ∀ {opening closing}, Token 0x7B opening → Token 0x7D closing →
    whole (opening ++ closing) (.object [])
  object : ∀ {opening text closing entries}, Token 0x7B opening → inside text entries →
    Token 0x7D closing → whole (opening ++ (text ++ closing)) (.object entries)
  last : ∀ {lead colon text value} key, Blank lead → Token 0x3A colon → whole text value →
    inside (lead ++ quote key ++ (colon ++ text)) [(key, value)]
  more : ∀ {lead colon text comma rest value entries} key, Blank lead → Token 0x3A colon →
    whole text value → Token 0x2C comma → inside rest entries →
    inside (lead ++ quote key ++ (colon ++ (text ++ (comma ++ rest)))) ((key, value) :: entries)

section

variable {whole : List UInt8 → Document → Prop}
  {inside : List UInt8 → List (List UInt8 × Document) → Prop} {indent : List UInt8}

mutual

theorem Rules.render (rules : Rules whole inside) (blank : Blank indent) (level : Nat)
    {lead : List UInt8} (leads : Blank lead) (document : Document) :
    whole (lead ++ document.render indent level) document := by
  have opening : Token 0x7B (lead ++ [0x7B]) := ⟨rfl, lead, leads, rfl⟩
  have lineEnd : Blank [0x0A] := rfl
  have closing : Token 0x7D ([0x0A] ++ margin indent level ++ [0x7D]) :=
    ⟨rfl, _, lineEnd.append (blank_margin blank level), rfl⟩
  match document with
  | .text bytes => exact rules.text leads
  | .object [] =>
      have written := rules.empty opening closing
      simpa [Document.render, Document.renderEntries] using written
  | .object (entry :: rest) =>
      have entries := rules.renderEntries blank (level + 1) lineEnd (entry :: rest)
        (List.cons_ne_nil entry rest)
      have written := rules.object opening entries closing
      simpa [Document.render] using written

theorem Rules.renderEntries (rules : Rules whole inside) (blank : Blank indent) (level : Nat)
    {lead : List UInt8} (leads : Blank lead) (entries : List (List UInt8 × Document))
    (filled : entries ≠ []) : inside (Document.renderEntries indent level lead entries) entries := by
  have margins := leads.append (blank_margin blank level)
  have space : Blank [0x20] := rfl
  have lineEnd : Blank [0x0A] := rfl
  have colon : Token 0x3A [0x3A] := ⟨rfl, [], rfl, rfl⟩
  have comma : Token 0x2C [0x2C] := ⟨rfl, [], rfl, rfl⟩
  match entries with
  | [(key, value)] =>
      have written := rules.last key margins colon (rules.render blank level space value)
      simpa [Document.renderEntries] using written
  | (key, value) :: entry :: rest =>
      have others := rules.renderEntries blank level lineEnd (entry :: rest)
        (List.cons_ne_nil entry rest)
      have written := rules.more key margins colon (rules.render blank level space value)
        comma others
      rw [renderEntries_separator] at written
      rw [Document.renderEntries, renderEntries_separator]
      simpa using written

end

end

theorem rules_denotes : Rules (fun text document => document.Distinct → Denotes text document)
    (fun text entries => AllDistinct entries → DenotesEntries text entries) where
  text leads _ := .text (quoted_quote leads _)
  empty opening closing _ := .empty opening closing
  object opening entries closing distinct :=
    .object opening (entries distinct.2) closing distinct.1
  last _ leads colon value distinct := .last (quoted_quote leads _) colon (value distinct.1)
  more _ leads colon value comma others distinct :=
    .more (quoted_quote leads _) colon (value distinct.1) comma (others distinct.2)

theorem denotes_render {indent : List UInt8} (blank : Blank indent) (level : Nat)
    {lead : List UInt8} (leads : Blank lead) (document : Document)
    (distinct : document.Distinct) : Denotes (lead ++ document.render indent level) document :=
  rules_denotes.render blank level leads document distinct

theorem read?_render {indent : List UInt8} (blank : Blank indent) (document : Document)
    (distinct : document.Distinct) :
    read? (document.render indent 0 ++ [0x0A]) = some document := by
  have nothing : Blank [] := rfl
  have denotes := denotes_render blank 0 nothing document distinct
  exact (strictReader_read? _ _).mpr ⟨_, [0x0A], denotes, rfl, rfl⟩

end Document

end Json

end ConcreteSyntax
