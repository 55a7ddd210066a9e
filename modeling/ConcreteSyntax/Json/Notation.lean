import ConcreteSyntax.Json.Reader

/-!
The texts that denote a document, told without a reader.

A text is cut into tokens, each with the blanks before it. A string may spell any byte by itself
but the quote and the backslash, and seven of them by a backslash and a letter. The keys of an
object differ.
-/

namespace ConcreteSyntax

namespace Json

def Blank (bytes : List UInt8) : Prop :=
  bytes.all isBlank = true

/-- One byte that is no blank, with the blanks before it. -/
structure Token (byte : UInt8) (text : List UInt8) : Prop where
  solid : isBlank byte = false
  led : ∃ blanks, Blank blanks ∧ text = blanks ++ [byte]

inductive Spells : List UInt8 → List UInt8 → Prop
  | nil : Spells [] []
  | plain {byte body bytes} : byte ≠ 0x22 → byte ≠ 0x5C → Spells body bytes →
      Spells (byte :: body) (byte :: bytes)
  | escaped {letter byte body bytes} : unescapeLetter? letter = some byte → Spells body bytes →
      Spells (0x5C :: letter :: body) (byte :: bytes)

def Quoted (text bytes : List UInt8) : Prop :=
  ∃ opening body, Token 0x22 opening ∧ Spells body bytes ∧ text = opening ++ (body ++ [0x22])

mutual

inductive Denotes : List UInt8 → Document → Prop
  | text {text bytes} : Quoted text bytes → Denotes text (.text bytes)
  | empty {opening closing} : Token 0x7B opening → Token 0x7D closing →
      Denotes (opening ++ closing) (.object [])
  | object {opening text closing entries} : Token 0x7B opening → DenotesEntries text entries →
      Token 0x7D closing → (entries.map (·.1)).Nodup →
      Denotes (opening ++ (text ++ closing)) (.object entries)

inductive DenotesEntries : List UInt8 → List (List UInt8 × Document) → Prop
  | last {name colon text key value} : Quoted name key → Token 0x3A colon → Denotes text value →
      DenotesEntries (name ++ (colon ++ text)) [(key, value)]
  | more {name colon text comma rest key value entries} : Quoted name key → Token 0x3A colon →
      Denotes text value → Token 0x2C comma → DenotesEntries rest entries →
      DenotesEntries (name ++ (colon ++ (text ++ (comma ++ rest)))) ((key, value) :: entries)

end

def DenotesAlone (text : List UInt8) (document : Document) : Prop :=
  ∃ value blanks, Denotes value document ∧ Blank blanks ∧ text = value ++ blanks

/-- A reader that accepts no text but those that denote a document, and returns that document. -/
def StrictReader (read : List UInt8 → Option Document) : Prop :=
  ∀ text document, read text = some document ↔ DenotesAlone text document

end Json

end ConcreteSyntax
