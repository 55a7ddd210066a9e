import ConcreteSyntax.Json.Document

/-!
Reading the written form of a document.

The reader is strict about structure, keys and escapes: it wants one value and nothing after it
but blanks, no key twice in an object, and no backslash without a letter of an escape. Inside a
string it takes any other byte as it stands.
-/

namespace ConcreteSyntax

namespace Json

def unescapeLetter? (letter : UInt8) : Option UInt8 :=
  if letter = 0x22 then some 0x22
  else if letter = 0x5C then some 0x5C
  else if letter = 0x74 then some 0x09
  else if letter = 0x6E then some 0x0A
  else if letter = 0x62 then some 0x08
  else if letter = 0x66 then some 0x0C
  else if letter = 0x72 then some 0x0D
  else none

/-- The bytes of a string whose opening quote has been read, and what follows its closing
quote. -/
def readString : List UInt8 → Option (List UInt8 × List UInt8)
  | [] => none
  | byte :: rest =>
      if byte = 0x22 then some ([], rest)
      else if byte = 0x5C then
        match rest with
        | [] => none
        | letter :: rest => do
            let byte ← unescapeLetter? letter
            let (text, rest) ← readString rest
            some (byte :: text, rest)
      else do
        let (text, rest) ← readString rest
        some (byte :: text, rest)

def isBlank (byte : UInt8) : Bool :=
  byte = 0x20 || byte = 0x09 || byte = 0x0A || byte = 0x0D

def skipBlanks (bytes : List UInt8) : List UInt8 :=
  bytes.dropWhile isBlank

def readByte (byte : UInt8) (bytes : List UInt8) : Option (List UInt8) :=
  match skipBlanks bytes with
  | [] => none
  | first :: rest => if first = byte then some rest else none

namespace Document

mutual

/-- Reads a value, at most `fuel` levels and entries deep. -/
def readValue : Nat → List UInt8 → Option (Document × List UInt8)
  | 0, _ => none
  | fuel + 1, bytes =>
      match readByte 0x22 bytes with
      | some rest => (readString rest).map fun result => (text result.1, result.2)
      | none => do
          let rest ← readByte 0x7B bytes
          match readByte 0x7D rest with
          | some rest => some (object [], rest)
          | none => do
              let (entries, rest) ← readEntries fuel rest
              if (entries.map (·.1)).Nodup then some (object entries, rest) else none

def readEntries : Nat → List UInt8 → Option (List (List UInt8 × Document) × List UInt8)
  | 0, _ => none
  | fuel + 1, bytes => do
      let (key, rest) ← readByte 0x22 bytes >>= readString
      let (value, rest) ← readByte 0x3A rest >>= readValue fuel
      match readByte 0x2C rest with
      | some rest => do
          let (entries, rest) ← readEntries fuel rest
          some ((key, value) :: entries, rest)
      | none => do
          let rest ← readByte 0x7D rest
          some ([(key, value)], rest)

end

def read? (bytes : List UInt8) : Option Document := do
  let (document, rest) ← readValue bytes.length bytes
  if (skipBlanks rest).isEmpty then some document else none

end Document

end Json

end ConcreteSyntax
