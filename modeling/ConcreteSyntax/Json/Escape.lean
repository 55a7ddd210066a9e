import ConcreteSyntax.Sink

/-!
Bytes inside a JSON string.

The quote, the backslash and five control characters are written as a backslash and a letter.
Every other byte stands for itself, whatever it is. `escape` states this byte by byte;
`writeEscaped` writes the same bytes with one write for each run between escapes.
-/

namespace ConcreteSyntax

namespace Json

def escapeLetter? (byte : UInt8) : Option UInt8 :=
  if byte = 0x22 then some 0x22
  else if byte = 0x5C then some 0x5C
  else if byte = 0x09 then some 0x74
  else if byte = 0x0A then some 0x6E
  else if byte = 0x08 then some 0x62
  else if byte = 0x0C then some 0x66
  else if byte = 0x0D then some 0x72
  else none

inductive Escapes : UInt8 → UInt8 → Prop
  | quote : Escapes 0x22 0x22
  | backslash : Escapes 0x5C 0x5C
  | tab : Escapes 0x09 0x74
  | lineFeed : Escapes 0x0A 0x6E
  | backspace : Escapes 0x08 0x62
  | formFeed : Escapes 0x0C 0x66
  | carriageReturn : Escapes 0x0D 0x72

theorem escapeLetter?_eq_some_iff {byte letter : UInt8} :
    escapeLetter? byte = some letter ↔ Escapes byte letter := by
  constructor
  · intro found
    rw [escapeLetter?] at found
    repeat
      split at found
      next same =>
        injection found with letters
        rw [same, ← letters]
        constructor
    contradiction
  · intro escapes
    cases escapes <;> rfl

def escapeByte (byte : UInt8) : List UInt8 :=
  match escapeLetter? byte with
  | some letter => [0x5C, letter]
  | none => [byte]

def escape (bytes : List UInt8) : List UInt8 :=
  bytes.flatMap escapeByte

/-- Writes the escaped form of `run`, read backward, and the bytes that follow. No byte of `run`
is escaped. -/
def writeEscapedAfter (run : List UInt8) : List UInt8 → Write Unit
  | [] => Sink.write run.reverse
  | byte :: rest =>
      match escapeLetter? byte with
      | none => writeEscapedAfter (byte :: run) rest
      | some letter => do
          Sink.write run.reverse
          Sink.write [0x5C, letter]
          writeEscapedAfter [] rest

def writeEscaped (bytes : List UInt8) : Write Unit :=
  writeEscapedAfter [] bytes

end Json

end ConcreteSyntax
