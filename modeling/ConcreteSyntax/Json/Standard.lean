import ConcreteSyntax.Json.Notation

/-!
Standard JSON in UTF-8: the texts that are strings and documents, and what a string stands for.

A string stands for UTF-16 code units, since it may give one by its hexadecimal digits. Between its
quotes no control character stands for itself. Every token has the blanks before it.
-/

namespace ConcreteSyntax

namespace Json

namespace Standard

/-- The UTF-16 code units of a character. Above the first plane it has two. -/
def codeUnits (char : Char) : List Nat :=
  if char.toNat < 0x10000 then [char.toNat]
  else [0xD800 + (char.toNat - 0x10000) / 0x400, 0xDC00 + (char.toNat - 0x10000) % 0x400]

def letterUnit? (letter : UInt8) : Option Nat :=
  if letter = 0x2F then some 0x2F else (unescapeLetter? letter).map (·.toNat)

def hexDigit? (byte : UInt8) : Option Nat :=
  let code := byte.toNat
  if 0x30 ≤ code ∧ code ≤ 0x39 then some (code - 0x30)
  else if 0x41 ≤ code ∧ code ≤ 0x46 then some (code - 0x41 + 10)
  else if 0x61 ≤ code ∧ code ≤ 0x66 then some (code - 0x61 + 10)
  else none

def hexUnit? : List UInt8 → Option Nat
  | [first, second, third, fourth] => do
      let first ← hexDigit? first
      let second ← hexDigit? second
      let third ← hexDigit? third
      let fourth ← hexDigit? fourth
      some (16 * (16 * (16 * first + second) + third) + fourth)
  | _ => none

inductive Body : List UInt8 → List Nat → Prop
  | nil : Body [] []
  | plain {char body units} : 0x20 ≤ char.toNat → char ≠ '"' → char ≠ '\\' → Body body units →
      Body (String.utf8EncodeChar char ++ body) (codeUnits char ++ units)
  | letter {letter unit body units} : letterUnit? letter = some unit → Body body units →
      Body (0x5C :: letter :: body) (unit :: units)
  | hexadecimal {digits unit body units} : hexUnit? digits = some unit → Body body units →
      Body (0x5C :: 0x75 :: (digits ++ body)) (unit :: units)

def Spelled (text : List UInt8) (units : List Nat) : Prop :=
  ∃ body, Body body units ∧ text = 0x22 :: (body ++ [0x22])

def IsString (text : List UInt8) : Prop :=
  ∃ units, Spelled text units

def Decodes (text : List UInt8) (decoded : String) : Prop :=
  Spelled text (decoded.toList.flatMap codeUnits)

def Digits (bytes : List UInt8) : Prop :=
  bytes ≠ [] ∧ ∀ byte ∈ bytes, 0x30 ≤ byte.toNat ∧ byte.toNat ≤ 0x39

inductive Whole : List UInt8 → Prop
  | zero : Whole [0x30]
  | digits {bytes} : Digits bytes → bytes.head? ≠ some 0x30 → Whole bytes

inductive Fraction : List UInt8 → Prop
  | none : Fraction []
  | digits {bytes} : Digits bytes → Fraction (0x2E :: bytes)

inductive Exponent : List UInt8 → Prop
  | none : Exponent []
  | digits {letter sign bytes} : letter = 0x45 ∨ letter = 0x65 →
      sign = [] ∨ sign = [0x2B] ∨ sign = [0x2D] → Digits bytes →
      Exponent (letter :: (sign ++ bytes))

def Number (bytes : List UInt8) : Prop :=
  ∃ sign whole fraction exponent, (sign = [] ∨ sign = [0x2D]) ∧ Whole whole ∧ Fraction fraction ∧
    Exponent exponent ∧ bytes = sign ++ (whole ++ (fraction ++ exponent))

def words : List String :=
  ["true", "false", "null"]

def Name (text : List UInt8) : Prop :=
  ∃ blanks string, Blank blanks ∧ IsString string ∧ text = blanks ++ string

mutual

inductive Value : List UInt8 → Prop
  | string {text} : Name text → Value text
  | number {blanks bytes} : Blank blanks → Number bytes → Value (blanks ++ bytes)
  | word {blanks word} : Blank blanks → word ∈ words → Value (blanks ++ octets word)
  | emptyArray {opening closing} : Token 0x5B opening → Token 0x5D closing →
      Value (opening ++ closing)
  | array {opening items closing} : Token 0x5B opening → Items items → Token 0x5D closing →
      Value (opening ++ (items ++ closing))
  | emptyObject {opening closing} : Token 0x7B opening → Token 0x7D closing →
      Value (opening ++ closing)
  | object {opening members closing} : Token 0x7B opening → Members members →
      Token 0x7D closing → Value (opening ++ (members ++ closing))

inductive Items : List UInt8 → Prop
  | last {value} : Value value → Items value
  | more {value comma rest} : Value value → Token 0x2C comma → Items rest →
      Items (value ++ (comma ++ rest))

inductive Members : List UInt8 → Prop
  | last {name colon value} : Name name → Token 0x3A colon → Value value →
      Members (name ++ (colon ++ value))
  | more {name colon value comma rest} : Name name → Token 0x3A colon → Value value →
      Token 0x2C comma → Members rest → Members (name ++ (colon ++ (value ++ (comma ++ rest))))

end

def IsDocument (text : List UInt8) : Prop :=
  ∃ value blanks, Value value ∧ Blank blanks ∧ text = value ++ blanks

end Standard

end Json

end ConcreteSyntax
