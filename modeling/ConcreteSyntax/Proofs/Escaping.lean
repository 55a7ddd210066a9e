import ConcreteSyntax.Json.Emits
import ConcreteSyntax.Proofs.Rendering
import Mathlib.Data.List.DropRight

/-!
Escaping as a substitution of bytes.

The bytes are written in runs, and the runs with the escapes between them are the images of the
bytes one after the other. An image of two bytes starts with a backslash, and a backslash is never
its own image, so at the end of an escaped text the backslashes come in pairs.
-/

namespace ConcreteSyntax

namespace Json

open Write

theorem escape_append (first second : List UInt8) :
    escape (first ++ second) = escape first ++ escape second :=
  List.flatMap_append

theorem escape_singleton (byte : UInt8) : escape [byte] = escapeByte byte :=
  List.flatMap_singleton escapeByte byte

theorem escapeByte_of_ordinary {byte : UInt8}
    (ordinary : byte ∉ [0x22, 0x5C, 0x09, 0x0A, 0x08, 0x0C, 0x0D]) : escapeByte byte = [byte] := by
  simp only [List.mem_cons, List.not_mem_nil, or_false, not_or] at ordinary
  simp [escapeByte, escapeLetter?, ordinary]

theorem plain_of_escapeLetter? {byte letter : UInt8} (escapes : escapeLetter? byte = some letter) :
    escapeLetter? letter = none ∨ letter = 0x22 ∨ letter = 0x5C := by
  cases escapeLetter?_eq_some_iff.mp escapes <;> decide

theorem of_mem_escape {bytes : List UInt8} {byte : UInt8} (member : byte ∈ escape bytes) :
    escapeLetter? byte = none ∨ byte = 0x22 ∨ byte = 0x5C := by
  obtain ⟨origin, _, image⟩ := List.mem_flatMap.mp member
  rw [escapeByte] at image
  cases found : escapeLetter? origin with
  | none =>
      rw [found, List.mem_singleton] at image
      rw [image]
      exact .inl found
  | some letter =>
      rw [found, List.mem_cons, List.mem_singleton] at image
      rcases image with backslash | same
      · exact .inr (.inr backslash)
      · rw [same]
        exact plain_of_escapeLetter? found

def backslashesAtEnd (bytes : List UInt8) : Nat :=
  (bytes.rtakeWhile (· = 0x5C)).length

theorem backslashesAtEnd_concat (bytes : List UInt8) (byte : UInt8) :
    backslashesAtEnd (bytes ++ [byte]) =
      if byte = 0x5C then backslashesAtEnd bytes + 1 else 0 := by
  rw [backslashesAtEnd, List.rtakeWhile_concat]
  by_cases backslash : byte = 0x5C
  · simp [backslash, backslashesAtEnd]
  · simp [backslash]

theorem backslashesAtEnd_escape (bytes : List UInt8) :
    backslashesAtEnd (escape bytes) % 2 = 0 := by
  induction bytes using List.reverseRecOn with
  | nil => rfl
  | append_singleton rest byte ih =>
      rw [escape_append, escape_singleton, escapeByte]
      cases found : escapeLetter? byte with
      | none =>
          have other : byte ≠ 0x5C := by
            rintro rfl
            contradiction
          simp only [backslashesAtEnd_concat, if_neg other]
      | some letter =>
          have parts : escape rest ++ [0x5C, letter] = escape rest ++ [0x5C] ++ [letter] := by
            simp
          simp only [parts, backslashesAtEnd_concat, if_pos]
          split <;> omega

theorem before_quote_of_escapeByte {byte : UInt8} {before after : List UInt8}
    (split : escapeByte byte = before ++ 0x22 :: after) : before = [0x5C] := by
  rw [escapeByte] at split
  cases found : escapeLetter? byte with
  | none =>
      rw [found] at split
      cases before with
      | nil =>
          injection split with quote
          subst quote
          contradiction
      | cons first others => simp at split
  | some letter =>
      rw [found] at split
      cases before with
      | nil => simp at split
      | cons first others =>
          cases others with
          | nil =>
              injection split with backslash
              rw [← backslash]
          | cons second others => simp at split

theorem backslashesAtEnd_before_quote {bytes before after : List UInt8}
    (split : escape bytes = before ++ 0x22 :: after) : backslashesAtEnd before % 2 = 1 := by
  induction bytes using List.reverseRecOn generalizing after with
  | nil => simp [escape] at split
  | append_singleton rest byte ih =>
      rw [escape_append, escape_singleton, List.append_eq_append_iff] at split
      rcases split with ⟨more, same, image⟩ | ⟨more, same, image⟩
      · have backslash := before_quote_of_escapeByte image
        have paired := backslashesAtEnd_escape rest
        rw [same, backslash, backslashesAtEnd_concat, if_pos rfl]
        omega
      · cases more with
        | nil =>
            have impossible : [] = [(0x5C : UInt8)] := before_quote_of_escapeByte image.symm
            contradiction
        | cons first others =>
            injection image with quote
            subst quote
            exact ih same

theorem eq_of_emits {Value : Type} {first second : Write Value} {bytes : List UInt8} {value : Value}
    (one : first.Emits bytes value) (other : second.Emits bytes value) : first = second :=
  funext fun sink => (one sink).trans (other sink).symm

/-- Escaping substitutes bytes one by one, and can be undone. What the runs and the escapes between
them write is the image of each byte after the other: two bytes for the quote, the backslash and
five control characters, and the byte itself for all others. So texts may be escaped apart. None of
the control characters is left, every quote comes after an odd number of backslashes, and a reader
gets all bytes back, up to the quote that closes the string. -/
theorem writeEscaped_substitutes (bytes : List UInt8) :
    (writeEscaped bytes).Emits (bytes.flatMap escapeByte) () ∧
      [0x22, 0x5C, 0x09, 0x0A, 0x08, 0x0C, 0x0D].map escapeByte =
        ["\\\"", "\\\\", "\\t", "\\n", "\\b", "\\f", "\\r"].map octets ∧
      (∀ byte ∉ [0x22, 0x5C, 0x09, 0x0A, 0x08, 0x0C, 0x0D], escapeByte byte = [byte]) ∧
      (∀ more, escape (bytes ++ more) = escape bytes ++ escape more ∧
        writeEscaped (bytes ++ more) = do
          writeEscaped bytes
          writeEscaped more) ∧
      (∀ byte ∈ [0x09, 0x0A, 0x08, 0x0C, 0x0D], byte ∉ escape bytes) ∧
      (∀ before after, escape bytes = before ++ 0x22 :: after →
        backslashesAtEnd before % 2 = 1) ∧
      ∀ rest, readString (escape bytes ++ 0x22 :: rest) = some (bytes, rest) := by
  refine ⟨emits_writeEscaped bytes, rfl, fun _ => escapeByte_of_ordinary, ?_, ?_, ?_, ?_⟩
  · intro more
    have whole := emits_writeEscaped (bytes ++ more)
    rw [escape_append] at whole
    have parts := emits_then (emits_writeEscaped bytes) (emits_writeEscaped more)
    exact ⟨escape_append bytes more, eq_of_emits whole parts⟩
  · intro byte control member
    simp only [List.mem_cons, List.not_mem_nil, or_false] at control
    rcases of_mem_escape member with plain | quote | backslash
    · rcases control with rfl | rfl | rfl | rfl | rfl <;> contradiction
    · subst quote
      simp at control
    · subst backslash
      simp at control
  · intro before after split
    exact backslashesAtEnd_before_quote split
  · exact (spells_escape bytes).readString

end Json

end ConcreteSyntax
