import ConcreteSyntax.Json.Standard
import ConcreteSyntax.Proofs.Keys

/-!
Characters in the two encodings of a string: its bytes in UTF-8, and its code units in UTF-16.

The first byte of a character tells how many belong to it, so that bytes are cut into characters
in one way only, and so are code units. The bytes of a character that is not ASCII are none of those
that an escape or a control character has. A part of a text is a text if it is cut between characters.
-/

namespace ConcreteSyntax

namespace Json

theorem octets_eq (text : String) : octets text = text.toList.flatMap String.utf8EncodeChar := by
  rw [octets, String.toUTF8_eq_toByteArray, ← String.utf8Encode_toList, List.utf8Encode]
  exact List.toList_data_toByteArray

theorem octets_ofList (chars : List Char) :
    octets (String.ofList chars) = chars.flatMap String.utf8EncodeChar := by
  rw [octets_eq, String.toList_ofList]

theorem octets_append (first second : String) :
    octets (first ++ second) = octets first ++ octets second := by
  rw [octets_eq, octets_eq, octets_eq, String.toList_append, List.flatMap_append]

theorem encode_ascii {char : Char} (ascii : char.toNat < 0x80) :
    String.utf8EncodeChar char = [UInt8.ofNat char.toNat] := by
  rw [String.utf8EncodeChar.eq_1, Char.toNat_val, if_pos (by omega)]

theorem high_of_mem_encode {char : Char} (high : 0x80 ≤ char.toNat) {byte : UInt8}
    (member : byte ∈ String.utf8EncodeChar char) : 0x80 ≤ byte.toNat := by
  have large (number : Nat) (bound : 0x80 ≤ number % 0x100) :
      0x80 ≤ (UInt8.ofNat number).toNat := by
    rw [UInt8.toNat_ofNat']
    exact bound
  rw [String.utf8EncodeChar.eq_1, Char.toNat_val, if_neg (by omega)] at member
  split at member
  · simp only [List.mem_cons, List.not_mem_nil, or_false] at member
    rcases member with rfl | rfl <;> exact large _ (by omega)
  · split at member
    · simp only [List.mem_cons, List.not_mem_nil, or_false] at member
      rcases member with rfl | rfl | rfl <;> exact large _ (by omega)
    · simp only [List.mem_cons, List.not_mem_nil, or_false] at member
      rcases member with rfl | rfl | rfl | rfl <;> exact large _ (by omega)

theorem encode_append_inj {first second : Char} {firstRest secondRest : List UInt8}
    (same : String.utf8EncodeChar first ++ firstRest = String.utf8EncodeChar second ++ secondRest) :
    first = second ∧ firstRest = secondRest := by
  have decoded (char : Char) (rest : List UInt8) :
      (String.utf8EncodeChar char ++ rest).toByteArray.utf8DecodeChar? 0 = some char := by
    rw [List.toByteArray_append]
    exact ByteArray.utf8DecodeChar?_utf8EncodeChar_append
  have chars : first = second := by
    have front := decoded first firstRest
    rw [same, decoded second secondRest] at front
    exact (Option.some_inj.mp front).symm
  subst chars
  exact ⟨rfl, List.append_cancel_left same⟩

def IsText (bytes : List UInt8) : Prop :=
  ∃ text, bytes = octets text

theorem isText_of_ascii {bytes : List UInt8} (ascii : ∀ byte ∈ bytes, byte.toNat < 0x80) :
    IsText bytes := by
  refine ⟨String.ofList (bytes.map Char.ofUInt8), ?_⟩
  rw [octets_ofList]
  induction bytes with
  | nil => rfl
  | cons byte rest ih =>
      rw [List.forall_mem_cons] at ascii
      have number : (Char.ofUInt8 byte).toNat = byte.toNat := rfl
      rw [List.map_cons, List.flatMap_cons, ← ih ascii.2, encode_ascii (number ▸ ascii.1), number,
        UInt8.ofNat_toNat]
      rfl

/-- An offset in a source in UTF-8 that is not inside a character. -/
def Boundary (source : List UInt8) (offset : Nat) : Prop :=
  ∃ before after, source = octets before ++ octets after ∧ (octets before).length = offset

theorem octets_split {before after front back : String}
    (same : octets before ++ octets after = octets front ++ octets back)
    (shorter : (octets before).length < (octets front).length) :
    ∃ middle, octets front = octets before ++ octets middle := by
  have texts : before ++ after = front ++ back :=
    octets_injective (by rw [octets_append, octets_append, same])
  have chars := congrArg String.toList texts
  rw [String.toList_append, String.toList_append] at chars
  rcases List.append_eq_append_iff.mp chars with ⟨middle, split, _⟩ | ⟨extra, split, _⟩
  · refine ⟨String.ofList middle, ?_⟩
    rw [octets_eq front, split, List.flatMap_append, octets_ofList, ← octets_eq]
  · rw [octets_eq before, split, List.flatMap_append, ← octets_eq, List.length_append] at shorter
    omega

theorem isText_between {source : List UInt8} {start stop : Nat}
    (starts : Boundary source (min start source.length))
    (stops : Boundary source (min stop source.length)) :
    IsText ((source.take stop).drop start) := by
  obtain ⟨before, after, first, startLength⟩ := starts
  obtain ⟨front, back, second, stopLength⟩ := stops
  have taken : source.take stop = octets front := by
    rw [List.take_eq_take_min, ← stopLength, second]
    exact List.take_left
  rw [taken]
  rcases Nat.lt_or_ge start (octets front).length with inside | past
  · obtain ⟨middle, split⟩ := octets_split (first.symm.trans second) (by omega)
    refine ⟨middle, ?_⟩
    rw [split]
    exact List.drop_left' (by omega)
  · exact ⟨"", List.drop_of_length_le past⟩

namespace Standard

theorem codeUnits_append_inj {first second : Char} {firstRest secondRest : List Nat}
    (same : codeUnits first ++ firstRest = codeUnits second ++ secondRest) :
    first = second ∧ firstRest = secondRest := by
  have firstValid : first.toNat < 0xD800 ∨ 0xDFFF < first.toNat ∧ first.toNat < 0x110000 :=
    first.valid
  have secondValid : second.toNat < 0xD800 ∨ 0xDFFF < second.toNat ∧ second.toNat < 0x110000 :=
    second.valid
  rw [← Char.toNat_inj]
  rw [codeUnits, codeUnits] at same
  split at same <;> split at same <;>
    simp only [List.cons_append, List.nil_append, List.cons.injEq] at same
  · exact same
  · omega
  · omega
  · exact ⟨by omega, same.2.2⟩

theorem codeUnits_injective {first second : List Char}
    (same : first.flatMap codeUnits = second.flatMap codeUnits) : first = second := by
  have filled (char : Char) : codeUnits char ≠ [] := by
    rw [codeUnits]
    split <;> simp
  induction first generalizing second with
  | nil =>
      cases second with
      | nil => rfl
      | cons char rest =>
          rw [List.flatMap_nil, List.flatMap_cons] at same
          exact absurd (List.append_eq_nil_iff.mp same.symm).1 (filled char)
  | cons char rest ih =>
      cases second with
      | nil =>
          rw [List.flatMap_nil, List.flatMap_cons] at same
          exact absurd (List.append_eq_nil_iff.mp same).1 (filled char)
      | cons other others =>
          rw [List.flatMap_cons, List.flatMap_cons] at same
          obtain ⟨chars, rests⟩ := codeUnits_append_inj same
          rw [chars, ih rests]

example : codeUnits (Char.ofNat 0x1D11E) = [0xD834, 0xDD1E] := by decide

end Standard

end Json

end ConcreteSyntax
