import ConcreteSyntax.Proofs.Characters
import ConcreteSyntax.Proofs.Escaping

/-!
Which escaped strings are standard ones, and what they stand for.

Escaping leaves most control characters as they are, and a standard string has none. Without them
the escaped form of a text is a standard string, and stands for just that text.
-/

namespace ConcreteSyntax

namespace Json

/-- A control character that has no letter: none of the backspace, the tab, the line feed, the form
feed and the carriage return. -/
def Bare (byte : UInt8) : Prop :=
  byte.toNat < 0x20 ∧ byte ∉ [0x08, 0x09, 0x0A, 0x0C, 0x0D]

instance (byte : UInt8) : Decidable (Bare byte) :=
  inferInstanceAs (Decidable (_ ∧ _))

def Clean (bytes : List UInt8) : Prop :=
  ∀ byte ∈ bytes, ¬Bare byte

instance (bytes : List UInt8) : Decidable (Clean bytes) :=
  List.decidableBAll (fun byte => ¬Bare byte) bytes

theorem escape_eq_self {bytes : List UInt8} (plain : ∀ byte ∈ bytes, escapeLetter? byte = none) :
    escape bytes = bytes := by
  induction bytes with
  | nil => rfl
  | cons byte rest ih =>
      rw [List.forall_mem_cons] at plain
      rw [escape, List.flatMap_cons, ← escape, ih plain.2, escapeByte, plain.1]
      rfl

theorem of_escapeLetter? {byte letter : UInt8} (escapes : escapeLetter? byte = some letter) :
    byte.toNat < 0x80 ∧ ¬Bare byte := by
  cases escapeLetter?_eq_some_iff.mp escapes <;> decide

theorem escapeLetter?_of_high {byte : UInt8} (high : 0x80 ≤ byte.toNat) :
    escapeLetter? byte = none := by
  cases found : escapeLetter? byte with
  | none => rfl
  | some letter => exact absurd (of_escapeLetter? found).1 (Nat.not_lt.mpr high)

theorem bare_iff {byte : UInt8} : Bare byte ↔ byte.toNat < 0x20 ∧ escapeLetter? byte = none := by
  constructor
  · intro bare
    refine ⟨bare.1, ?_⟩
    cases found : escapeLetter? byte with
    | none => rfl
    | some letter => exact absurd bare (of_escapeLetter? found).2
  · rintro ⟨control, found⟩
    refine ⟨control, ?_⟩
    intro member
    simp only [List.mem_cons, List.not_mem_nil, or_false] at member
    rcases member with rfl | rfl | rfl | rfl | rfl <;> contradiction

theorem mem_escape_of_bare {bytes : List UInt8} {byte : UInt8} (member : byte ∈ bytes)
    (bare : Bare byte) : byte ∈ escape bytes := by
  apply List.mem_flatMap.mpr
  refine ⟨byte, member, ?_⟩
  rw [escapeByte, (bare_iff.mp bare).2]
  exact List.mem_singleton_self byte

namespace Standard

theorem letterUnit?_of_escapeLetter? {byte letter : UInt8}
    (escapes : escapeLetter? byte = some letter) : letterUnit? letter = some byte.toNat := by
  have back := unescapeLetter?_of_escapeLetter? escapes
  rw [letterUnit?, back, if_neg]
  · rfl
  · rintro rfl
    contradiction

theorem body_escape_char {char : Char} {body : List UInt8} {units : List Nat}
    (clean : Clean (String.utf8EncodeChar char)) (later : Body body units) :
    Body (escape (String.utf8EncodeChar char) ++ body) (codeUnits char ++ units) := by
  have plain (shown : 0x20 ≤ char.toNat)
      (kept : ∀ byte ∈ String.utf8EncodeChar char, escapeLetter? byte = none) :
      Body (escape (String.utf8EncodeChar char) ++ body) (codeUnits char ++ units) := by
    rw [escape_eq_self kept]
    refine .plain shown ?_ ?_ later
    · rintro rfl
      exact absurd (kept 0x22 (by decide)) (by decide)
    · rintro rfl
      exact absurd (kept 0x5C (by decide)) (by decide)
  -- an ASCII character is one byte, and only such a byte is ever escaped
  rcases Nat.lt_or_ge char.toNat 0x80 with ascii | high
  · have number : (UInt8.ofNat char.toNat).toNat = char.toNat := by
      rw [UInt8.toNat_ofNat']
      omega
    rw [encode_ascii ascii] at clean plain ⊢
    simp only [Clean, List.mem_singleton, forall_eq] at clean plain
    cases found : escapeLetter? (UInt8.ofNat char.toNat) with
    | some letter =>
        have unit := letterUnit?_of_escapeLetter? found
        rw [number] at unit
        rw [escape_singleton, escapeByte, found, codeUnits, if_pos (by omega)]
        exact .letter unit later
    | none =>
        refine plain ?_ found
        have shown := fun small => clean (bare_iff.mpr ⟨small, found⟩)
        rw [number] at shown
        exact Nat.le_of_not_lt shown
  · refine plain (by omega) ?_
    intro byte member
    exact escapeLetter?_of_high (high_of_mem_encode high member)

theorem body_escape {chars : List Char} (clean : Clean (chars.flatMap String.utf8EncodeChar)) :
    Body (escape (chars.flatMap String.utf8EncodeChar)) (chars.flatMap codeUnits) := by
  induction chars with
  | nil => exact .nil
  | cons char rest ih =>
      rw [List.flatMap_cons] at clean
      rw [List.flatMap_cons, List.flatMap_cons, escape_append]
      refine body_escape_char ?_ (ih ?_)
      · exact fun byte member => clean byte (List.mem_append_left _ member)
      · exact fun byte member => clean byte (List.mem_append_right _ member)

theorem shown_of_letterUnit? {letter : UInt8} {unit : Nat}
    (known : letterUnit? letter = some unit) : 0x20 ≤ letter.toNat := by
  rw [letterUnit?] at known
  split at known
  next same =>
    rw [same]
    decide
  obtain ⟨byte, found, _⟩ := Option.map_eq_some_iff.mp known
  rw [unescapeLetter?] at found
  repeat
    split at found
    next same =>
      rw [same]
      decide
  contradiction

theorem shown_of_hexDigit? {byte : UInt8} {digit : Nat} (known : hexDigit? byte = some digit) :
    0x20 ≤ byte.toNat := by
  rw [hexDigit?] at known
  repeat
    split at known
    next range => exact Nat.le_trans (by decide) range.1
  contradiction

theorem of_hexUnit? {digits : List UInt8} {unit : Nat} (known : hexUnit? digits = some unit) :
    digits.length = 4 ∧ ∀ byte ∈ digits, 0x20 ≤ byte.toNat := by
  match digits with
  | [first, second, third, fourth] =>
      rw [hexUnit?] at known
      obtain ⟨_, firstDigit, known⟩ := Option.bind_eq_some_iff.mp known
      obtain ⟨_, secondDigit, known⟩ := Option.bind_eq_some_iff.mp known
      obtain ⟨_, thirdDigit, known⟩ := Option.bind_eq_some_iff.mp known
      obtain ⟨_, fourthDigit, _⟩ := Option.bind_eq_some_iff.mp known
      refine ⟨rfl, ?_⟩
      simp only [List.forall_mem_cons]
      exact ⟨shown_of_hexDigit? firstDigit, shown_of_hexDigit? secondDigit,
        shown_of_hexDigit? thirdDigit, shown_of_hexDigit? fourthDigit, by simp⟩
  | [] | [_] | [_, _] | [_, _, _] | _ :: _ :: _ :: _ :: _ :: _ => contradiction

theorem shown_of_mem_encode {char : Char} (shown : 0x20 ≤ char.toNat) {byte : UInt8}
    (member : byte ∈ String.utf8EncodeChar char) : 0x20 ≤ byte.toNat := by
  rcases Nat.lt_or_ge char.toNat 0x80 with ascii | high
  · rw [encode_ascii ascii, List.mem_singleton] at member
    rw [member, UInt8.toNat_ofNat', Nat.mod_eq_of_lt (by omega)]
    exact shown
  · exact Nat.le_trans (by decide) (high_of_mem_encode high member)

theorem Body.shown {body : List UInt8} {units : List Nat} (spells : Body body units) :
    ∀ byte ∈ body, 0x20 ≤ byte.toNat := by
  have backslash : 0x20 ≤ (0x5C : UInt8).toNat := by decide
  induction spells with
  | nil => simp
  | plain shown _ _ _ ih =>
      rw [List.forall_mem_append]
      exact ⟨fun byte member => shown_of_mem_encode shown member, ih⟩
  | letter known _ ih =>
      simp only [List.forall_mem_cons]
      exact ⟨backslash, shown_of_letterUnit? known, ih⟩
  | hexadecimal known _ ih =>
      simp only [List.forall_mem_cons, List.forall_mem_append]
      exact ⟨backslash, by decide, (of_hexUnit? known).2, ih⟩

theorem encode_ne_backslash {char : Char} (plain : char ≠ '\\') (body rest : List UInt8) :
    String.utf8EncodeChar char ++ body ≠ 0x5C :: rest := by
  intro same
  exact plain (@encode_append_inj char '\\' body rest same).1

theorem Body.unique {body : List UInt8} {first second : List Nat} (one : Body body first)
    (other : Body body second) : first = second := by
  -- the bytes in front tell the forms apart, so both derivations end in the same one
  induction one generalizing second with
  | nil =>
      generalize nothing : ([] : List UInt8) = body at other
      cases other with
      | nil => rfl
      | plain _ _ _ _ => simp [String.utf8EncodeChar_ne_nil] at nothing
      | letter _ _ => contradiction
      | hexadecimal _ _ => contradiction
  | @plain char body units shown quote backslash spells ih =>
      generalize same : String.utf8EncodeChar char ++ body = whole at other
      cases other with
      | nil => simp [String.utf8EncodeChar_ne_nil] at same
      | plain _ _ _ otherSpells =>
          obtain ⟨rfl, rfl⟩ := encode_append_inj same
          rw [ih otherSpells]
      | letter _ _ => exact absurd same (encode_ne_backslash backslash _ _)
      | hexadecimal _ _ => exact absurd same (encode_ne_backslash backslash _ _)
  | @letter letter unit body units known spells ih =>
      generalize same : 0x5C :: letter :: body = whole at other
      cases other with
      | nil => contradiction
      | plain _ _ backslash _ => exact absurd same.symm (encode_ne_backslash backslash _ _)
      | letter otherKnown otherSpells =>
          injection same with _ same
          injection same with letters bodies
          subst letters bodies
          rw [known] at otherKnown
          injection otherKnown with units
          rw [ih otherSpells, units]
      | hexadecimal _ _ =>
          injection same with _ same
          injection same with letters _
          subst letters
          contradiction
  | @hexadecimal digits unit body units known spells ih =>
      generalize same : 0x5C :: 0x75 :: (digits ++ body) = whole at other
      cases other with
      | nil => contradiction
      | plain _ _ backslash _ => exact absurd same.symm (encode_ne_backslash backslash _ _)
      | letter otherKnown _ =>
          injection same with _ same
          injection same with letters _
          subst letters
          contradiction
      | hexadecimal otherKnown otherSpells =>
          injection same with _ same
          injection same with _ same
          have lengths := (of_hexUnit? known).1.trans (of_hexUnit? otherKnown).1.symm
          obtain ⟨rfl, rfl⟩ := List.append_inj same lengths
          rw [known] at otherKnown
          injection otherKnown with units
          rw [ih otherSpells, units]

theorem spelled_quote_iff {bytes : List UInt8} {units : List Nat} :
    Spelled (Document.quote bytes) units ↔ Body (escape bytes) units := by
  constructor
  · rintro ⟨body, spells, same⟩
    injection same with _ same
    rw [List.append_cancel_right same]
    exact spells
  · intro spells
    exact ⟨_, spells, rfl⟩

theorem clean_of_spelled {bytes : List UInt8} {units : List Nat}
    (spelled : Spelled (Document.quote bytes) units) : Clean bytes := by
  have spells := spelled_quote_iff.mp spelled
  intro byte member bare
  exact Nat.not_le.mpr bare.1 (spells.shown byte (mem_escape_of_bare member bare))

theorem decodes_quote {text : String} (clean : Clean (octets text)) :
    Decodes (Document.quote (octets text)) text := by
  rw [octets_eq] at clean ⊢
  exact spelled_quote_iff.mpr (body_escape clean)

theorem isString_quote_iff (text : String) :
    IsString (Document.quote (octets text)) ↔ Clean (octets text) := by
  constructor
  · rintro ⟨units, spelled⟩
    exact clean_of_spelled spelled
  · intro clean
    exact ⟨_, decodes_quote clean⟩

theorem decodes_quote_iff (text other : String) :
    Decodes (Document.quote (octets text)) other ↔ Clean (octets text) ∧ other = text := by
  constructor
  · intro decodes
    have clean := clean_of_spelled decodes
    have units := (spelled_quote_iff.mp decodes).unique
      (spelled_quote_iff.mp (decodes_quote clean))
    exact ⟨clean, String.toList_inj.mp (codeUnits_injective units)⟩
  · rintro ⟨clean, rfl⟩
    exact decodes_quote clean

end Standard

end Json

end ConcreteSyntax
