import ConcreteSyntax.Json.Notation
import Mathlib.Data.List.TakeWhile

/-!
The reader accepts the texts that denote a document, and no others.
-/

namespace ConcreteSyntax

namespace Json

theorem readByte_blanks_append {blanks : List UInt8} (blank : Blank blanks) (byte : UInt8)
    (rest : List UInt8) : readByte byte (blanks ++ rest) = readByte byte rest := by
  have skips : skipBlanks (blanks ++ rest) = skipBlanks rest := by
    rw [skipBlanks, skipBlanks, List.dropWhile_append_of_pos]
    exact List.all_eq_true.mp blank
  rw [readByte, skips, ← readByte]

theorem readByte_cons {first : UInt8} (solid : isBlank first = false) (byte : UInt8)
    (rest : List UInt8) :
    readByte byte (first :: rest) = if first = byte then some rest else none := by
  rw [readByte, skipBlanks, List.dropWhile_cons, solid]
  rfl

theorem Token.readByte {byte : UInt8} {text : List UInt8} (token : Token byte text)
    (wanted : UInt8) (rest : List UInt8) :
    Json.readByte wanted (text ++ rest) = if byte = wanted then some rest else none := by
  obtain ⟨blanks, blank, same⟩ := token.led
  rw [same, List.append_assoc, readByte_blanks_append blank]
  exact readByte_cons token.solid wanted rest

theorem Token.read {byte : UInt8} {text : List UInt8} (token : Token byte text)
    (rest : List UInt8) : Json.readByte byte (text ++ rest) = some rest := by
  rw [token.readByte, if_pos rfl]

theorem Token.refuse {byte wanted : UInt8} {text : List UInt8} (token : Token byte text)
    (other : byte ≠ wanted) (rest : List UInt8) : Json.readByte wanted (text ++ rest) = none := by
  rw [token.readByte, if_neg other]

theorem Token.of_readByte {byte : UInt8} {bytes rest : List UInt8}
    (read : Json.readByte byte bytes = some rest) :
    ∃ text, Token byte text ∧ bytes = text ++ rest := by
  rw [Json.readByte] at read
  cases found : skipBlanks bytes with
  | nil => simp [found] at read
  | cons first others =>
      simp only [found] at read
      split at read
      next same =>
        injection read with tail
        subst same tail
        have solid : isBlank first = false := by
          have stopped := List.head?_dropWhile_not isBlank bytes
          rw [← skipBlanks, found] at stopped
          exact stopped
        refine ⟨bytes.takeWhile isBlank ++ [first], ⟨solid, _, List.all_takeWhile, rfl⟩, ?_⟩
        rw [List.append_assoc, List.singleton_append, ← found, skipBlanks,
          List.takeWhile_append_dropWhile]
      · contradiction

theorem readString_quote (rest : List UInt8) : readString (0x22 :: rest) = some ([], rest) := by
  rw [readString.eq_def]
  rfl

theorem readString_plain {byte : UInt8} (noQuote : byte ≠ 0x22) (noBackslash : byte ≠ 0x5C)
    (rest : List UInt8) :
    readString (byte :: rest) =
      (readString rest).map fun result => (byte :: result.1, result.2) := by
  rw [readString.eq_def]
  simp only [noQuote, noBackslash, ↓reduceIte]
  cases readString rest <;> rfl

theorem readString_escaped (letter : UInt8) (rest : List UInt8) :
    readString (0x5C :: letter :: rest) =
      (unescapeLetter? letter).bind fun byte =>
        (readString rest).map fun result => (byte :: result.1, result.2) := by
  have noQuote : (0x5C : UInt8) ≠ 0x22 := by decide
  rw [readString.eq_def]
  simp only [noQuote, ↓reduceIte]
  cases unescapeLetter? letter with
  | none => rfl
  | some byte => cases readString rest <;> rfl

theorem Spells.readString {body bytes : List UInt8} (spells : Spells body bytes)
    (rest : List UInt8) : Json.readString (body ++ 0x22 :: rest) = some (bytes, rest) := by
  induction spells with
  | nil => exact readString_quote rest
  | plain noQuote noBackslash _ ih =>
      rw [List.cons_append, readString_plain noQuote noBackslash, ih]
      rfl
  | escaped escapes _ ih =>
      rw [List.cons_append, List.cons_append, readString_escaped, escapes, ih]
      rfl

theorem Spells.of_readString {text bytes rest : List UInt8}
    (read : Json.readString text = some (bytes, rest)) :
    ∃ body, Spells body bytes ∧ text = body ++ 0x22 :: rest := by
  match text with
  | [] => simp [Json.readString] at read
  | byte :: others =>
    by_cases quote : byte = 0x22
    · subst quote
      rw [readString_quote] at read
      injection read with parts
      injection parts with nothing tail
      exact ⟨[], nothing ▸ .nil, by rw [tail]; rfl⟩
    · by_cases backslash : byte = 0x5C
      · subst backslash
        match others with
        | [] => simp [Json.readString] at read
        | letter :: others =>
          rw [readString_escaped] at read
          obtain ⟨byte, escapes, read⟩ := Option.bind_eq_some_iff.mp read
          obtain ⟨⟨bytes, tail⟩, inner, parts⟩ := Option.map_eq_some_iff.mp read
          injection parts with whole tail
          subst whole tail
          obtain ⟨body, spells, same⟩ := Spells.of_readString inner
          exact ⟨0x5C :: letter :: body, .escaped escapes spells, by rw [same]; rfl⟩
      · rw [readString_plain quote backslash] at read
        obtain ⟨⟨bytes, tail⟩, inner, parts⟩ := Option.map_eq_some_iff.mp read
        injection parts with whole tail
        subst whole tail
        obtain ⟨body, spells, same⟩ := Spells.of_readString inner
        exact ⟨byte :: body, .plain quote backslash spells, by rw [same]; rfl⟩

theorem Quoted.read {text bytes : List UInt8} (quoted : Quoted text bytes) (rest : List UInt8) :
    (readByte 0x22 (text ++ rest)).bind readString = some (bytes, rest) := by
  obtain ⟨opening, body, token, spells, same⟩ := quoted
  rw [same, List.append_assoc, token.read, Option.bind_some,
    List.append_assoc]
  exact spells.readString rest

theorem Quoted.of_read {text bytes rest : List UInt8}
    (read : (readByte 0x22 text).bind readString = some (bytes, rest)) :
    ∃ front, Quoted front bytes ∧ text = front ++ rest := by
  obtain ⟨others, first, read⟩ := Option.bind_eq_some_iff.mp read
  obtain ⟨opening, token, whole⟩ := Token.of_readByte first
  obtain ⟨body, spells, same⟩ := Spells.of_readString read
  refine ⟨_, ⟨opening, body, token, spells, rfl⟩, ?_⟩
  rw [whole, same]
  simp

theorem Token.length_pos {byte : UInt8} {text : List UInt8} (token : Token byte text) :
    0 < text.length := by
  obtain ⟨blanks, _, same⟩ := token.led
  simp [same]

theorem Quoted.length_pos {text bytes : List UInt8} (quoted : Quoted text bytes) :
    0 < text.length := by
  obtain ⟨_, _, _, _, same⟩ := quoted
  simp only [same, List.length_append, List.length_singleton]
  omega

theorem Denotes.length_pos {text : List UInt8} {document : Document}
    (denotes : Denotes text document) : 0 < text.length := by
  cases denotes with
  | text quoted => exact quoted.length_pos
  | empty opening _ =>
      have filled := opening.length_pos
      simp only [List.length_append]
      omega
  | object opening _ _ _ =>
      have filled := opening.length_pos
      simp only [List.length_append]
      omega

theorem DenotesEntries.starts {text : List UInt8} {entries : List (List UInt8 × Document)}
    (denotes : DenotesEntries text entries) :
    ∃ name key rest, Quoted name key ∧ text = name ++ rest := by
  cases denotes with
  | last quoted _ _ => exact ⟨_, _, _, quoted, rfl⟩
  | more quoted _ _ _ _ => exact ⟨_, _, _, quoted, rfl⟩

theorem DenotesEntries.length_pos {text : List UInt8} {entries : List (List UInt8 × Document)}
    (denotes : DenotesEntries text entries) : 0 < text.length := by
  obtain ⟨name, key, rest, quoted, same⟩ := denotes.starts
  have filled := quoted.length_pos
  rw [same, List.length_append]
  omega

theorem DenotesEntries.refuse_brace {text : List UInt8}
    {entries : List (List UInt8 × Document)} (denotes : DenotesEntries text entries)
    (rest : List UInt8) : readByte 0x7D (text ++ rest) = none := by
  obtain ⟨name, key, others, quoted, same⟩ := denotes.starts
  obtain ⟨opening, body, token, _, whole⟩ := quoted
  simp only [same, whole, List.append_assoc]
  exact token.refuse (by decide) _

-- The length of the text is fuel enough: a level uses up a brace, and an entry a colon.
mutual

theorem Denotes.readValue {text : List UInt8} {document : Document}
    (denotes : Denotes text document) (fuel : Nat) (enough : text.length ≤ fuel)
    (rest : List UInt8) : Document.readValue fuel (text ++ rest) = some (document, rest) := by
  match fuel, denotes with
  | 0, denotes =>
      have filled := denotes.length_pos
      omega
  | fuel + 1, .text quoted =>
      obtain ⟨after, opened, read⟩ := Option.bind_eq_some_iff.mp (quoted.read rest)
      rw [Document.readValue, opened]
      simp only [read]
      rfl
  | fuel + 1, .empty opening closing =>
      rw [List.append_assoc, Document.readValue, opening.refuse (by decide)]
      simp only
      rw [opening.read]
      simp only [Option.bind_eq_bind, Option.bind_some]
      rw [closing.read]
  | fuel + 1, .object opening entries closing distinct =>
      rw [List.append_assoc, Document.readValue, opening.refuse (by decide)]
      simp only
      rw [opening.read]
      simp only [Option.bind_eq_bind, Option.bind_some]
      have filled := opening.length_pos
      simp only [List.length_append] at enough
      rw [List.append_assoc, entries.refuse_brace,
        entries.readEntries fuel (by omega) closing rest]
      simp only [Option.bind_some]
      rw [if_pos distinct]

theorem DenotesEntries.readEntries {text closing : List UInt8}
    {entries : List (List UInt8 × Document)} (denotes : DenotesEntries text entries) (fuel : Nat)
    (enough : text.length ≤ fuel) (close : Token 0x7D closing) (rest : List UInt8) :
    Document.readEntries fuel (text ++ (closing ++ rest)) = some (entries, rest) := by
  match fuel, denotes with
  | 0, denotes =>
      have filled := denotes.length_pos
      omega
  | fuel + 1, .last key colon value =>
      have filled := colon.length_pos
      simp only [List.length_append] at enough
      simp only [Document.readEntries, List.append_assoc, Option.bind_eq_bind]
      rw [key.read]
      simp only [Option.bind_some]
      rw [colon.read]
      simp only [Option.bind_some]
      rw [value.readValue fuel (by omega)]
      simp only [Option.bind_some]
      rw [close.refuse (by decide)]
      simp only
      rw [close.read]
      rfl
  | fuel + 1, .more key colon value comma others =>
      have filled := colon.length_pos
      simp only [List.length_append] at enough
      simp only [Document.readEntries, List.append_assoc, Option.bind_eq_bind]
      rw [key.read]
      simp only [Option.bind_some]
      rw [colon.read]
      simp only [Option.bind_some]
      rw [value.readValue fuel (by omega)]
      simp only [Option.bind_some]
      rw [comma.read]
      simp only
      rw [others.readEntries fuel (by omega) close rest]
      rfl

end

mutual

theorem Denotes.of_readValue {fuel : Nat} {bytes rest : List UInt8} {document : Document}
    (read : Document.readValue fuel bytes = some (document, rest)) :
    ∃ text, Denotes text document ∧ bytes = text ++ rest := by
  match fuel with
  | 0 => simp [Document.readValue] at read
  | fuel + 1 =>
    rw [Document.readValue] at read
    cases opened : readByte 0x22 bytes with
    | some others =>
        simp only [opened] at read
        obtain ⟨⟨string, tail⟩, inner, parts⟩ := Option.map_eq_some_iff.mp read
        injection parts with same tail
        subst same tail
        have readAll : (readByte 0x22 bytes).bind readString = some (string, tail) := by
          rw [opened]
          exact inner
        obtain ⟨text, quoted, whole⟩ := Quoted.of_read readAll
        exact ⟨text, .text quoted, whole⟩
    | none =>
        simp only [opened, Option.bind_eq_bind] at read
        obtain ⟨others, braced, read⟩ := Option.bind_eq_some_iff.mp read
        obtain ⟨opening, token, whole⟩ := Token.of_readByte braced
        cases closed : readByte 0x7D others with
        | some tail =>
            simp only [closed] at read
            injection read with parts
            injection parts with same tail
            subst same tail
            obtain ⟨closing, close, same⟩ := Token.of_readByte closed
            exact ⟨_, .empty token close, by rw [whole, same, List.append_assoc]⟩
        | none =>
            simp only [closed] at read
            obtain ⟨⟨entries, tail⟩, inner, read⟩ := Option.bind_eq_some_iff.mp read
            simp only at read
            split at read
            next distinct =>
              injection read with parts
              injection parts with same tail
              subst same tail
              obtain ⟨text, closing, denotes, close, same⟩ := DenotesEntries.of_readEntries inner
              refine ⟨_, .object token denotes close distinct, ?_⟩
              rw [whole, same]
              simp
            · contradiction

theorem DenotesEntries.of_readEntries {fuel : Nat} {bytes rest : List UInt8}
    {entries : List (List UInt8 × Document)}
    (read : Document.readEntries fuel bytes = some (entries, rest)) :
    ∃ text closing, DenotesEntries text entries ∧ Token 0x7D closing ∧
      bytes = text ++ (closing ++ rest) := by
  match fuel with
  | 0 => simp [Document.readEntries] at read
  | fuel + 1 =>
    rw [Document.readEntries] at read
    simp only [Option.bind_eq_bind] at read
    obtain ⟨⟨key, afterKey⟩, first, read⟩ := Option.bind_eq_some_iff.mp read
    obtain ⟨⟨value, afterValue⟩, second, read⟩ := Option.bind_eq_some_iff.mp read
    obtain ⟨start, coloned, second⟩ := Option.bind_eq_some_iff.mp second
    obtain ⟨name, quoted, nameEnds⟩ := Quoted.of_read first
    obtain ⟨colon, token, colonEnds⟩ := Token.of_readByte coloned
    obtain ⟨text, denotes, textEnds⟩ := Denotes.of_readValue second
    simp only at nameEnds colonEnds textEnds read
    cases comma : readByte 0x2C afterValue with
    | some others =>
        simp only [comma] at read
        obtain ⟨⟨later, tail⟩, inner, parts⟩ := Option.bind_eq_some_iff.mp read
        injection parts with parts
        injection parts with same tail
        subst same tail
        obtain ⟨separator, separates, commaEnds⟩ := Token.of_readByte comma
        obtain ⟨more, closing, moreDenotes, close, moreEnds⟩ := DenotesEntries.of_readEntries inner
        refine ⟨_, closing, .more quoted token denotes separates moreDenotes, close, ?_⟩
        rw [nameEnds, colonEnds, textEnds, commaEnds, moreEnds]
        simp
    | none =>
        simp only [comma] at read
        obtain ⟨tail, closed, parts⟩ := Option.bind_eq_some_iff.mp read
        injection parts with parts
        injection parts with same tail
        subst same tail
        obtain ⟨closing, close, closingEnds⟩ := Token.of_readByte closed
        refine ⟨_, closing, .last quoted token denotes, close, ?_⟩
        rw [nameEnds, colonEnds, textEnds, closingEnds]
        simp

end

namespace Document

theorem strictReader_read? : StrictReader read? := by
  intro text document
  constructor
  · intro read
    obtain ⟨⟨found, rest⟩, inner, read⟩ := Option.bind_eq_some_iff.mp read
    obtain ⟨value, denotes, whole⟩ := Denotes.of_readValue inner
    simp only at read
    split at read
    next ended =>
      injection read with same
      subst same
      refine ⟨value, rest, denotes, ?_, whole⟩
      rw [skipBlanks, List.isEmpty_iff, List.dropWhile_eq_nil_iff] at ended
      exact List.all_eq_true.mpr ended
    · contradiction
  · rintro ⟨value, blanks, denotes, blank, whole⟩
    have enough : value.length ≤ text.length := by
      rw [whole, List.length_append]
      omega
    have ended : skipBlanks blanks = [] := by
      rw [skipBlanks, List.dropWhile_eq_nil_iff]
      exact List.all_eq_true.mp blank
    have read := denotes.readValue text.length enough blanks
    rw [← whole] at read
    rw [read?, read]
    simp only [Option.bind_eq_bind, Option.bind_some]
    rw [ended, List.isEmpty_nil, if_pos rfl]

example : (read? (octets "\x7b\"a\": \"\", \"a\": \"\"\x7d")).isNone = true := rfl

example : (read? (octets "\x7b\"a\": \"\",\x7d")).isNone = true := rfl

example : (read? (octets "\"\\u0022\"")).isNone = true := rfl

end Document

end Json

end ConcreteSyntax
