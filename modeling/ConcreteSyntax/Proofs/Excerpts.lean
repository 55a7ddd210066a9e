import ConcreteSyntax.Json.Reader
import ConcreteSyntax.Proofs.Rendering

/-!
The text of a value in a written document is the written form of that value.

An object is looked through entry by entry. The keys of an object differ, so the entry found under
a key is the one that has it.
-/

namespace ConcreteSyntax

namespace Json

/-- The text of the value under `key`, in a text that starts with an entry. At most `fuel` entries
are looked at. -/
def entryText? (key : List UInt8) : Nat → List UInt8 → Option (List UInt8)
  | 0, _ => none
  | fuel + 1, bytes => do
      let (name, rest) ← readByte 0x22 bytes >>= readString
      let start ← (readByte 0x3A rest).map skipBlanks
      let (_, rest) ← Document.readValue start.length start
      if name = key then some (start.take (start.length - rest.length))
      else (readByte 0x2C rest).bind (entryText? key fuel)

def valueText? (text key : List UInt8) : Option (List UInt8) :=
  (readByte 0x7B text).bind (entryText? key text.length)

def excerpt? (text : List UInt8) : List (List UInt8) → Option (List UInt8)
  | [] => some text
  | key :: keys => (valueText? text key).bind (excerpt? · keys)

open Document

variable {indent : List UInt8}

theorem skipBlanks_render (document : Document) (level : Nat) (tail : List UInt8) :
    skipBlanks (0x20 :: (document.render indent level ++ tail)) =
      document.render indent level ++ tail := by
  cases document <;> rfl

theorem length_le_renderEntries (indent : List UInt8) (level : Nat) (separator : List UInt8)
    (entries : List (List UInt8 × Document)) :
    entries.length ≤ (renderEntries indent level separator entries).length := by
  induction entries generalizing separator with
  | nil => exact Nat.le_refl 0
  | cons entry rest ih =>
      have later := ih [0x2C, 0x0A]
      simp only [renderEntries, List.length_append, List.length_cons]
      omega

theorem entryText?_cons (blank : Blank indent) (level : Nat) {separator : List UInt8}
    (leads : Blank separator) (key name tail : List UInt8) (value : Document)
    (rest : List (List UInt8 × Document)) (distinct : value.Distinct) (fuel : Nat) :
    entryText? key (fuel + 1)
        (renderEntries indent level separator ((name, value) :: rest) ++ tail) =
      if name = key then some (value.render indent level)
      else (readByte 0x2C (renderEntries indent level [0x2C, 0x0A] rest ++ tail)).bind
        (entryText? key fuel) := by
  have named := quoted_quote (leads.append (blank_margin blank level)) name
  have nothing : Blank [] := rfl
  have denotes : Denotes (value.render indent level) value :=
    denotes_render blank level nothing value distinct
  simp only [renderEntries, entryText?, List.append_assoc, Option.bind_eq_bind] at named ⊢
  generalize renderEntries indent level [0x2C, 0x0A] rest ++ tail = after
  have nameRead := named.read ([0x3A, 0x20] ++ (value.render indent level ++ after))
  have valueRead := denotes.readValue (value.render indent level ++ after).length (by simp) after
  simp only [List.append_assoc] at nameRead
  rw [nameRead, Option.bind_some, List.cons_append, readByte_cons (by rfl), if_pos rfl,
    Option.map_some, List.singleton_append, skipBlanks_render, Option.bind_some, valueRead]
  simp

theorem entryText?_of_mem (blank : Blank indent) (level : Nat) {separator : List UInt8}
    (leads : Blank separator) (tail : List UInt8) {key : List UInt8} {value : Document}
    {entries : List (List UInt8 × Document)} (keys : (entries.map (·.1)).Nodup)
    (distinct : AllDistinct entries) (member : (key, value) ∈ entries) {fuel : Nat}
    (enough : entries.length ≤ fuel) :
    entryText? key fuel (renderEntries indent level separator entries ++ tail) =
      some (value.render indent level) := by
  induction entries generalizing separator fuel with
  | nil => contradiction
  | cons entry rest ih =>
      obtain ⟨name, other⟩ := entry
      obtain ⟨fuel, rfl⟩ : ∃ less, fuel = less + 1 := ⟨fuel - 1, by
        rw [List.length_cons] at enough
        omega⟩
      rw [List.length_cons, Nat.add_le_add_iff_right] at enough
      rw [List.map_cons, List.nodup_cons] at keys
      rw [AllDistinct] at distinct
      rw [entryText?_cons blank level leads key name tail other rest distinct.1]
      by_cases same : name = key
      · rw [if_pos same]
        rcases List.mem_cons.mp member with first | later
        · injection first with _ values
          rw [values]
        · exact absurd (List.mem_map_of_mem later) (same ▸ keys.1)
      · have later : (key, value) ∈ rest := by
          rcases List.mem_cons.mp member with first | later
          · injection first with names
            exact absurd names.symm same
          · exact later
        obtain ⟨next, others, parts⟩ := List.exists_cons_of_ne_nil (List.ne_nil_of_mem later)
        have afterComma : readByte 0x2C (renderEntries indent level [0x2C, 0x0A] rest ++ tail) =
            some (renderEntries indent level [0x0A] rest ++ tail) := by
          rw [parts, renderEntries_separator, renderEntries_separator _ _ [0x0A]]
          exact readByte_cons rfl _ _
        rw [if_neg same, afterComma]
        have lineEnd : Blank [0x0A] := rfl
        exact ih lineEnd keys.2 distinct.2 later enough

theorem valueText?_render (blank : Blank indent) (level : Nat) (tail : List UInt8)
    {key : List UInt8} {value : Document} {entries : List (List UInt8 × Document)}
    (distinct : (object entries).Distinct) (member : (key, value) ∈ entries) :
    valueText? ((object entries).render indent level ++ tail) key =
      some (value.render indent (level + 1)) := by
  have enough := length_le_renderEntries indent (level + 1) [0x0A] entries
  rw [valueText?, render]
  simp only [List.append_assoc, List.cons_append, List.nil_append]
  rw [readByte_cons (by rfl), if_pos rfl, Option.bind_some]
  have lineEnd : Blank [0x0A] := rfl
  apply entryText?_of_mem blank (level + 1) lineEnd _ distinct.1 distinct.2 member
  simp only [List.length_cons, List.length_append]
  omega

example : excerpt? (octets "\x7b\"a\": \"0\", \"b\": \x7b\"c\": \"1\"\x7d\x7d")
      [octets "b", octets "c"] =
    some (octets "\"1\"") := rfl

end Json

end ConcreteSyntax
