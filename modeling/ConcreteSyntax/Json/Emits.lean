import ConcreteSyntax.Json.Document
import ConcreteSyntax.Sink.Emits

/-!
What the parts of a dump write: strings, margins and keys.
-/

namespace ConcreteSyntax

namespace Json

open Write

theorem emits_writeEscapedAfter (run bytes : List UInt8) :
    Emits (writeEscapedAfter run bytes) (run.reverse ++ escape bytes) () := by
  induction bytes generalizing run with
  | nil =>
      rw [writeEscapedAfter, escape, List.flatMap_nil, List.append_nil]
      exact emits_write run.reverse
  | cons byte rest ih =>
      rw [writeEscapedAfter, escape, List.flatMap_cons]
      cases letter : escapeLetter? byte with
      | none =>
          have written := ih (byte :: run)
          simpa [escapeByte, letter, escape] using written
      | some sign =>
          have image : escapeByte byte = [0x5C, sign] := by simp [escapeByte, letter]
          rw [image]
          exact emits_bind (emits_write run.reverse)
            (emits_bind (emits_write [0x5C, sign]) (ih []))

theorem emits_writeEscaped (bytes : List UInt8) : Emits (writeEscaped bytes) (escape bytes) () :=
  emits_writeEscapedAfter [] bytes

theorem emits_writeString (bytes : List UInt8) :
    Emits (writeString bytes) (Document.quote bytes) () :=
  emits_bind (emits_write [0x22]) (emits_bind (emits_writeEscaped bytes) (emits_write [0x22]))

theorem emits_writeIndent (style : Style) (level : Nat) :
    Emits (writeIndent style level) (Document.margin (octets style.indent) level) () := by
  induction level with
  | zero => exact emits_pure ()
  | succ level ih =>
      rw [writeIndent, Document.margin, List.replicate_succ, List.flatten_cons]
      exact emits_bind (emits_write (octets style.indent)) ih

theorem emits_writeKey (style : Style) (level : Nat) (first : Bool) (key : String) :
    Emits (writeKey style level first key)
      ((if first then [0x0A] else [0x2C, 0x0A]) ++
        (Document.margin (octets style.indent) level ++
          (Document.quote (octets key) ++ [0x3A, 0x20]))) () :=
  emits_bind (emits_write _) (emits_bind (emits_writeIndent style level)
    (emits_bind (emits_writeString (octets key)) (emits_write [0x3A, 0x20])))

end Json

end ConcreteSyntax
