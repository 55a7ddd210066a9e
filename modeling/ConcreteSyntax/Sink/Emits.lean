import ConcreteSyntax.Sink

/-!
What a program writes, whatever the sink.

`Emits program bytes value` says that the program writes exactly `bytes` and gives `value` if the
sink has room for them all, and otherwise fills the sink with the first of them and fails. Where
the bytes are divided into writes makes no difference, so programs are put together by
`emits_bind`.
-/

namespace ConcreteSyntax

namespace Sink

theorem append_nil (sink : Sink) : sink.append [] = sink := by
  simp [append]

theorem append_append (sink : Sink) (first second : List UInt8) :
    (sink.append first).append second = sink.append (first ++ second) := by
  simp [append]

theorem room_eq_self (sink : Sink) (data : List UInt8)
    (fits : ¬(sink.room data).length < data.length) : sink.room data = data := by
  cases limited : sink.limit with
  | none => simp [room, limited]
  | some limit =>
      simp only [room, limited, List.length_take] at fits ⊢
      exact List.take_of_length_le (by omega)

theorem room_append_of_short (sink : Sink) (first second : List UInt8)
    (short : (sink.room first).length < first.length) :
    sink.room (first ++ second) = sink.room first := by
  cases limited : sink.limit with
  | none => simp [room, limited] at short
  | some limit =>
      simp only [room, limited, List.length_take] at short ⊢
      exact List.take_append_of_le_length (by omega)

theorem room_append_of_fits (sink : Sink) (first second : List UInt8)
    (fits : ¬(sink.room first).length < first.length) :
    sink.room (first ++ second) = first ++ (sink.append first).room second := by
  cases limited : sink.limit with
  | none => simp [room, append, limited]
  | some limit =>
      simp only [room, append, limited, List.length_take, Array.size_append,
        List.size_toArray] at fits ⊢
      rw [List.take_append, List.take_of_length_le (by omega)]
      congr 2
      omega

theorem room_rest (sink : Sink) (data : List UInt8) :
    (sink.append (sink.room data)).room (data.drop (sink.room data).length) = [] := by
  cases limited : sink.limit with
  | none => simp [room, append, limited]
  | some limit =>
      simp only [room, append, limited, List.length_take, Array.size_append, List.size_toArray]
      by_cases short : limit - sink.bytes.size < data.length
      · have filled : limit - (sink.bytes.size + min (limit - sink.bytes.size) data.length) = 0 := by
          omega
        rw [filled, List.take_zero]
      · rw [List.drop_of_length_le (by omega), List.take_nil]

theorem write_nil (sink : Sink) : write [] sink = .ok () sink := by
  rw [write]
  rfl

theorem write_of_no_room (sink : Sink) (data : List UInt8) (filled : data ≠ [])
    (stuck : sink.room data = []) : write data sink = .error .full sink := by
  cases data with
  | nil => exact absurd rfl filled
  | cons byte rest =>
      rw [write]
      change EStateM.bind (offer _) _ sink = _
      simp [EStateM.bind, offer, stuck]

theorem write_of_room (sink : Sink) (data : List UInt8) (taken : sink.room data ≠ []) :
    write data sink =
      write (data.drop (sink.room data).length) (sink.append (sink.room data)) := by
  cases data with
  | nil =>
      have empty : sink.room [] = [] := by
        cases limited : sink.limit <;> simp [room, limited]
      exact absurd empty taken
  | cons byte rest =>
      have some : 0 < (sink.room (byte :: rest)).length := List.length_pos_iff.mpr taken
      rw [write]
      change EStateM.bind (offer _) _ sink = _
      simp only [EStateM.bind, offer, some, ↓reduceDIte]

end Sink

namespace Write

/-- The program writes `bytes` and gives `value`, or fails with the sink full of them. -/
def Emits {Value : Type} (program : Write Value) (bytes : List UInt8) (value : Value) : Prop :=
  ∀ sink : Sink, program sink =
    if (sink.room bytes).length < bytes.length then
      .error .full (sink.append (sink.room bytes))
    else .ok value (sink.append bytes)

theorem emits_congr {Value : Type} {program : Write Value} {first second : List UInt8}
    {value : Value} (same : first = second) (writes : program.Emits first value) :
    program.Emits second value :=
  same ▸ writes

theorem emits_write (data : List UInt8) : Emits (Sink.write data) data () := by
  intro sink
  by_cases stuck : sink.room data = []
  · by_cases empty : data = []
    · subst empty
      simp [stuck, Sink.write_nil, Sink.append_nil]
    · rw [sink.write_of_no_room data empty stuck, stuck, Sink.append_nil, if_pos]
      exact List.length_pos_iff.mpr empty
  · rw [sink.write_of_room data stuck]
    by_cases short : (sink.room data).length < data.length
    · rw [Sink.write_of_no_room _ _ (by simpa using short) (sink.room_rest data), if_pos short]
    · rw [List.drop_of_length_le (by omega), Sink.write_nil, if_neg short,
        sink.room_eq_self data short]

theorem emits_pure {Value : Type} (value : Value) :
    Emits (pure value : Write Value) [] value := by
  intro sink
  simp only [List.length_nil, Nat.not_lt_zero, ↓reduceIte, Sink.append_nil]
  rfl

theorem emits_bind {First Second : Type} {program : Write First} {next : First → Write Second}
    {first second : List UInt8} {value : First} {result : Second}
    (begins : program.Emits first value) (continues : (next value).Emits second result) :
    Emits (program >>= next) (first ++ second) result := by
  intro sink
  change EStateM.bind program next sink = _
  rw [EStateM.bind, begins sink]
  by_cases short : (sink.room first).length < first.length
  · simp only [short, ↓reduceIte]
    rw [sink.room_append_of_short first second short, if_pos]
    simp only [List.length_append]
    omega
  · simp only [short, ↓reduceIte]
    rw [continues, sink.room_append_of_fits first second short]
    simp only [Sink.append_append, List.length_append, Nat.add_lt_add_iff_left]

theorem emits_then {Result : Type} {program : Write Unit} {next : Write Result}
    {first second : List UInt8} {result : Result}
    (begins : program.Emits first ()) (continues : next.Emits second result) :
    Emits (do program; next) (first ++ second) result :=
  emits_bind begins continues

section

variable {Value : Type} {program : Write Value} {bytes : List UInt8} {value : Value}

theorem Emits.run_eq_ok_iff (writes : program.Emits bytes value) (sink after : Sink) :
    program.run sink = .ok value after ↔ sink.room bytes = bytes ∧ after = sink.append bytes := by
  change program sink = _ ↔ _
  rw [writes sink]
  by_cases short : (sink.room bytes).length < bytes.length
  · rw [if_pos short]
    constructor
    · intro impossible
      contradiction
    · rintro ⟨fits, _⟩
      rw [fits] at short
      omega
  · rw [if_neg short]
    constructor
    · intro done
      injection done with _ same
      exact ⟨sink.room_eq_self bytes short, same.symm⟩
    · rintro ⟨_, same⟩
      rw [same]

theorem Emits.run_unlimited (writes : program.Emits bytes value) :
    program.run (.empty none) = .ok value ⟨bytes.toArray, none⟩ := by
  rw [writes.run_eq_ok_iff]
  simp [Sink.room, Sink.empty, Sink.append]

theorem Emits.run_limited (writes : program.Emits bytes value) (limit : Nat) :
    program.run (.empty (some limit)) =
      if bytes.length ≤ limit then .ok value ⟨bytes.toArray, some limit⟩
      else .error .full ⟨(bytes.take limit).toArray, some limit⟩ := by
  change program _ = _
  rw [writes]
  by_cases fits : bytes.length ≤ limit
  · rw [if_pos fits, if_neg]
    · simp [Sink.empty, Sink.append]
    · simp only [Sink.room, Sink.empty, List.length_take, List.size_toArray, List.length_nil]
      omega
  · rw [if_neg fits, if_pos]
    · simp [Sink.room, Sink.empty, Sink.append]
    · simp only [Sink.room, Sink.empty, List.length_take, List.size_toArray, List.length_nil]
      omega

end

end Write

end ConcreteSyntax
