/-!
Sinks: growing byte buffers that may be limited, and programs that write into them.

A sink takes the bytes that it has room for, and fails when it is offered more with no room left.
A write offers its bytes until all of them are taken. What has been taken before a failure stays
in the sink, and an empty write offers nothing.
-/

namespace ConcreteSyntax

structure Sink where
  bytes : Array UInt8
  limit : Option Nat

inductive SinkError where
  | full
deriving DecidableEq

namespace SinkError

def message : SinkError → String
  | full => "write failed: sink full"

end SinkError

abbrev Write := EStateM SinkError Sink

namespace Sink

def empty (limit : Option Nat) : Sink :=
  ⟨#[], limit⟩

def append (sink : Sink) (data : List UInt8) : Sink :=
  { sink with bytes := sink.bytes ++ data.toArray }

def room (sink : Sink) (data : List UInt8) : List UInt8 :=
  match sink.limit with
  | none => data
  | some limit => data.take (limit - sink.bytes.size)

/-- Takes at least one of some bytes and gives the number of those taken, or fails. -/
def offer (data : List UInt8) : Write {count : Nat // 0 < count} := fun sink =>
  let taken := sink.room data
  if some : 0 < taken.length then .ok ⟨taken.length, some⟩ (sink.append taken)
  else .error .full sink

def write : List UInt8 → Write Unit
  | [] => pure ()
  | byte :: rest => do
      let count ← offer (byte :: rest)
      write ((byte :: rest).drop count)
termination_by data => data.length
decreasing_by
  simp only [List.length_drop, List.length_cons]
  omega

end Sink

end ConcreteSyntax
