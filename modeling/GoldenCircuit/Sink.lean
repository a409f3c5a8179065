import GoldenCircuit.Action

/-! Outputs that bytes are written to. An output may take only so many bytes; it keeps those and
refuses the rest. -/
namespace GoldenCircuit

/-- An output and what it has taken so far. -/
structure Sink where
  written : ByteArray := .empty
  /-- How many bytes the output takes in all, if that is bounded. -/
  capacity : Option Nat := none
  /-- Whether the output manages to hand on what it has taken. -/
  flushes : Bool := true

namespace Sink

def unbounded : Sink := {}

instance : Inhabited Sink := ⟨unbounded⟩

/-- Writes a text in UTF-8. An output without room for all of it takes what fits, which may end
inside a character, and fails. -/
def put (text : String) : Action Sink Unit :=
  fun sink =>
    let bytes := text.toUTF8
    match sink.capacity with
    | none => .ok () { sink with written := sink.written ++ bytes }
    | some capacity =>
      let room := capacity - sink.written.size
      if bytes.size ≤ room then
        .ok () { sink with written := sink.written ++ bytes }
      else
        .error (.io .full) { sink with written := sink.written ++ bytes.extract 0 room }

def flush : Action Sink Unit :=
  fun sink =>
    if sink.flushes then .ok () sink else .error (.io .notFlushed) sink

end Sink
end GoldenCircuit
