import GoldenCircuit.Chisel
import GoldenCircuit.Flo
import GoldenCircuit.Format
import GoldenCircuit.ModuleDescription
import GoldenCircuit.Sink
import GoldenCircuit.Waveform.Dump

/-! Writing a specimen to an output in one of the formats. Formats that carry golden vectors run
the specimen on the way, and leave it after the last cycle. -/
namespace GoldenCircuit

/-- A specimen and the output it is being written to. -/
structure Desk where
  specimen : Specimen
  sink : Sink

namespace Desk

def onSpecimen {Answer : Type} (action : Action Specimen Answer) : Action Desk Answer :=
  action.within fun ⟨specimen, sink⟩ => (specimen, (⟨·, sink⟩))

def onSink {Answer : Type} (action : Action Sink Answer) : Action Desk Answer :=
  action.within fun ⟨specimen, sink⟩ => (sink, (⟨specimen, ·⟩))

def put (text : String) : Action Desk Unit :=
  onSink (Sink.put text)

/-- Writes the netlist. No cycle is run. -/
def writeFlo : Action Desk Unit := do
  let circuit := (← get).specimen.circuit
  put (Flo.render (Flo.ofCircuit circuit))

/-- Writes the module, and after a golden run the tester. An output that has no room for the
module stops this before any cycle is run. -/
def writeChisel (plan : RunPlan) : Action Desk Unit := do
  let specimen := (← get).specimen
  put (Chisel.Module.ofCircuit specimen.name specimen.circuit).render
  let vectors ← onSpecimen (Specimen.goldenRun plan)
  put (Chisel.renderTester specimen.name
    (vectors.flatMap (Chisel.commandsOfVector specimen.circuit)))

def writeDump (timescale : String) (plan : RunPlan) : Action Desk Unit := do
  let recorder := Waveform.Recorder.ofSpecimen timescale (← get).specimen
  let vectors ← onSpecimen (Specimen.goldenRun plan)
  put (recorder.captureVectors vectors).render

/-- The report of a fault while a JSON value is being written. -/
def jsonFault : Fault → Fault
  | .io cause => .jsonNotWritten cause
  | fault => fault

/-- Writes the module description with the vectors of a golden run, on lines of their own, and the
end of the last line. -/
def writeDescription (plan : RunPlan) : Action Desk Unit := do
  let specimen := (← get).specimen
  let vectors ← onSpecimen (Specimen.goldenRun plan)
  let description :=
    { ModuleDescription.ofCircuit specimen.name specimen.circuit with
      vectors := vectors.map (ModuleDescription.Vector.ofGolden specimen.circuit) }
  (put (description.toJson.indented 0)).adaptExcept jsonFault
  put "\n"

def write (format : Format) (plan : RunPlan) : Action Desk Unit :=
  match format with
  | .flo => writeFlo
  | .chisel => writeChisel plan
  | .vcd => writeDump Waveform.defaultTimescale plan
  | .json => writeDescription plan

def writing {Answer : Type} (specimen : Specimen) (action : Action Desk Answer) :
    Action Sink Answer :=
  fun sink =>
    match action { specimen, sink } with
    | .ok answer desk => .ok answer desk.sink
    | .error fault desk => .error fault desk.sink

end Desk
end GoldenCircuit
