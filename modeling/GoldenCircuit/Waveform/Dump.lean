import GoldenCircuit.GoldenRun
import GoldenCircuit.Text.Lines
import GoldenCircuit.Text.Numeral
import GoldenCircuit.Waveform.Identifier
import GoldenCircuit.Waveform.Recorder

/-! Value change dumps: the declarations of the signals, their unknown initial values, and the
recorded changes under time markers. -/
namespace GoldenCircuit.Waveform

/-- The line that gives a signal a value. One-bit values stand right before the identifier, all
others are vectors. -/
def valueLine (width index value : Nat) : String :=
  if width = 1 then
    (if value.testBit 0 then "1" else "0") ++ identifier index
  else
    "b" ++ Text.binary width value ++ " " ++ identifier index

/-- The line that says that a signal has no value yet. -/
def unknownLine (width index : Nat) : String :=
  if width = 1 then "x" ++ identifier index else "bx " ++ identifier index

def timeLine (time : Nat) : String :=
  "#" ++ toString time

def declarationLine (index : Nat) (declared : Variable) : String :=
  "$var wire " ++ toString declared.width ++ " " ++ identifier index ++ " " ++ declared.name ++
    " $end"

/-- The line of a change, after a line that marks its time. The mark is left out if the change
before has the same time. -/
def changeLines (width : Nat) (before : Option Nat) (change : Change) : List String :=
  let line := valueLine width change.index change.value
  if before = some change.time then [line] else [timeLine change.time, line]

namespace Recorder

/-- The lines of all changes, the oldest first. -/
def bodyLines (recorder : Recorder) : List String :=
  let widths := (recorder.signals.map (·.width)).toArray
  let changes := recorder.changes.toList
  (List.zipWith (fun before change => changeLines (widths[change.index]?.getD 1) before change)
    (none :: changes.map (some ·.time)) changes).flatten

/-- The lines of the dump. The last one marks the time after the last capture. -/
def lines (recorder : Recorder) : List String :=
  ["$timescale " ++ recorder.timescale ++ " $end", "$scope module " ++ recorder.scope ++ " $end"] ++
  recorder.signals.mapIdx declarationLine ++
  ["$upscope $end", "$enddefinitions $end", "$dumpvars"] ++
  recorder.signals.mapIdx (fun index declared => unknownLine declared.width index) ++
  ["$end"] ++
  recorder.bodyLines ++
  [timeLine recorder.time]

def render (recorder : Recorder) : String :=
  Text.unlines recorder.lines

def ofSpecimen (timescale : String) (specimen : Specimen) : Recorder :=
  let pins := specimen.circuit.inputPins ++ specimen.circuit.outputPins
  declare { scope := specimen.name, timescale } (pins.map (·.name)) (pins.map (·.width.bits))

/-- Records the vectors of a golden run, one time unit for each. -/
def captureVectors (recorder : Recorder) (vectors : List GoldenVector) : Recorder :=
  vectors.foldl (fun recorder vector => recorder.capture (vector.inputs ++ vector.outputs)) recorder

end Recorder

def defaultTimescale : String :=
  "1ns"

end GoldenCircuit.Waveform
