/-! The recorder of a value change dump. It is told the values of all its signals, one time unit
after the other, and keeps those that differ from what it was told before. -/
namespace GoldenCircuit.Waveform

/-- A recorded signal. -/
structure Variable where
  name : String
  /-- The declared number of bits, which may be none. -/
  width : Nat
  /-- The value captured last since the signal was declared. -/
  held : Option Nat := none
deriving DecidableEq

/-- A signal takes another value. -/
structure Change where
  time : Nat
  /-- The place of the signal among those declared. -/
  index : Nat
  value : Nat
deriving DecidableEq

/-- What was recorded so far. -/
structure Recorder where
  scope : String
  timescale : String
  /-- The number of captures so far. -/
  time : Nat := 0
  signals : List Variable := []
  /-- All changes, the oldest first. -/
  changes : Array Change := #[]

namespace Recorder

/-- Declares the signals anew. A signal without a width of its own has one bit. What was recorded
before stays recorded, and time goes on, but no value is held any more. -/
def declare (recorder : Recorder) (names : List String) (widths : List Nat) : Recorder :=
  let widths := widths.toArray
  { recorder with
    signals := names.mapIdx fun index name => { name, width := widths[index]?.getD 1 } }

/-- Compares values with those held, signal by signal from the one at `index` on, and answers with
what is held then and what has changed. Values beyond the last signal are dropped, and a signal
without a value keeps what it holds. -/
def compareHeld (time : Nat) :
    (index : Nat) → List Variable → (values : List Nat) → List Variable × List Change
  | _, [], _ => ([], [])
  | _, signals, [] => (signals, [])
  | index, first :: others, value :: values =>
    let (rest, changes) := compareHeld time (index + 1) others values
    if first.held = some value then
      (first :: rest, changes)
    else
      ({ first with held := some value } :: rest, { time, index, value } :: changes)

/-- Records the values of the signals at the present time, and goes on to the next. -/
def capture (recorder : Recorder) (values : List Nat) : Recorder :=
  let (signals, changes) := compareHeld recorder.time 0 recorder.signals values
  { recorder with
    signals
    changes := recorder.changes ++ changes
    time := recorder.time + 1 }

end Recorder
end GoldenCircuit.Waveform
