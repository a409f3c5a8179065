import GoldenCircuit.Specimen
import GoldenCircuit.Stimulus

/-! Golden runs: a specimen driven by seeded stimulus for some cycles, and the vectors of inputs
and expected outputs that this gives. A run that stops half way leaves the specimen as it is
then. -/
namespace GoldenCircuit

/-- How many cycles to run, and from which seed. -/
structure RunPlan where
  cycles : UInt64 := 16
  seed : UInt64 := Stimulus.defaultSeed
deriving DecidableEq

instance : Inhabited RunPlan := ⟨{}⟩

/-- The inputs and outputs of one cycle, in pin order. -/
structure GoldenVector where
  cycle : Nat
  inputs : List Nat
  outputs : List Nat
deriving DecidableEq

/-- A specimen connected to a source of stimulus. -/
structure Bench where
  specimen : Specimen
  stimulus : Stimulus

namespace Bench

def onSpecimen {Answer : Type} (action : Action Specimen Answer) : Action Bench Answer :=
  action.within fun ⟨specimen, stimulus⟩ => (specimen, (⟨·, stimulus⟩))

def draw (width : Width) : Action Bench Nat :=
  fun ⟨specimen, stimulus⟩ =>
    let (value, stimulus) := stimulus.next width
    .ok value ⟨specimen, stimulus⟩

/-- Draws a value for an input and drives the input with it. -/
def driveInput (index : Nat) (width : Width) : Action Bench Unit := do
  let value ← draw width
  onSpecimen (Specimen.poke index value)

/-- Drives every input with a value of its width, in order. -/
def drive : Action Bench Unit := do
  let pins := (← get).specimen.circuit.inputPins
  pins.zipIdx.forM fun (pin, index) => driveInput index pin.width

def runCycle : Action Bench GoldenVector := do
  drive
  let (cycle, inputs) ← onSpecimen (.read (·.circuit.sample))
  onSpecimen Specimen.step
  let outputs ← onSpecimen (.read (·.circuit.outputValues))
  return { cycle, inputs, outputs }

/-- Runs so many cycles, adding their vectors to those given. -/
def runCycles : (cycles : Nat) → Array GoldenVector → Action Bench (Array GoldenVector)
  | 0, vectors => return vectors
  | cycles + 1, vectors => do
    let vector ← runCycle
    runCycles cycles (vectors.push vector)

end Bench

namespace Specimen

/-- Drives the inputs with these values, from the first input on. -/
def pokeAll (values : List Nat) : Action Specimen Unit :=
  values.zipIdx.forM fun (value, index) => poke index value

/-- A run according to a plan, with stimulus of its own. -/
def goldenRun (plan : RunPlan) : Action Specimen (List GoldenVector) :=
  fun specimen =>
    match Bench.runCycles plan.cycles.toNat #[] ⟨specimen, .ofSeed plan.seed⟩ with
    | .ok vectors bench => .ok vectors.toList bench.specimen
    | .error fault bench => .error fault bench.specimen

end Specimen
end GoldenCircuit
