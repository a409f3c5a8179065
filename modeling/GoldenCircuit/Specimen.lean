import GoldenCircuit.Circuit

/-! A specimen: a circuit under test together with its reference, the simulation that says what
the circuit should do. -/
namespace GoldenCircuit

/-- A circuit whose first output should be the AND of all its inputs, at a width. -/
structure Specimen where
  /-- What texts call the circuit. -/
  name : String
  /-- The width of the reference's result. -/
  width : Width
  circuit : Circuit

namespace Specimen

def onCircuit {Answer : Type} (action : Action Circuit Answer) : Action Specimen Answer :=
  action.within fun ⟨name, width, circuit⟩ => (circuit, (⟨name, width, ·⟩))

def poke (index value : Nat) : Action Specimen Unit :=
  onCircuit (Circuit.poke index value)

/-- What the reference expects of the first output. How the gates are arranged does not matter to
it: it is the AND of all inputs, starting from all ones. -/
def expected (specimen : Specimen) : Except Fault Nat := do
  return (← specimen.circuit.inputValues).foldl (· &&& ·) specimen.width.mask

/-- Completes a cycle: records the expected value at the first output and goes on to the next
cycle. -/
def step : Action Specimen Unit := do
  let value ← Action.read expected
  onCircuit (Circuit.recordOutput 0 value)
  onCircuit (modify Circuit.advance)

end Specimen
end GoldenCircuit
