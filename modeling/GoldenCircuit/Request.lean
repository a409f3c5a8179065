import GoldenCircuit.Catalog
import GoldenCircuit.Format
import GoldenCircuit.GoldenRun

/-! Requests for a generated text. -/
namespace GoldenCircuit

/-- Which circuit to build, how to write it, and how long to run it. Whatever is not asked for has
a default. -/
structure Request where
  selection : Selection := default
  /-- The argument string of the family; without one, the family's standard circuit is built. -/
  args : Option String := none
  format : Format := default
  plan : RunPlan := default
deriving DecidableEq

instance : Inhabited Request := ⟨{}⟩

end GoldenCircuit
