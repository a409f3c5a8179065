import GoldenCircuit.Desk
import GoldenCircuit.Request

/-! From a request to a written text. -/
namespace GoldenCircuit.Catalog

/-- Builds the circuit that is asked for and writes it as asked. Nothing is written unless the
circuit can be built. -/
def generate (catalog : Catalog) (request : Request) : Action Sink Unit := do
  let specimen ← .read fun _ => catalog.instantiate request.selection request.args
  Desk.writing specimen (Desk.write request.format request.plan)
  Sink.flush

end GoldenCircuit.Catalog
