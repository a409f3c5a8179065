import GoldenCircuit.GoldenRun
import GoldenCircuit.Json.Printer
import Std.Data.TreeMap

/-! The description of a circuit as a module for simulators: pins, nets, what is assigned to each
net, and the vectors of a golden run, all as one JSON value. -/
namespace GoldenCircuit.ModuleDescription

/-- A net inside the module. -/
structure Net where
  name : String
  width : Width
deriving DecidableEq

/-- What can be assigned to a net. -/
inductive Expression where
  | signal (name : String) (width : Width)
  | binary (opcode : Opcode) (left right : Expression) (width : Width)
deriving DecidableEq

/-- A net or pin and what it always equals. -/
structure Assignment where
  target : String
  expression : Expression
deriving DecidableEq

/-- The values of one cycle, in the order of the pin names. A name occurs once. -/
structure Vector where
  cycle : Nat
  inputs : List (String × Nat)
  outputs : List (String × Nat)
deriving DecidableEq

end ModuleDescription

/-- A module. Circuits have neither registers nor processes nor memories, so that the lists of
these are always empty and left out here. -/
structure ModuleDescription where
  name : String
  inputs : List Pin
  outputs : List Pin
  nets : List ModuleDescription.Net
  assignments : List ModuleDescription.Assignment
  vectors : List ModuleDescription.Vector
deriving DecidableEq

namespace ModuleDescription

/-! ### From circuits -/

def Expression.ofSignal (netlist : Netlist) (id : Nat) : Expression :=
  .signal (netlist.signal id).name (netlist.signal id).pinWidth

/-- What a gate assigns to its destination: its sources, joined from the left. A gate without
sources assigns nothing. -/
def Assignment.ofGate? (netlist : Netlist) (gate : Gate) : Option Assignment :=
  match gate.sources.map (Expression.ofSignal netlist) with
  | [] => none
  | first :: rest =>
    let join left right := Expression.binary gate.opcode left right gate.width
    some ⟨gate.name, rest.foldl join first⟩

/-- A module without vectors, from a circuit and a name. -/
def ofCircuit (name : String) (circuit : Circuit) : ModuleDescription where
  name := name
  inputs := circuit.inputPins
  outputs := circuit.outputPins
  nets := circuit.gates.toList.map fun gate => ⟨gate.name, gate.width⟩
  assignments :=
    circuit.gates.toList.filterMap (Assignment.ofGate? circuit.netlist) ++
      circuit.outputs.toList.mapIdx fun index id =>
        ⟨Circuit.outputName index, .ofSignal circuit.netlist id⟩
  vectors := []

/-- Named values in the order of their names; of several values of one name the last one counts. -/
def byName (values : List (String × Nat)) : List (String × Nat) :=
  (Std.TreeMap.ofList values).toList

def Vector.ofGolden (circuit : Circuit) (vector : GoldenVector) : Vector where
  cycle := vector.cycle
  inputs := byName ((circuit.inputPins.map (·.name)).zip vector.inputs)
  outputs := byName (vector.outputs.mapIdx fun index value => (Circuit.outputName index, value))

/-! ### As JSON -/

open Json (Value)

def widthValue (width : Width) : Value :=
  .natural width.bits

/-- A pin as JSON, with the word for the way that values pass through it. -/
def pinToJson (direction : String) (pin : Pin) : Value :=
  .ofMembers [("name", .text pin.name), ("direction", .text direction),
    ("width", widthValue pin.width)]

def Net.toJson (net : Net) : Value :=
  .ofMembers [("name", .text net.name), ("width", widthValue net.width)]

/-- An expression as JSON: its kind comes first, as the member `type`. -/
def Expression.toJson : Expression → Value
  | .signal name width =>
    .ofMembers [("type", .text "signal"), ("name", .text name), ("width", widthValue width)]
  | .binary opcode left right width =>
    .ofMembers [("type", .text "binary_op"), ("op", .text opcode.symbol), ("left", left.toJson),
      ("right", right.toJson), ("width", widthValue width)]

def Assignment.toJson (assignment : Assignment) : Value :=
  .ofMembers [("target", .text assignment.target), ("expr", assignment.expression.toJson)]

/-- Named values as JSON. They may be longer than any JSON number that readers accept, so they are
hexadecimal strings. -/
def valuesToJson (values : List (String × Nat)) : Value :=
  .ofMembers (values.map fun (name, value) => (name, .text ("0x" ++ Text.hex value)))

def Vector.toJson (vector : Vector) : Value :=
  .ofMembers [("cycle", .natural vector.cycle), ("inputs", valuesToJson vector.inputs),
    ("outputs", valuesToJson vector.outputs)]

def toJson (description : ModuleDescription) : Value :=
  .ofMembers [("name", .text description.name),
    ("ports", .array (description.inputs.map (pinToJson "in") ++
      description.outputs.map (pinToJson "out"))),
    ("nets", .array (description.nets.map Net.toJson)),
    ("regs", .array []),
    ("assigns", .array (description.assignments.map Assignment.toJson)),
    ("processes", .array []),
    ("memories", .array []),
    ("vectors", .array (description.vectors.map Vector.toJson))]

end ModuleDescription
end GoldenCircuit
