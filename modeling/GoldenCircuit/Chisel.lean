import GoldenCircuit.GoldenRun
import GoldenCircuit.Text.Lines
import GoldenCircuit.Text.Numeral
import Std.Data.TreeSet

/-! Chisel sources: a module that has the gates of a circuit, and a tester that pokes the inputs
of a golden run and expects its outputs, so that the file checks itself. -/
namespace GoldenCircuit.Chisel

open Text (openBrace closeBrace)

/-- How an expression refers to a signal. -/
inductive Reference where
  /-- An input pin, reached through the bundle of pins. -/
  | pin (name : String)
  /-- A value that the module defines. -/
  | value (name : String)
deriving DecidableEq

def Reference.render : Reference → String
  | .pin name => "io." ++ name
  | .value name => name

/-- The definition of a value: the operands, joined by one operator. -/
structure Definition where
  name : String
  opcode : Opcode
  operands : List Reference
deriving DecidableEq

/-- A module: its pins, the values it defines, in order, and what each output pin shows. -/
structure Module where
  name : String
  inputs : List Pin
  outputs : List Pin
  definitions : List Definition
  connections : List (String × Reference)
deriving DecidableEq

/-- What a tester does. -/
inductive Command where
  | poke (pin : String) (value : Nat)
  | expect (pin : String) (value : Nat)
  /-- Goes on to the next cycle. -/
  | step
deriving DecidableEq

/-! ### From circuits -/

/-- How a signal is referred to: through the bundle of pins if it is one of these inputs, by its
name otherwise. -/
def refer (netlist : Netlist) (inputs : Std.TreeSet Nat) (id : Nat) : Reference :=
  let name := (netlist.signal id).name
  if inputs.contains id then .pin name else .value name

def define (netlist : Netlist) (inputs : Std.TreeSet Nat) (gate : Gate) : Definition :=
  ⟨gate.name, gate.opcode, gate.sources.map (refer netlist inputs)⟩

/-- The module of a circuit, under a name. -/
def Module.ofCircuit (name : String) (circuit : Circuit) : Module :=
  let inputs := Std.TreeSet.ofList circuit.inputs.toList
  { name
    inputs := circuit.inputPins
    outputs := circuit.outputPins
    definitions := circuit.gates.toList.map (define circuit.netlist inputs)
    connections :=
      circuit.outputs.toList.mapIdx fun index id =>
        (Circuit.outputName index, refer circuit.netlist inputs id) }

def commandsOfVector (circuit : Circuit) (vector : GoldenVector) : List Command :=
  List.zipWith (fun pin value => .poke pin.name value) circuit.inputPins vector.inputs ++
    vector.outputs.mapIdx (fun index value => .expect (Circuit.outputName index) value) ++
    [.step]

/-! ### Source text -/

/-- The lines of a module, a blank one after the import. -/
def Module.lines (module : Module) : List String :=
  ["import Chisel._", "", "class " ++ module.name ++ " extends Module " ++ openBrace,
    "  val io = new Bundle " ++ openBrace] ++
  module.inputs.map (fun pin =>
    "    val " ++ pin.name ++ " = UInt(INPUT, " ++ toString pin.width.bits ++ ")") ++
  module.outputs.map (fun pin =>
    "    val " ++ pin.name ++ " = UInt(OUTPUT, " ++ toString pin.width.bits ++ ")") ++
  ["  " ++ closeBrace] ++
  module.definitions.map (fun definition =>
    "  val " ++ definition.name ++ " = " ++
      (" " ++ definition.opcode.symbol ++ " ").intercalate
        (definition.operands.map Reference.render)) ++
  module.connections.map (fun (pin, reference) =>
    "  io." ++ pin ++ " := " ++ reference.render) ++
  [closeBrace]

/-- A number as an expression, in hexadecimal because it may be longer than any literal. -/
def literal (value : Nat) : String :=
  "BigInt(\"" ++ Text.hex value ++ "\", 16)"

def Command.line : Command → String
  | .poke pin value => "  poke(c.io." ++ pin ++ ", " ++ literal value ++ ")"
  | .expect pin value => "  expect(c.io." ++ pin ++ ", " ++ literal value ++ ")"
  | .step => "  step(1)"

/-- The lines of a tester for the module of a name, and of the object that runs it. -/
def testerLines (name : String) (commands : List Command) : List String :=
  ["", "class " ++ name ++ "Tests(c: " ++ name ++ ") extends Tester(c) " ++ openBrace] ++
  commands.map Command.line ++
  [closeBrace, "", "object " ++ name ++ " " ++ openBrace,
    "  def main(args: Array[String]): Unit = " ++ openBrace,
    "    chiselMainTest(args, () => Module(new " ++ name ++ "())) " ++ openBrace ++
      " c => new " ++ name ++ "Tests(c) " ++ closeBrace,
    "  " ++ closeBrace, closeBrace]

def Module.render (module : Module) : String :=
  Text.unlines module.lines

def renderTester (name : String) (commands : List Command) : String :=
  Text.unlines (testerLines name commands)

end GoldenCircuit.Chisel
