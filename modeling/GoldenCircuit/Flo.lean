import GoldenCircuit.Circuit
import GoldenCircuit.Text.Lines

/-! Flo netlists. Every statement has one shape, `name = word'width operand …`: the inputs are
declared first, then come the gates in the order of their construction, then the outputs. -/
namespace GoldenCircuit.Flo

/-- One statement of a netlist. -/
structure Statement where
  /-- The signal or pin that the statement defines. -/
  target : String
  /-- What kind of definition it is: a gate's mnemonic, or `in` or `out`. -/
  word : String
  width : Width
  operands : List String
deriving DecidableEq

/-- A statement as a line, without its end. -/
def Statement.render (statement : Statement) : String :=
  statement.target ++ " = " ++ statement.word ++ "'" ++ toString statement.width.bits ++
    String.join (statement.operands.map (" " ++ ·))

def declareInput (pin : Pin) : Statement :=
  ⟨pin.name, "in", pin.width, []⟩

def defineGate (netlist : Netlist) (gate : Gate) : Statement :=
  ⟨gate.name, gate.opcode.mnemonic, gate.width, gate.sources.map (netlist.signal · |>.name)⟩

def connectOutput (pin : Pin) (signal : String) : Statement :=
  ⟨pin.name, "out", pin.width, [signal]⟩

def ofCircuit (circuit : Circuit) : List Statement :=
  circuit.inputPins.map declareInput ++
    circuit.gates.toList.map (defineGate circuit.netlist) ++
    List.zipWith connectOutput circuit.outputPins circuit.shownNames

/-- The text of some statements, one a line. -/
def render (statements : List Statement) : String :=
  Text.unlines (statements.map Statement.render)

end GoldenCircuit.Flo
