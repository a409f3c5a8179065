import GoldenCircuit.Netlist

/-! A circuit: a netlist in which some signals are driven from outside, some are observed, and
gates stand between them, together with the cycle that is being simulated. -/
namespace GoldenCircuit

/-- All signals of the gate are among the first so many. -/
def Gate.Within (count : Nat) (gate : Gate) : Prop :=
  gate.dest < count ∧ ∀ id ∈ gate.sources, id < count

instance (count : Nat) (gate : Gate) : Decidable (gate.Within count) :=
  inferInstanceAs (Decidable (_ ∧ _))

theorem Gate.Within.mono {gate : Gate} {few many : Nat} (within : gate.Within few)
    (le : few ≤ many) : gate.Within many :=
  ⟨Nat.lt_of_lt_of_le within.1 le, fun id member => Nat.lt_of_lt_of_le (within.2 id member) le⟩

/-- A gate laid over signals of a netlist is within the netlist that it makes. -/
theorem Netlist.within_connect (netlist : Netlist) (opcode : Opcode) (width : Width) {lhs rhs : Nat}
    (lhs_lt : lhs < netlist.size) (rhs_lt : rhs < netlist.size) :
    (netlist.connect opcode width lhs rhs).2.Within
      (netlist.connect opcode width lhs rhs).1.size := by
  constructor
  · simp [dest_connect]
  · intro id member
    rw [Netlist.sources_connect, List.mem_cons, List.mem_singleton] at member
    rw [Netlist.size_connect]
    rcases member with rfl | rfl <;> omega

/-- An input or output as texts declare it. -/
structure Pin where
  name : String
  width : Width
deriving DecidableEq

/-- A netlist with its inputs, gates and outputs, all of them signals of the netlist. A signal may
be listed several times, and be an input and an output at once. -/
structure Circuit where
  netlist : Netlist
  /-- The signals driven from outside in each cycle. -/
  inputs : Array Nat
  /-- The gates, in the order of their construction. -/
  gates : Array Gate
  /-- The signals that the reference simulation records. -/
  outputs : Array Nat
  /-- The cycle that the next step completes. -/
  cycle : Nat := 0
  inputs_lt : ∀ id ∈ inputs, id < netlist.size
  gates_within : ∀ gate ∈ gates, gate.Within netlist.size
  outputs_lt : ∀ id ∈ outputs, id < netlist.size

namespace Circuit

/-- The circuit of these parts, before its first cycle, if the netlist has all signals that they
name. -/
def ofParts? (netlist : Netlist) (inputs : Array Nat) (gates : Array Gate)
    (outputs : Array Nat) : Option Circuit :=
  if fits : (∀ id ∈ inputs, id < netlist.size) ∧ (∀ gate ∈ gates, gate.Within netlist.size) ∧
      ∀ id ∈ outputs, id < netlist.size then
    some { netlist, inputs, gates, outputs, inputs_lt := fits.1, gates_within := fits.2.1,
           outputs_lt := fits.2.2 }
  else
    none

/-- Records a value of a signal for the current cycle. If that is refused, nothing changes. -/
def record (circuit : Circuit) (id value : Nat) : Circuit :=
  let { netlist, inputs, gates, outputs, cycle, inputs_lt, gates_within, outputs_lt } := circuit
  have size_eq := netlist.size_record id value cycle
  { netlist := netlist.record id value cycle
    inputs
    gates
    outputs
    cycle
    inputs_lt := size_eq.symm ▸ inputs_lt
    gates_within := size_eq.symm ▸ gates_within
    outputs_lt := size_eq.symm ▸ outputs_lt }

/-- Records a value of a signal for the current cycle, or reports why that is refused. -/
def update (id value : Nat) : Action Circuit Unit :=
  .attempt (fun circuit => circuit.netlist.refusal? id circuit.cycle) (·.record id value)

def inputId (circuit : Circuit) (index : Nat) : Except Fault Nat :=
  match circuit.inputs[index]? with
  | some id => .ok id
  | none => .error (.inputOutOfRange index circuit.inputs.size)

def outputId (circuit : Circuit) (index : Nat) : Except Fault Nat :=
  match circuit.outputs[index]? with
  | some id => .ok id
  | none => .error (.outputOutOfRange index circuit.outputs.size)

def poke (index value : Nat) : Action Circuit Unit := do
  update (← Action.read (·.inputId index)) value

/-- Records the value of an output for the current cycle. -/
def recordOutput (index value : Nat) : Action Circuit Unit := do
  update (← Action.read (·.outputId index)) value

/-- The value of an input recorded last. -/
def inputValue (circuit : Circuit) (index : Nat) : Except Fault Nat := do
  circuit.netlist.value (← circuit.inputId index)

/-- The value of an output recorded last. -/
def outputValue (circuit : Circuit) (index : Nat) : Except Fault Nat := do
  circuit.netlist.value (← circuit.outputId index)

/-- The values of all inputs, in order. -/
def inputValues (circuit : Circuit) : Except Fault (List Nat) :=
  circuit.inputs.toList.mapM circuit.netlist.value

/-- The values of all outputs, in order. -/
def outputValues (circuit : Circuit) : Except Fault (List Nat) :=
  circuit.outputs.toList.mapM circuit.netlist.value

def sample (circuit : Circuit) : Except Fault (Nat × List Nat) := do
  return (circuit.cycle, ← circuit.inputValues)

def advance (circuit : Circuit) : Circuit :=
  { circuit with cycle := circuit.cycle + 1 }

def outputName (index : Nat) : String :=
  "out" ++ toString index

/-- The pins of the inputs, in order. They are named like their signals. -/
def inputPins (circuit : Circuit) : List Pin :=
  circuit.inputs.toList.map fun id =>
    ⟨(circuit.netlist.signal id).name, (circuit.netlist.signal id).pinWidth⟩

/-- The pins of the outputs, in order. They are numbered, whatever their signals are named. -/
def outputPins (circuit : Circuit) : List Pin :=
  circuit.outputs.toList.mapIdx fun index id =>
    ⟨outputName index, (circuit.netlist.signal id).pinWidth⟩

def shownNames (circuit : Circuit) : List String :=
  circuit.outputs.toList.map fun id => (circuit.netlist.signal id).name

end Circuit
end GoldenCircuit
