import GoldenCircuit.Chisel
import GoldenCircuit.Proofs.Naming
import GoldenCircuit.Proofs.Word

/-! What modules and their testers do. Operators are bitwise on unsigned numbers of any width, and
a pin holds the bits that it is declared with. -/
namespace GoldenCircuit.Chisel

def Reference.name : Reference → String
  | .pin name | .value name => name

def Definition.equation (definition : Definition) : Equation Reference where
  name := .value definition.name
  value? known :=
    match definition.operands with
    | [] => none
    | first :: others => do
      let start ← known.lookup first
      others.foldlM
        (fun total operand => do return definition.opcode.apply total (← known.lookup operand)) start

namespace Module

/-- What the input pins hold of some values. -/
def pins? (module : Module) (held : Naming String) : Option (Naming Reference) :=
  module.inputs.mapM fun pin => do
    return (.pin pin.name, truncate (← held.lookup pin.name) pin.width)

/-- What the output pins show while the input pins are held at some values. -/
def outputs? (module : Module) (held : Naming String) : Option (Naming String) := do
  let known ← Naming.solve (module.definitions.map Definition.equation) (← module.pins? held)
  module.connections.mapM fun (name, shown) => do
    let pin ← module.outputs.find? (·.name = name)
    return (name, truncate (← known.lookup shown) pin.width)

/-- Pins that are held at values of their width hold these values. -/
theorem pins?_of_fits {module : Module} {held : Naming String} {value : String → Nat}
    (holds : ∀ pin ∈ module.inputs, held.lookup pin.name = some (value pin.name))
    (fits : ∀ pin ∈ module.inputs, value pin.name < 2 ^ pin.width.bits) :
    ∃ known, module.pins? held = some known ∧
      ∀ pin ∈ module.inputs, known.lookup (.pin pin.name) = some (value pin.name) := by
  refine ⟨module.inputs.map fun pin => (.pin pin.name, value pin.name), ?_, fun pin member => ?_⟩
  · apply mapM_eq_some_map
    intro pin member
    simp [holds pin member, truncate_of_lt (fits pin member)]
  · apply @Naming.lookup_of_forall _ _ fun reference : Reference => value reference.name
    · intro pair member
      obtain ⟨other, _, rfl⟩ := List.mem_map.mp member
      rfl
    · rw [List.map_map]
      exact List.mem_map.mpr ⟨pin, member, rfl⟩

/-- Every operand is an input or was defined before. -/
def Scoped : (known : List Reference) → List Definition → Prop
  | _, [] => True
  | known, definition :: definitions =>
    (∀ operand ∈ definition.operands, operand ∈ known) ∧
      Scoped (.value definition.name :: known) definitions

/-- Names are used after they are defined, and each is defined once. The bundle of pins has a name
of its own. -/
structure WellScoped (module : Module) : Prop where
  definitions : Scoped (module.inputs.map fun pin => .pin pin.name) module.definitions
  connections : ∀ connection ∈ module.connections, connection.2 ∈
    (module.inputs.map fun pin => .pin pin.name) ++
      module.definitions.map fun definition => .value definition.name
  driven : module.connections.map (·.1) = module.outputs.map (·.name)
  once : ("io" :: (module.inputs.map (·.name) ++ module.outputs.map (·.name) ++
    module.definitions.map (·.name))).Nodup

end Module

theorem commandsOfVector_eq (circuit : Circuit) (vector : GoldenVector) :
    commandsOfVector circuit vector =
      ((circuit.inputPins.map (·.name)).zip vector.inputs).map (fun (pin, value) =>
        .poke pin value) ++
      (vector.outputs.mapIdx fun index value => (Circuit.outputName index, value)).map
        (fun (pin, value) => .expect pin value) ++ [.step] := by
  simp [commandsOfVector, List.zip, List.map_zipWith, List.zipWith_map_left,
    List.mapIdx_eq_zipIdx_map]

namespace Tester

variable {module : Module}

end Tester

/-! ### Cycle by cycle -/

/-- What a tester does up to a step: the values it pokes, and then those it expects. -/
structure Cycle where
  pokes : List (String × Nat) := []
  expectations : List (String × Nat) := []
deriving DecidableEq

/-- The cycles of some commands. Nothing is poked after an expectation of the same cycle, and the
last cycle ends with a step. -/
def cycles? : List Command → Option (List Cycle)
  | [] => some []
  | .step :: commands => do
    let cycles ← cycles? commands
    return {} :: cycles
  | .expect pin value :: commands =>
    match cycles? commands with
    | some ({ pokes := [], expectations } :: cycles) =>
      some ({ expectations := (pin, value) :: expectations } :: cycles)
    | _ => none
  | .poke pin value :: commands =>
    match cycles? commands with
    | some ({ pokes, expectations } :: cycles) =>
      some ({ pokes := (pin, value) :: pokes, expectations } :: cycles)
    | _ => none

theorem cycles?_step {commands : List Command} {cycles : List Cycle}
    (later : cycles? commands = some cycles) :
    cycles? (.step :: commands) = some ({} :: cycles) := by
  simp [cycles?, later]

theorem cycles?_expects {commands : List Command} {cycles : List Cycle}
    (later : cycles? commands = some ({} :: cycles)) (expected : List (String × Nat)) :
    cycles? (expected.map (fun (pin, value) => .expect pin value) ++ commands) =
      some ({ expectations := expected } :: cycles) := by
  induction expected with
  | nil => exact later
  | cons pair expected ih => simp [cycles?, ih]

theorem cycles?_pokes {commands : List Command} {expectations : List (String × Nat)}
    {cycles : List Cycle} (later : cycles? commands = some ({ expectations } :: cycles))
    (pokes : List (String × Nat)) :
    cycles? (pokes.map (fun (pin, value) => .poke pin value) ++ commands) =
      some ({ pokes, expectations } :: cycles) := by
  induction pokes with
  | nil => exact later
  | cons pair pokes ih => simp [cycles?, ih]

/-- The commands of golden vectors have one cycle for each vector, which pokes its inputs and
expects its outputs. -/
theorem cycles?_commandsOfVector (circuit : Circuit) (vectors : List GoldenVector) :
    cycles? (vectors.flatMap (commandsOfVector circuit)) = some (vectors.map fun vector =>
      { pokes := (circuit.inputPins.map (·.name)).zip vector.inputs
        expectations := vector.outputs.mapIdx fun index value =>
          (Circuit.outputName index, value) }) := by
  induction vectors with
  | nil => rfl
  | cons vector vectors ih =>
    rw [List.flatMap_cons, commandsOfVector_eq, List.append_assoc, List.append_assoc]
    exact cycles?_pokes (cycles?_expects (cycles?_step ih) _) _

end GoldenCircuit.Chisel
