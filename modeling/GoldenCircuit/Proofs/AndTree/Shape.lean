import Mathlib.Data.List.Nodup
import GoldenCircuit.Proofs.AndTree.Arguments
import GoldenCircuit.Proofs.AndTree.Construction

/-! What stands where in a tree that is built for given dimensions. -/
namespace GoldenCircuit.AndTree

/-- A chain of AND gates of a width, with so many stages after the first gate. Inputs and results
take turns in the netlist, each is found under its own name, and nothing is recorded yet. -/
structure Shape (width : Width) (depth : Nat) (circuit : Circuit) : Prop where
  size : circuit.netlist.size = 2 * (depth + 1)
  inputs_size : circuit.inputs.size = depth + 1
  gates_size : circuit.gates.size = depth + 1
  outputs_size : circuit.outputs.size = 1
  input : ∀ index ≤ depth, circuit.inputs[index]? = some (2 * index) ∧
    (circuit.netlist.signal (2 * index)).name = inputName index
  /-- The first gate joins the first input with itself, and every other one the result of the gate
  before it with the next input. -/
  gate : ∀ stage ≤ depth, circuit.gates[stage]? = some
      { name := Netlist.automaticName stage, dest := 2 * stage + 1, width, opcode := .and,
        sources := if stage = 0 then [0, 0] else [2 * (stage - 1) + 1, 2 * stage] } ∧
    (circuit.netlist.signal (2 * stage + 1)).name = Netlist.automaticName stage
  output : circuit.outputs[0]? = circuit.gates[depth]?.map (·.dest)
  width : ∀ id < circuit.netlist.size, (circuit.netlist.signal id).width = some width
  history : ∀ id < circuit.netlist.size, (circuit.netlist.signal id).history = .empty
  distinct : circuit.netlist.names.Nodup
  output_apart : Circuit.outputName 0 ∉ circuit.netlist.names
  found : ∀ id < circuit.netlist.size,
    circuit.netlist.find? (circuit.netlist.signal id).name = some id

/-- The place of a signal can be told from its name. -/
theorem name_layout_injective {width : Width} {one other : Nat}
    (same : (layout width one).name = (layout width other).name) : one = other := by
  unfold layout at same
  split at same
  next even =>
    split at same
    next even' =>
      have := inputName_injective same
      omega
    next => exact absurd same (inputName_ne_automaticName _ _)
  next odd =>
    split at same
    next => exact absurd same.symm (inputName_ne_automaticName _ _)
    next odd' =>
      have := Netlist.automaticName_injective same
      omega

theorem name_layout_ne_outputName (width : Width) (id : Nat) :
    (layout width id).name ≠ Circuit.outputName 0 := by
  unfold layout
  split
  next => exact inputName_ne_outputName _
  next => exact automaticName_ne_outputName _

theorem names_circuit (tree : AndTree) : tree.circuit.netlist.names =
    (List.range (2 * (tree.depth + 1))).map fun id => (layout tree.width id).name := by
  apply List.ext_getElem?
  intro id
  rw [List.getElem?_map]
  by_cases within : id < 2 * (tree.depth + 1)
  · rw [Netlist.getElem?_names _ (tree.size_netlist ▸ within), tree.signal_circuit within,
      List.getElem?_range within, Option.map_some]
  · have length : tree.circuit.netlist.names.length ≤ id := by
      rw [Netlist.length_names, size_netlist]
      omega
    have range : (List.range (2 * (tree.depth + 1))).length ≤ id := by
      rw [List.length_range]
      omega
    rw [List.getElem?_eq_none length, List.getElem?_eq_none range, Option.map_none]

theorem getElem?_gates (tree : AndTree) {stage : Nat} (within : stage ≤ tree.depth) :
    tree.circuit.gates[stage]? = some (stageGate tree.width stage) := by
  rw [← Array.getElem?_toList, gates_circuit, List.getElem?_map,
    List.getElem?_range (Nat.lt_succ_of_le within), Option.map_some]

theorem shape_circuit (tree : AndTree) : Shape tree.width tree.depth tree.circuit := by
  have size := tree.size_netlist
  have distinct : tree.circuit.netlist.names.Nodup := by
    rw [names_circuit]
    exact List.Nodup.map (fun _ _ => name_layout_injective) List.nodup_range
  constructor
  case size => exact size
  case inputs_size => rw [← Array.length_toList, inputs_circuit, List.length_map, List.length_range]
  case gates_size => rw [← Array.length_toList, gates_circuit, List.length_map, List.length_range]
  case outputs_size => rw [outputs_circuit, List.size_toArray, List.length_singleton]
  case input =>
    intro index within
    constructor
    · rw [getElem?_inputs, if_pos within]
    · rw [tree.signal_circuit (by omega), layout_input]
  case gate =>
    intro stage within
    constructor
    · have sources : [2 * stage - 1, 2 * stage] =
          if stage = 0 then [0, 0] else [2 * (stage - 1) + 1, 2 * stage] := by
        cases stage with
        | zero => rfl
        | succ stage => rfl
      rw [tree.getElem?_gates within, stageGate, sources]
    · rw [tree.signal_circuit (by omega), layout_result]
  case output =>
    rw [outputs_circuit, tree.getElem?_gates (Nat.le_refl _)]
    rfl
  case width => exact fun id within => tree.width_circuit (size ▸ within)
  case history => exact fun id _ => tree.history_circuit id
  case distinct => exact distinct
  case output_apart =>
    rw [names_circuit, List.mem_map]
    rintro ⟨id, _, same⟩
    exact name_layout_ne_outputName _ _ same
  case found => exact fun id within => Netlist.find?_of_nodup distinct within

/-- Whatever dimensions are accepted, the tree has them and is a chain of that shape. -/
theorem shape_of_ofDimensions {width depth : Nat} {tree : AndTree}
    (accepted : ofDimensions width depth = .ok tree) :
    tree.width.bits = width ∧ tree.depth = depth ∧
      Shape tree.width tree.depth tree.specimen.circuit := by
  rcases bounds_or_violates width depth with ⟨pos, wide, deep⟩ | ⟨reason, violates⟩
  · rw [ofDimensions_of_bounds pos wide deep] at accepted
    cases accepted
    exact ⟨rfl, rfl, shape_circuit _⟩
  · rw [ofDimensions_of_violates violates] at accepted
    contradiction

theorem shape_of_widest : ∃ tree, ofDimensions 65536 3 = .ok tree ∧ tree.width.bits = 65536 ∧
    tree.depth = 3 ∧ Shape tree.width tree.depth tree.specimen.circuit :=
  ⟨_, rfl, shape_of_ofDimensions rfl⟩

end GoldenCircuit.AndTree
