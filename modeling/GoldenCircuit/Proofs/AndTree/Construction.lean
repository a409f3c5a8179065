import GoldenCircuit.AndTree
import GoldenCircuit.Proofs.Circuit
import GoldenCircuit.Proofs.Netlist.Names

/-! The shape of a finished tree. Inputs and gate results take turns in the netlist, so that the
input of a stage stands at an even place and the result of the stage right after it. All signals
have the width of the tree, and nothing is recorded for any of them. -/
namespace GoldenCircuit

namespace AndTree

theorem inputName_injective {one other : Nat} (same : inputName one = inputName other) :
    one = other := by
  apply Text.toString_injective
  simpa [inputName] using same

theorem inputName_ne_automaticName (index number : Nat) :
    inputName index ≠ Netlist.automaticName number := by
  intro same
  have chars := congrArg String.toList same
  simp [inputName, Netlist.automaticName] at chars

theorem inputName_ne_outputName (index : Nat) : inputName index ≠ Circuit.outputName 0 := by
  intro same
  have chars := congrArg String.toList same
  simp [inputName, Circuit.outputName] at chars

theorem automaticName_ne_outputName (number : Nat) :
    Netlist.automaticName number ≠ Circuit.outputName 0 := by
  intro same
  have chars := congrArg String.toList same
  simp [Netlist.automaticName, Circuit.outputName] at chars

/-- The signal at a place of a tree before its first cycle. -/
def layout (width : Width) (id : Nat) : Signal where
  name := if id % 2 = 0 then inputName (id / 2) else Netlist.automaticName (id / 2)
  width := some width

theorem layout_input (width : Width) (stage : Nat) :
    layout width (2 * stage) = { name := inputName stage, width := some width } := by
  have even : 2 * stage % 2 = 0 := by omega
  have half : 2 * stage / 2 = stage := by omega
  rw [layout, if_pos even, half]

theorem layout_result (width : Width) (stage : Nat) :
    layout width (2 * stage + 1) =
      { name := Netlist.automaticName stage, width := some width } := by
  have odd : ¬ (2 * stage + 1) % 2 = 0 := by omega
  have half : (2 * stage + 1) / 2 = stage := by omega
  rw [layout, if_neg odd, half]

/-- The gate of a stage. The first input has no stage before it and is joined with itself. -/
def stageGate (width : Width) (stage : Nat) : Gate where
  name := Netlist.automaticName stage
  dest := 2 * stage + 1
  width := width
  opcode := .and
  sources := [2 * stage - 1, 2 * stage]

/-- The first stages of a tree, so many of them, are laid out in a netlist, and the next automatic
name is that of the stage after them. -/
structure Laid (width : Width) (stages : Nat) (netlist : Netlist) : Prop where
  size : netlist.size = 2 * stages
  signal : ∀ id < 2 * stages, netlist.signal id = layout width id
  serial : netlist.serial = stages

/-- Adding an input and joining it to the result so far lays out one more stage. For the first
stage `2 * stages - 1` is the input itself. -/
theorem Laid.stage {width : Width} {stages : Nat} {netlist : Netlist}
    (laid : Laid width stages netlist) :
    Laid width (stages + 1) ((netlist.add (inputName stages)).1.connect .and width
        (2 * stages - 1) (2 * stages)).1 ∧
      ((netlist.add (inputName stages)).1.connect .and width
        (2 * stages - 1) (2 * stages)).2 = stageGate width stages := by
  have size : (netlist.add (inputName stages)).1.size = 2 * stages + 1 := by
    rw [Netlist.size_add, laid.size]
  have signal (id : Nat) : (netlist.add (inputName stages)).1.signal id =
      if id = 2 * stages then { name := inputName stages } else netlist.signal id := by
    rw [← laid.size]
    exact netlist.signal_push _ id
  have serial : (netlist.add (inputName stages)).1.serial = stages := laid.serial
  generalize (netlist.add (inputName stages)).1 = grown at size signal serial ⊢
  have fresh : grown.freshNumber = stages := by
    rw [← serial]
    apply Netlist.freshNumber_of_free
    intro id within
    rw [signal, serial]
    split
    next => exact inputName_ne_automaticName stages stages
    next old =>
      rw [laid.signal id (by omega), layout]
      split
      next => exact inputName_ne_automaticName _ _
      next =>
        intro same
        have := Netlist.automaticName_injective same
        omega
  have lhs_lt : 2 * stages - 1 < grown.size := by omega
  have rhs_lt : 2 * stages < grown.size := by omega
  constructor
  · refine ⟨by rw [Netlist.size_connect, size]; omega, fun id within => ?_,
      by rw [Netlist.serial_connect, fresh]⟩
    rw [grown.signal_connect .and width lhs_lt rhs_lt, size, fresh, signal]
    by_cases result : id = 2 * stages + 1
    · rw [if_pos result, result, layout_result]
    · rw [if_neg result]
      by_cases input : id = 2 * stages
      · rw [if_pos (.inr input), if_pos input, input, layout_input]
        rfl
      · rw [if_neg input, laid.signal id (by omega)]
        -- an earlier signal has its width already, whether the gate reads it or not
        split
        next => rfl
        next => rfl
  · rw [grown.gate_connect .and width lhs_lt rhs_lt, size, fresh, stageGate]

/-- The chain has so many stages after the first gate. -/
structure Chain.Laid (width : Width) (depth : Nat) (chain : Chain) : Prop where
  netlist : AndTree.Laid width (depth + 1) chain.netlist
  inputs : chain.inputs.toList = (List.range (depth + 1)).map (2 * ·)
  gates : chain.gates.toList = (List.range (depth + 1)).map (stageGate width)
  last : chain.last = stageGate width depth

theorem Chain.laid_start (width : Width) : (Chain.start width).Laid width 0 := by
  have none : AndTree.Laid width 0 .empty :=
    ⟨rfl, fun id within => absurd within (Nat.not_lt_zero id), rfl⟩
  obtain ⟨netlist, gate⟩ := none.stage
  exact ⟨netlist, rfl, congrArg ([·]) gate, gate⟩

theorem Chain.Laid.lengthen {width : Width} {depth : Nat} {chain : Chain}
    (laid : chain.Laid width depth) :
    (chain.lengthen (inputName (depth + 1))).Laid width (depth + 1) := by
  have joined : (chain.netlist.add (inputName (depth + 1))).1.extend chain.last
      (chain.netlist.add (inputName (depth + 1))).2 =
      (chain.netlist.add (inputName (depth + 1))).1.connect .and width
        (2 * (depth + 1) - 1) (2 * (depth + 1)) := by
    have place : (chain.netlist.add (inputName (depth + 1))).2 = 2 * (depth + 1) :=
      laid.netlist.size
    rw [place, laid.last]
    rfl
  obtain ⟨netlist, gate⟩ := laid.netlist.stage
  rw [← joined] at netlist gate
  refine ⟨netlist, ?_, ?_, gate⟩
  · show (chain.inputs.push chain.netlist.size).toList = _
    rw [Array.toList_push, laid.inputs, laid.netlist.size, @List.range_succ (depth + 1),
      List.map_append]
    rfl
  · show (chain.gates.push _).toList = _
    rw [Array.toList_push, gate, laid.gates, @List.range_succ (depth + 1), List.map_append]
    rfl

theorem laid_chain (width : Width) (depth : Nat) : (chain width depth).Laid width depth := by
  induction depth with
  | zero => exact Chain.laid_start width
  | succ depth ih =>
    rw [chain, Nat.fold_succ]
    exact ih.lengthen

theorem size_netlist (tree : AndTree) : tree.circuit.netlist.size = 2 * (tree.depth + 1) :=
  (laid_chain tree.width tree.depth).netlist.size

theorem signal_circuit (tree : AndTree) {id : Nat} (within : id < 2 * (tree.depth + 1)) :
    tree.circuit.netlist.signal id = layout tree.width id :=
  (laid_chain tree.width tree.depth).netlist.signal id within

theorem width_circuit (tree : AndTree) {id : Nat} (within : id < 2 * (tree.depth + 1)) :
    (tree.circuit.netlist.signal id).width = some tree.width := by
  rw [tree.signal_circuit within, layout]

theorem history_circuit (tree : AndTree) (id : Nat) :
    (tree.circuit.netlist.signal id).history = .empty := by
  by_cases within : id < 2 * (tree.depth + 1)
  · rw [tree.signal_circuit within, layout]
  · have beyond : tree.circuit.netlist.size ≤ id := by
      rw [size_netlist]
      omega
    rw [Netlist.signal_of_size_le beyond]
    rfl

theorem inputs_circuit (tree : AndTree) :
    tree.circuit.inputs.toList = (List.range (tree.depth + 1)).map (2 * ·) :=
  (laid_chain tree.width tree.depth).inputs

theorem getElem?_inputs (tree : AndTree) (index : Nat) :
    tree.circuit.inputs[index]? = if index ≤ tree.depth then some (2 * index) else none := by
  rw [← Array.getElem?_toList, inputs_circuit, List.getElem?_map]
  split
  next within =>
    rw [List.getElem?_range (by omega)]
    rfl
  next beyond =>
    have length_le : (List.range (tree.depth + 1)).length ≤ index := by
      rw [List.length_range]
      omega
    rw [List.getElem?_eq_none length_le, Option.map_none]

theorem mem_inputs_iff (tree : AndTree) {id : Nat} :
    id ∈ tree.circuit.inputs ↔ ∃ index ≤ tree.depth, id = 2 * index := by
  simp only [← Array.mem_toList_iff, inputs_circuit, List.mem_map, List.mem_range,
    Nat.lt_succ_iff, eq_comm]

theorem gates_circuit (tree : AndTree) :
    tree.circuit.gates.toList = (List.range (tree.depth + 1)).map (stageGate tree.width) :=
  (laid_chain tree.width tree.depth).gates

theorem outputs_circuit (tree : AndTree) : tree.circuit.outputs = #[2 * tree.depth + 1] := by
  show #[(chain tree.width tree.depth).last.dest] = _
  rw [(laid_chain tree.width tree.depth).last, stageGate]

theorem inputPins_circuit (tree : AndTree) : tree.circuit.inputPins =
    (List.range (tree.depth + 1)).map fun index => ⟨inputName index, tree.width⟩ := by
  rw [Circuit.inputPins, inputs_circuit, List.map_map]
  refine List.map_congr_left fun index member => ?_
  have within := List.mem_range.mp member
  simp [tree.signal_circuit (by omega : 2 * index < _), layout_input, Signal.pinWidth]

theorem outputPins_circuit (tree : AndTree) :
    tree.circuit.outputPins = [⟨Circuit.outputName 0, tree.width⟩] := by
  have shown := tree.signal_circuit (by omega : 2 * tree.depth + 1 < 2 * (tree.depth + 1))
  simp [Circuit.outputPins, outputs_circuit, shown, layout_result, Signal.pinWidth]

end AndTree
end GoldenCircuit
