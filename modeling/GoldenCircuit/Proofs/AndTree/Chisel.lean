import Mathlib.Data.List.Nodup
import GoldenCircuit.Proofs.AndTree.GoldenRun
import GoldenCircuit.Proofs.Chisel.RoundTrip
import GoldenCircuit.Proofs.Chisel.Simulation
import GoldenCircuit.Proofs.Writing

/-! The Chisel file of a tree checks itself. Its module computes stage by stage what the golden run
takes from the reference, so its tester finds every expectation met. -/
namespace GoldenCircuit

theorem Circuit.Alike.module {one other : Circuit} (alike : one.Alike other) (name : String) :
    Chisel.Module.ofCircuit name one = Chisel.Module.ofCircuit name other := by
  have refer : Chisel.refer one.netlist = Chisel.refer other.netlist := by
    funext inputs id
    simp only [Chisel.refer, alike.name]
  have define : Chisel.define one.netlist = Chisel.define other.netlist := by
    funext inputs gate
    simp only [Chisel.define, refer]
  simp only [Chisel.Module.ofCircuit, alike.inputPins, alike.outputPins, alike.inputs, alike.gates,
    alike.outputs, refer, define]

namespace AndTree

open Chisel (Reference)

/-! ### The module -/

/-- What a stage joins with its input: the first input, or the stage before it. -/
def before : (stage : Nat) → Reference
  | 0 => .pin (inputName 0)
  | stage + 1 => .value (Netlist.automaticName stage)

def stageDefinition (stage : Nat) : Chisel.Definition where
  name := Netlist.automaticName stage
  opcode := .and
  operands := [before stage, .pin (inputName stage)]

def chiselModule (tree : AndTree) : Chisel.Module where
  name := familyName
  inputs := (List.range (tree.depth + 1)).map fun index => ⟨inputName index, tree.width⟩
  outputs := [⟨Circuit.outputName 0, tree.width⟩]
  definitions := (List.range (tree.depth + 1)).map stageDefinition
  connections := [(Circuit.outputName 0, .value (Netlist.automaticName tree.depth))]

theorem refer_input (tree : AndTree) {index : Nat} (within : index ≤ tree.depth) :
    Chisel.refer tree.circuit.netlist (.ofList tree.circuit.inputs.toList) (2 * index) =
      .pin (inputName index) := by
  have listed : 2 * index ∈ tree.circuit.inputs.toList :=
    Array.mem_toList_iff.mpr (tree.mem_inputs_iff.mpr ⟨index, within, rfl⟩)
  have signal := tree.signal_circuit (by omega : 2 * index < 2 * (tree.depth + 1))
  simp [Chisel.refer, Std.TreeSet.contains_ofList, listed, signal, layout_input]

theorem refer_result (tree : AndTree) {stage : Nat} (within : stage ≤ tree.depth) :
    Chisel.refer tree.circuit.netlist (.ofList tree.circuit.inputs.toList) (2 * stage + 1) =
      .value (Netlist.automaticName stage) := by
  have unlisted : 2 * stage + 1 ∉ tree.circuit.inputs.toList := by
    intro listed
    obtain ⟨index, _, same⟩ := tree.mem_inputs_iff.mp (Array.mem_toList_iff.mp listed)
    omega
  have signal := tree.signal_circuit (by omega : 2 * stage + 1 < 2 * (tree.depth + 1))
  simp [Chisel.refer, Std.TreeSet.contains_ofList, unlisted, signal, layout_result]

theorem define_stageGate (tree : AndTree) {stage : Nat} (within : stage ≤ tree.depth) :
    Chisel.define tree.circuit.netlist (.ofList tree.circuit.inputs.toList)
      (stageGate tree.width stage) = stageDefinition stage := by
  have first : Chisel.refer tree.circuit.netlist (.ofList tree.circuit.inputs.toList)
      (2 * stage - 1) = before stage := by
    cases stage with
    | zero => exact tree.refer_input within
    | succ stage => exact tree.refer_result (by omega)
  simp only [Chisel.define, stageGate, stageDefinition, List.map_cons, List.map_nil, first,
    tree.refer_input within]

theorem module_circuit (tree : AndTree) :
    Chisel.Module.ofCircuit familyName tree.circuit = tree.chiselModule := by
  have definitions : tree.circuit.gates.toList.map (Chisel.define tree.circuit.netlist
      (.ofList tree.circuit.inputs.toList)) =
      (List.range (tree.depth + 1)).map stageDefinition := by
    rw [gates_circuit, List.map_map]
    refine List.map_congr_left fun stage member => ?_
    exact tree.define_stageGate (Nat.le_of_lt_succ (List.mem_range.mp member))
  have connection := tree.refer_result (Nat.le_refl _)
  simp only [Chisel.Module.ofCircuit, chiselModule, definitions, inputPins_circuit,
    outputPins_circuit, outputs_circuit]
  simp [connection]

theorem legible_chiselModule (tree : AndTree) : tree.chiselModule.Legible := by
  have input (index : Nat) : Text.IsWord (inputName index) :=
    .append (by decide) (Text.isWord_toString index)
  have output := Chisel.isWord_outputName 0
  have value := Reference.legible_automaticName
  constructor
  · show Text.IsWord familyName
    decide
  · simp [chiselModule, input]
  · simp [chiselModule, output]
  · intro definition member
    obtain ⟨stage, _, rfl⟩ := List.mem_map.mp member
    have joined : (before stage).Legible := by
      cases stage with
      | zero => exact input 0
      | succ stage => exact value stage
    constructor
    · exact (value stage).1
    · exact ⟨_, _, [], rfl⟩
    · have pin : Reference.Legible (.pin (inputName stage)) := input stage
      simp [stageDefinition, joined, pin]
  · simpa [chiselModule, output] using value tree.depth

/-- Stages refer to inputs and to stages before them. -/
theorem scoped_stages {known : List Reference} {depth : Nat}
    (pins : ∀ index ≤ depth, .pin (inputName index) ∈ known) {stages remaining : Nat}
    (result : 0 < stages → .value (Netlist.automaticName (stages - 1)) ∈ known)
    (all : stages + remaining = depth + 1) :
    Chisel.Module.Scoped known ((List.range' stages remaining).map stageDefinition) := by
  induction remaining generalizing stages known with
  | zero => trivial
  | succ remaining ih =>
    rw [List.range'_succ, List.map_cons]
    constructor
    · have joined : before stages ∈ known := by
        cases stages with
        | zero => exact pins 0 (Nat.zero_le _)
        | succ stages => exact result (Nat.succ_pos _)
      simpa [stageDefinition, joined] using pins stages (by omega)
    · refine ih (fun index within => List.mem_cons_of_mem _ (pins index within)) (fun _ => ?_)
        (by omega)
      exact List.mem_cons_self

theorem nodup_names (count : Nat) :
    ("io" :: ((List.range count).map inputName ++ [Circuit.outputName 0] ++
      (List.range count).map Netlist.automaticName)).Nodup := by
  have inputs : ((List.range count).map inputName).Nodup :=
    List.Nodup.map (fun _ _ => inputName_injective) List.nodup_range
  have values : ((List.range count).map Netlist.automaticName).Nodup :=
    List.Nodup.map (fun _ _ => Netlist.automaticName_injective) List.nodup_range
  -- names of different kinds differ in one of their first two characters
  have bundle_input (index : Nat) : inputName index ≠ "io" := fun same => by
    simpa [inputName] using congrArg String.toList same
  have bundle_value (stage : Nat) : Netlist.automaticName stage ≠ "io" := fun same => by
    simpa [Netlist.automaticName] using congrArg String.toList same
  have bundle_output : "io" ≠ Circuit.outputName 0 := by decide
  have output_input := inputName_ne_outputName
  have output_value := automaticName_ne_outputName
  have input_value := inputName_ne_automaticName
  simp only [List.nodup_cons, List.nodup_append, List.mem_append, List.mem_map, List.mem_singleton]
  grind

theorem wellScoped_chiselModule (tree : AndTree) : tree.chiselModule.WellScoped := by
  constructor
  · have pins : ∀ index ≤ tree.depth, Reference.pin (inputName index) ∈
        (List.range (tree.depth + 1)).map fun index => .pin (inputName index) :=
      fun index within => List.mem_map_of_mem (List.mem_range.mpr (by omega))
    have ordered := @scoped_stages _ _ pins 0 (tree.depth + 1)
      (fun none => absurd none (Nat.lt_irrefl 0)) (Nat.zero_add _)
    simpa [chiselModule, ← List.range_eq_range', Function.comp_def] using ordered
  · have last : .value (Netlist.automaticName tree.depth) ∈
        tree.chiselModule.definitions.map fun definition => Reference.value definition.name := by
      rw [chiselModule, List.map_map]
      exact List.mem_map.mpr ⟨tree.depth, List.mem_range.mpr (Nat.lt_succ_self _), rfl⟩
    intro connection member
    cases List.mem_singleton.mp member
    exact List.mem_append_right _ last
  · rfl
  · have names : tree.chiselModule.inputs.map (·.name) ++ tree.chiselModule.outputs.map (·.name) ++
        tree.chiselModule.definitions.map (·.name) =
        (List.range (tree.depth + 1)).map inputName ++ [Circuit.outputName 0] ++
        (List.range (tree.depth + 1)).map Netlist.automaticName := by
      simp [chiselModule, stageDefinition, Function.comp_def]
    rw [names]
    exact nodup_names _

/-! ### What it shows -/

variable {tree : AndTree} {inputs : List Nat}

theorem drawn_lt (tree : AndTree) (stimulus : Stimulus) (cycle : Nat) :
    ∀ value ∈ tree.drawn stimulus cycle, value < 2 ^ tree.width.bits := by
  intro value member
  obtain ⟨index, _, rfl⟩ := List.mem_map.mp member
  exact Stimulus.next_lt _ _

namespace Reached

variable {specimen : Specimen}

theorem module_eq (reached : Reached tree specimen) :
    Chisel.Module.ofCircuit specimen.name specimen.circuit = tree.chiselModule := by
  rw [reached.name, ← reached.recorded.alike.module, module_circuit]

theorem inputPins_eq (reached : Reached tree specimen) :
    specimen.circuit.inputPins = tree.chiselModule.inputs :=
  congrArg Chisel.Module.inputs reached.module_eq

theorem outputPins_eq (reached : Reached tree specimen) :
    specimen.circuit.outputPins = tree.chiselModule.outputs :=
  congrArg Chisel.Module.outputs reached.module_eq

/-- The Chisel file that is written in any state reads back as the module of the tree and the
commands for the vectors of the golden run. -/
theorem writes_source (reached : Reached tree specimen) {plan : RunPlan}
    {vectors : List GoldenVector} {left : Specimen}
    (run : Specimen.goldenRun plan specimen = .ok vectors left) :
    ∃ text, specimen.Writes .chisel plan text ∧ Chisel.read? text = some
      { module := tree.chiselModule
        commands := vectors.flatMap (Chisel.commandsOfVector specimen.circuit) } := by
  have legible := tree.legible_chiselModule
  have all_legible : ∀ command ∈ vectors.flatMap (Chisel.commandsOfVector specimen.circuit),
      command.Legible := by
    intro command member
    obtain ⟨vector, _, among⟩ := List.mem_flatMap.mp member
    have words := reached.inputPins_eq ▸ legible.inputs
    exact Chisel.legible_commandsOfVector words vector command among
  have written := Specimen.writes_chisel run
  rw [reached.module_eq, reached.name] at written
  exact ⟨_, written, Chisel.read?_render legible all_legible⟩

end Reached

end AndTree
end GoldenCircuit
