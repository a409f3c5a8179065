import GoldenCircuit.Proofs.AndTree.Chisel
import GoldenCircuit.Proofs.Json.RoundTrip
import GoldenCircuit.Proofs.ModuleDescription.Vectors
import GoldenCircuit.Proofs.Waveform.Golden

/-! The texts that carry the golden values of a tree. A tester pokes and expects them, a dump shows
them, and a description lists them by name: all three hold the vectors of the golden run. -/
namespace GoldenCircuit

namespace AndTree.Reached

variable {tree : AndTree} {specimen left : Specimen} {plan : RunPlan} {vectors : List GoldenVector}

theorem fits_goldenVectors (reached : Reached tree specimen) {stimulus : Stimulus}
    {start count : Nat} {vector : GoldenVector}
    (member : vector ∈ tree.goldenVectors stimulus start count) : vector.Fits specimen.circuit := by
  obtain ⟨cycle, _, rfl⟩ := List.mem_map.mp member
  have fits := tree.drawn_lt stimulus cycle
  constructor
  · rw [reached.inputPins_eq, chiselModule, List.forall₂_map_right_iff, drawn,
      List.forall₂_map_left_iff, List.forall₂_same]
    exact fun index among => fits _ (List.mem_map_of_mem among)
  · rw [reached.outputPins_eq]
    exact .cons (conjunction_lt (Nat.two_pow_pos _) fits) .nil

theorem nodup_pins (reached : Reached tree specimen) :
    ((specimen.circuit.inputPins ++ specimen.circuit.outputPins).map (·.name)).Nodup := by
  have once := tree.wellScoped_chiselModule.once
  rw [reached.inputPins_eq, reached.outputPins_eq, List.map_append]
  exact once.of_cons.of_append_left

/-- The cycles of the tester are the vectors, under the names of the pins. -/
theorem writes_cycles (reached : Reached tree specimen)
    (run : Specimen.goldenRun plan specimen = .ok vectors left)
    (fits : ∀ vector ∈ vectors, vector.Fits specimen.circuit) :
    ∃ text source, specimen.Writes .chisel plan text ∧ Chisel.read? text = some source ∧
      Chisel.cycles? source.commands = some (vectors.map fun vector =>
        { pokes := (specimen.circuit.inputPins.map (·.name)).zip vector.inputs
          expectations := (specimen.circuit.outputPins.map (·.name)).zip vector.outputs }) := by
  obtain ⟨text, written, read⟩ := reached.writes_source run
  refine ⟨text, _, written, read, ?_⟩
  rw [Chisel.cycles?_commandsOfVector]
  refine congrArg some (List.map_congr_left fun vector member => ?_)
  rw [Circuit.mapIdx_outputName (fits vector member).outputs.length_eq]

/-- The dump shows the vectors, each at the time of its index. -/
theorem writes_shown (reached : Reached tree specimen)
    (run : Specimen.goldenRun plan specimen = .ok vectors left)
    (fits : ∀ vector ∈ vectors, vector.Fits specimen.circuit) :
    ∃ text dump, specimen.Writes .vcd plan text ∧ Waveform.read text = some dump ∧
      dump.finalTime? = some vectors.length ∧
      ∀ (time : Nat) (vector : GoldenVector), vectors[time]? = some vector →
        dump.shownAt time =
          ((specimen.circuit.inputPins ++ specimen.circuit.outputPins).map (·.name)).zip
            ((vector.inputs ++ vector.outputs).map some) := by
  have legible := tree.legible_chiselModule
  have pin_words : ∀ pin ∈ specimen.circuit.inputPins ++ specimen.circuit.outputPins,
      Text.IsWord pin.name := by
    rw [reached.inputPins_eq, reached.outputPins_eq]
    exact fun pin member =>
      (List.mem_append.mp member).elim (legible.inputs pin) (legible.outputs pin)
  exact Waveform.writes_shown run (reached.name ▸ legible.name) pin_words fits

/-- The description lists the vectors by the names of the pins. -/
theorem writes_vectors (reached : Reached tree specimen)
    (run : Specimen.goldenRun plan specimen = .ok vectors left)
    (fits : ∀ vector ∈ vectors, vector.Fits specimen.circuit) :
    ∃ text value listed, specimen.Writes .json plan text ∧ Json.parse? text = some value ∧
      ModuleDescription.readVectors? value = some listed ∧
      List.Forall₂ (ModuleDescription.Vector.Lists specimen.circuit) listed vectors := by
  refine ⟨_, _, _, Specimen.writes_description run, Json.parse?_indented _ ?_,
    ModuleDescription.readVectors?_toJson _, ?_⟩
  · simp [Json.isBlank]
  · rw [Delivery.describe, List.forall₂_map_left_iff, List.forall₂_same]
    exact fun vector member => ModuleDescription.Vector.lists_ofGolden reached.nodup_pins
      (fits vector member).inputs.length_eq (fits vector member).outputs.length_eq

end AndTree.Reached

namespace AndTree

/-- In every state of a session, the three texts that carry golden values hold those of the golden
run from that state. Each has one cycle for each vector and one value for each pin in it, and no
two pins share a name. -/
theorem golden_texts_agree (tree : AndTree) (plan : RunPlan) (commands : List Command) :
    let start := tree.specimen.performing commands
    let inputNames := start.circuit.inputPins.map (·.name)
    let outputNames := start.circuit.outputPins.map (·.name)
    ∃ vectors left, Specimen.goldenRun plan start = .ok vectors left ∧
      vectors.length = plan.cycles.toNat ∧ (inputNames ++ outputNames).Nodup ∧
      (∀ vector ∈ vectors, vector.inputs.length = inputNames.length ∧
        vector.outputs.length = outputNames.length) ∧
      (∃ text source, start.Writes .chisel plan text ∧ Chisel.read? text = some source ∧
        Chisel.cycles? source.commands = some (vectors.map fun vector =>
          { pokes := inputNames.zip vector.inputs
            expectations := outputNames.zip vector.outputs })) ∧
      (∃ text dump, start.Writes .vcd plan text ∧ Waveform.read text = some dump ∧
        dump.finalTime? = some plan.cycles.toNat ∧
        ∀ (time : Nat) (vector : GoldenVector), vectors[time]? = some vector →
          dump.shownAt time = (inputNames ++ outputNames).zip
            ((vector.inputs ++ vector.outputs).map some)) ∧
      ∃ text value listed, start.Writes .json plan text ∧ Json.parse? text = some value ∧
        ModuleDescription.readVectors? value = some listed ∧
        List.Forall₂ (ModuleDescription.Vector.Lists start.circuit) listed vectors := by
  intro start inputNames outputNames
  have reached : Reached tree start := tree.reached_performing commands
  obtain ⟨left, run, _⟩ := reached.goldenRun plan
  have fits : ∀ vector ∈ tree.goldenVectors (.ofSeed plan.seed) start.circuit.cycle
      plan.cycles.toNat, vector.Fits start.circuit :=
    fun vector member => reached.fits_goldenVectors member
  have count : (tree.goldenVectors (.ofSeed plan.seed) start.circuit.cycle
      plan.cycles.toNat).length = plan.cycles.toNat := by
    rw [goldenVectors, List.length_map, List.length_range]
  have pinNames : inputNames ++ outputNames =
      (start.circuit.inputPins ++ start.circuit.outputPins).map (·.name) :=
    List.map_append.symm
  have shown := reached.writes_shown run fits
  rw [count, ← pinNames] at shown
  refine ⟨_, left, run, count, ?_, fun vector member => ?_, reached.writes_cycles run fits, shown,
    reached.writes_vectors run fits⟩
  · exact pinNames ▸ reached.nodup_pins
  · rw [List.length_map, List.length_map]
    exact ⟨(fits vector member).inputs.length_eq, (fits vector member).outputs.length_eq⟩

end AndTree
end GoldenCircuit
