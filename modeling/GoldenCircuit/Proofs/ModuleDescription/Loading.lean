import GoldenCircuit.Proofs.GoldenRun
import GoldenCircuit.Proofs.Json.RoundTrip
import GoldenCircuit.Proofs.ModuleDescription.RoundTrip
import GoldenCircuit.Proofs.Writing

/-! What simulators load of the description that is written of a specimen, whatever its circuit is
and whatever its signals are named. -/
namespace GoldenCircuit

/-- A loaded module is the one of a specimen, with the vectors of a golden run. -/
structure ModuleDescription.Loaded.Shows (loaded : Loaded) (specimen : Specimen)
    (vectors : List GoldenVector) : Prop where
  name : loaded.name = specimen.name
  pins : loaded.pins = specimen.circuit.inputPins.map (.into, ·) ++
    specimen.circuit.outputPins.map (.out, ·)
  nets : loaded.nets = specimen.circuit.gates.toList.map fun gate => ⟨gate.name, gate.width⟩
  assignments : loaded.assignments =
    specimen.circuit.gates.toList.filterMap (Assignment.ofGate? specimen.circuit.netlist) ++
      specimen.circuit.outputs.toList.mapIdx fun index id =>
        ⟨Circuit.outputName index, .ofSignal specimen.circuit.netlist id⟩
  registers : loaded.registers = []
  processes : loaded.processes = []
  memories : loaded.memories = []
  vectors : List.Forall₂ (Vector.Maps specimen.circuit) loaded.vectors vectors

theorem ModuleDescription.shows_describe {specimen : Specimen} {vectors : List GoldenVector}
    (covers : ∀ vector ∈ vectors, vector.Covers specimen.circuit) :
    (Delivery.describe specimen vectors).loaded.Shows specimen vectors where
  name := rfl
  pins := rfl
  nets := rfl
  assignments := rfl
  registers := rfl
  processes := rfl
  memories := rfl
  vectors := by
    rw [loaded, Delivery.describe, List.forall₂_map_left_iff, List.forall₂_same]
    exact fun vector member => Vector.maps_ofGolden (covers vector member).outputs

namespace Specimen

/-- The text written of a specimen whose golden run succeeds is one JSON value and the end of its
last line. It loads as the module that was described, with one vector for each cycle of the run, in
order, and in each vector a value for every pin. -/
theorem description_loads {plan : RunPlan} {specimen left : Specimen} {vectors : List GoldenVector}
    (run : goldenRun plan specimen = .ok vectors left) :
    let loaded := (Delivery.describe specimen vectors).loaded
    (∃ text value, specimen.Writes .json plan (text ++ "\n") ∧ Json.parse? text = some value ∧
      ModuleDescription.load? value = some loaded) ∧
    loaded.Shows specimen vectors ∧
    vectors.map (·.cycle) = List.range' specimen.circuit.cycle plan.cycles.toNat ∧
    ∀ vector ∈ vectors, vector.Covers specimen.circuit := by
  obtain ⟨cycles, covers⟩ := goldenRun_of_ok run
  have parsed := @Json.parse?_indented (Delivery.describe specimen vectors).toJson "" (by simp)
  rw [String.append_empty] at parsed
  exact ⟨⟨_, _, writes_description run, parsed, ModuleDescription.load?_toJson _⟩,
    ModuleDescription.shows_describe covers, cycles, covers⟩

/-- Two signals of one name, with a quote, a backslash, a control character and a letter beyond
ASCII in it, and a gate that joins them. Their values are wider than the numbers that JSON readers
accept. -/
def namesakes : Netlist × Gate :=
  let wide : Width := ⟨70, by decide⟩
  let first := (Netlist.empty.add "\"\\\x01é" wide).1
  (first.add "\"\\\x01é" wide).1.connect .and wide 0 1

/-- The namesakes are inputs, and one of them is an output too. -/
def escaped : Specimen where
  name := "\"\n"
  width := ⟨70, by decide⟩
  circuit :=
    { netlist := namesakes.1, inputs := #[0, 1], gates := #[namesakes.2], outputs := #[2, 0]
      inputs_lt := by decide, gates_within := by decide, outputs_lt := by decide }

theorem description_loads_of_escaped :
    ∃ vectors left, goldenRun { cycles := 2 } escaped = .ok vectors left ∧
      (Delivery.describe escaped vectors).loaded.Shows escaped vectors := by
  have ended : ((goldenRun { cycles := 2 }).outcome escaped).toBool = true := by decide +kernel
  cases run : goldenRun { cycles := 2 } escaped with
  | ok vectors left => exact ⟨vectors, left, rfl, (description_loads run).2.1⟩
  | error fault left =>
    rw [Action.outcome_of_error run] at ended
    contradiction

end Specimen
end GoldenCircuit
