import Mathlib.Data.List.Forall2
import GoldenCircuit.Proofs.Session
import GoldenCircuit.Proofs.Specimen

/-! Golden runs of any specimen. Each cycle of a run that succeeds gives one vector, with a value
for every input and every output, and leaves the circuit built as it was. -/
namespace GoldenCircuit

/-- A vector has a value for each input and each output of a circuit. -/
structure GoldenVector.Covers (vector : GoldenVector) (circuit : Circuit) : Prop where
  inputs : vector.inputs.length = circuit.inputPins.length
  outputs : vector.outputs.length = circuit.outputPins.length

/-- A vector has one value for each pin of a circuit, and the value fits the pin. -/
structure GoldenVector.Fits (vector : GoldenVector) (circuit : Circuit) : Prop where
  inputs : List.Forall₂ (fun value (pin : Pin) => value < 2 ^ pin.width.bits) vector.inputs
    circuit.inputPins
  outputs : List.Forall₂ (fun value (pin : Pin) => value < 2 ^ pin.width.bits) vector.outputs
    circuit.outputPins

namespace Circuit

/-- The other circuit is built alike and has come so many cycles further. -/
structure Reaches (circuit : Circuit) (cycles : Nat) (other : Circuit) : Prop where
  alike : circuit.Alike other
  cycle : other.cycle = circuit.cycle + cycles

namespace Reaches

variable {circuit other : Circuit} {cycles : Nat}

theorem refl (circuit : Circuit) : circuit.Reaches 0 circuit :=
  ⟨.refl circuit, rfl⟩

theorem record (reaches : circuit.Reaches cycles other) {id : Nat}
    (within : id < other.netlist.size) (value : Nat) :
    circuit.Reaches cycles (other.record id value) :=
  ⟨reaches.alike.trans (other.alike_record within value), reaches.cycle⟩

theorem advance (reaches : circuit.Reaches cycles other) :
    circuit.Reaches (cycles + 1) other.advance :=
  ⟨reaches.alike.trans other.alike_advance, congrArg (· + 1) reaches.cycle⟩

theorem trans {third : Circuit} {more : Nat} (first : circuit.Reaches cycles other)
    (later : other.Reaches more third) : circuit.Reaches (cycles + more) third :=
  ⟨first.alike.trans later.alike, by rw [later.cycle, first.cycle, Nat.add_assoc]⟩

end Reaches

theorem sample_eq_ok_iff {circuit : Circuit} {cycle : Nat} {inputs : List Nat} :
    circuit.sample = .ok (cycle, inputs) ↔
      circuit.cycle = cycle ∧ circuit.inputValues = .ok inputs := by
  simp [sample, bind_eq_ok_iff, pure, Except.pure, and_comm]

theorem length_inputValues {circuit : Circuit} {values : List Nat}
    (known : circuit.inputValues = .ok values) : values.length = circuit.inputPins.length := by
  rw [length_of_mapM known, inputPins, List.length_map]

theorem length_outputValues {circuit : Circuit} {values : List Nat}
    (known : circuit.outputValues = .ok values) : values.length = circuit.outputPins.length := by
  rw [length_of_mapM known, outputPins, List.length_mapIdx]

end Circuit

namespace Specimen

theorem reaches_step {specimen left : Specimen} {circuit : Circuit} {cycles : Nat}
    (reaches : circuit.Reaches cycles specimen.circuit) (done : step specimen = .ok () left) :
    circuit.Reaches (cycles + 1) left.circuit := by
  rcases step_cases specimen with ⟨fault, stopped⟩ | ⟨value, id, _, found, _, stepped⟩
  · rw [stopped] at done
    contradiction
  · rw [stepped] at done
    cases done
    exact (reaches.record (Circuit.output_lt found) value).advance

end Specimen

namespace Bench

theorem onSpecimen_eq_ok_iff {Answer : Type} {action : Action Specimen Answer} {bench left : Bench}
    {answer : Answer} : onSpecimen action bench = .ok answer left ↔
      ∃ specimen, action bench.specimen = .ok answer specimen ∧
        { specimen, stimulus := bench.stimulus } = left := by
  unfold onSpecimen Action.within
  cases run : action bench.specimen <;> simp [run]

/-- A cycle that succeeds drives the inputs, reads them, takes a step and reads the outputs. -/
theorem runCycle_split {bench left : Bench} {vector : GoldenVector}
    (run : runCycle bench = .ok vector left) :
    ∃ driven stepped, drive bench = .ok () driven ∧
      driven.specimen.circuit.sample = .ok (vector.cycle, vector.inputs) ∧
      Specimen.step driven.specimen = .ok () stepped ∧
      stepped.circuit.outputValues = .ok vector.outputs ∧
      left = { specimen := stepped, stimulus := driven.stimulus } := by
  obtain ⟨_, driven, drive_done, run⟩ := Action.bind_eq_ok_iff.mp run
  obtain ⟨⟨cycle, inputs⟩, sampled, sample_done, run⟩ := Action.bind_eq_ok_iff.mp run
  obtain ⟨_, stepped, step_done, run⟩ := Action.bind_eq_ok_iff.mp run
  obtain ⟨outputs, _, look_done, done⟩ := Action.bind_eq_ok_iff.mp run
  cases done
  obtain ⟨_, found, rfl⟩ := onSpecimen_eq_ok_iff.mp sample_done
  obtain ⟨sample, rfl⟩ := Action.read_eq_ok_iff.mp found
  obtain ⟨_, step_run, rfl⟩ := onSpecimen_eq_ok_iff.mp step_done
  obtain ⟨_, found, rfl⟩ := onSpecimen_eq_ok_iff.mp look_done
  obtain ⟨outputs_known, rfl⟩ := Action.read_eq_ok_iff.mp found
  exact ⟨driven, _, drive_done, sample, step_run, outputs_known, rfl⟩

/-- One cycle that succeeds gives the vector of the cycle it completes. -/
theorem runCycle_of_ok {bench left : Bench} {vector : GoldenVector}
    (run : runCycle bench = .ok vector left) :
    vector.cycle = bench.specimen.circuit.cycle ∧ vector.Covers bench.specimen.circuit ∧
      bench.specimen.circuit.Reaches 1 left.specimen.circuit := by
  obtain ⟨driven, stepped, drive_done, sample, step_run, outputs_known, rfl⟩ := runCycle_split run
  have reaches_driven : bench.specimen.circuit.Reaches 0 driven.specimen.circuit := by
    have kept := Bench.keeps_drive
      (@Specimen.keeps_poke (bench.specimen.circuit.Reaches 0) .record) bench (.refl _)
    rwa [Action.after_of_ok drive_done] at kept
  obtain ⟨cycle, inputs_known⟩ := Circuit.sample_eq_ok_iff.mp sample
  have reaches_stepped := Specimen.reaches_step reaches_driven step_run
  -- Inputs are read before the step and outputs after it, from circuits that are built alike.
  refine ⟨cycle ▸ reaches_driven.cycle, ⟨?_, ?_⟩, reaches_stepped⟩
  · rw [reaches_driven.alike.inputPins]
    exact Circuit.length_inputValues inputs_known
  · rw [reaches_stepped.alike.outputPins]
    exact Circuit.length_outputValues outputs_known

section Each

variable {invariant : Specimen → Prop} {property : GoldenVector → Prop}
  (each : ∀ {bench left : Bench} {vector : GoldenVector}, invariant bench.specimen →
    runCycle bench = .ok vector left → invariant left.specimen ∧ property vector)

include each

theorem forall_of_runCycles {count : Nat} {vectors all : Array GoldenVector} {bench left : Bench}
    (run : runCycles count vectors bench = .ok all left) (holds : invariant bench.specimen)
    (before : ∀ vector ∈ vectors, property vector) : ∀ vector ∈ all, property vector := by
  induction count generalizing vectors bench with
  | zero =>
    cases run
    exact before
  | succ count ih =>
    obtain ⟨vector, between, first, rest⟩ := Action.bind_eq_ok_iff.mp run
    obtain ⟨holds_on, here⟩ := each holds first
    refine ih rest holds_on fun other member => ?_
    rcases Array.mem_push.mp member with old | rfl
    · exact before other old
    · exact here

/-- What every cycle gives its vector, while it keeps an invariant, a golden run gives all of its
vectors. -/
theorem forall_of_goldenRun {plan : RunPlan} {specimen left : Specimen}
    {vectors : List GoldenVector} (run : Specimen.goldenRun plan specimen = .ok vectors left)
    (holds : invariant specimen) : ∀ vector ∈ vectors, property vector := by
  unfold Specimen.goldenRun at run
  split at run
  next all bench cycles_run =>
    cases run
    intro vector member
    exact forall_of_runCycles each cycles_run holds (by simp) vector (Array.mem_toList_iff.mp member)
  next => contradiction

end Each

/-- Cycles that succeed give one vector each, in the order of their cycles. -/
theorem runCycles_of_ok {count : Nat} {vectors all : Array GoldenVector} {bench left : Bench}
    (run : runCycles count vectors bench = .ok all left) :
    ∃ later : List GoldenVector, all.toList = vectors.toList ++ later ∧
      later.map (·.cycle) = List.range' bench.specimen.circuit.cycle count ∧
      ∀ vector ∈ later, vector.Covers bench.specimen.circuit := by
  induction count generalizing vectors bench with
  | zero =>
    cases run
    exact ⟨[], (List.append_nil _).symm, rfl, by simp⟩
  | succ count ih =>
    obtain ⟨vector, between, first, rest⟩ := Action.bind_eq_ok_iff.mp run
    obtain ⟨cycle, covers, reaches⟩ := runCycle_of_ok first
    obtain ⟨later, all_eq, cycles, covers_later⟩ := ih rest
    refine ⟨vector :: later, ?_, ?_, ?_⟩
    · simpa using all_eq
    · rw [List.map_cons, cycle, cycles, reaches.cycle, List.range'_succ]
    · rintro _ (_ | ⟨_, member⟩)
      · exact covers
      · have covers := covers_later _ member
        constructor
        · rw [covers.inputs, reaches.alike.inputPins]
        · rw [covers.outputs, reaches.alike.outputPins]

/-- Cycles that succeed are completed, one after the other. -/
theorem runCycles_reaches {count : Nat} {vectors all : Array GoldenVector} {bench left : Bench}
    (run : runCycles count vectors bench = .ok all left) :
    bench.specimen.circuit.Reaches count left.specimen.circuit := by
  induction count generalizing vectors bench with
  | zero =>
    cases run
    exact .refl _
  | succ count ih =>
    obtain ⟨vector, between, first, rest⟩ := Action.bind_eq_ok_iff.mp run
    obtain ⟨-, -, reaches⟩ := runCycle_of_ok first
    rw [Nat.add_comm]
    exact reaches.trans (ih rest)

end Bench

/-- A golden run that succeeds gives a vector for each of its cycles, in order, and each vector has
a value for every pin. -/
theorem Specimen.goldenRun_of_ok {plan : RunPlan} {specimen left : Specimen}
    {vectors : List GoldenVector} (run : goldenRun plan specimen = .ok vectors left) :
    vectors.map (·.cycle) = List.range' specimen.circuit.cycle plan.cycles.toNat ∧
      ∀ vector ∈ vectors, vector.Covers specimen.circuit := by
  unfold goldenRun at run
  split at run
  next all bench cycles_run =>
    cases run
    obtain ⟨later, all_eq, cycles, covers⟩ := Bench.runCycles_of_ok cycles_run
    rw [List.nil_append] at all_eq
    rw [all_eq]
    exact ⟨cycles, covers⟩
  next => contradiction

theorem Specimen.goldenRun_reaches {plan : RunPlan} {specimen left : Specimen}
    {vectors : List GoldenVector} (run : goldenRun plan specimen = .ok vectors left) :
    specimen.circuit.Reaches plan.cycles.toNat left.circuit := by
  unfold goldenRun at run
  split at run
  next all bench cycles_run =>
    cases run
    exact Bench.runCycles_reaches cycles_run
  next => contradiction

end GoldenCircuit
