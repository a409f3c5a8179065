import GoldenCircuit.Proofs.Specimen

/-! What a step does to any circuit, told from outside: why it stops, and what is different once it
has completed a cycle. One of the two is always the case, and never both. A step that stops leaves
everything as it was, however far it came. -/
namespace GoldenCircuit

/-- Why a step stops. The causes are looked for in this order, and the first one is reported. -/
inductive Circuit.Stops (circuit : Circuit) : Fault → Prop
  /-- An input has no value, and all inputs before it have one. -/
  | uninitialized {earlier later : List Nat} {id : Nat}
      (inputs : circuit.inputs.toList = earlier ++ id :: later)
      (known : ∀ other ∈ earlier, (circuit.netlist.signal other).history.entries ≠ #[])
      (unknown : (circuit.netlist.signal id).history.entries = #[]) :
      circuit.Stops (.uninitialized (circuit.netlist.signal id).name)
  | noOutput (driven : circuit.Driven) (none : circuit.outputs = #[]) :
      circuit.Stops (.outputOutOfRange 0 0)
  /-- The first output was recorded for a cycle to come. -/
  | overtaken (driven : circuit.Driven) {shown : Nat} (output : circuit.outputs[0]? = some shown)
      {last : Entry} (latest : (circuit.netlist.signal shown).history.latest? = some last)
      (ahead : circuit.cycle < last.cycle) :
      circuit.Stops (.cycleRegression (circuit.netlist.signal shown).name circuit.cycle last.cycle)

namespace Specimen

/-- How a step completes a cycle. The inputs hold these values, and the first output takes their
AND, started from all ones and cut to the width of its signal where that is known. An entry for the
cycle is replaced, and nothing else changes but the number of the cycle. -/
structure Completes (before : Specimen) (inputs : List Nat) (shown : Nat) (after : Specimen) :
    Prop where
  held : List.Forall₂
    (fun value id => (before.circuit.netlist.signal id).history.value? = some value) inputs
    before.circuit.inputs.toList
  output : before.circuit.outputs[0]? = some shown
  upTo : (before.circuit.netlist.signal shown).history.UpTo before.circuit.cycle
  entries :
    let all := conjunction ((2 ^ before.width.bits - 1) :: inputs)
    let value := match (before.circuit.netlist.signal shown).width with
      | some width => all % 2 ^ width.bits
      | none => all
    (after.circuit.netlist.signal shown).history.entries.toList =
      (before.circuit.netlist.signal shown).history.entries.toList.filter
        (·.cycle < before.circuit.cycle) ++ [⟨before.circuit.cycle, value⟩]
  others : ∀ id ≠ shown, after.circuit.netlist.signal id = before.circuit.netlist.signal id
  alike : before.circuit.Alike after.circuit
  index : after.circuit.netlist.index = before.circuit.netlist.index
  serial : after.circuit.netlist.serial = before.circuit.netlist.serial
  cycle : after.circuit.cycle = before.circuit.cycle + 1
  name : after.name = before.name
  width : after.width = before.width

theorem expected_of_inputValues {specimen : Specimen} {inputs : List Nat}
    (looked : specimen.circuit.inputValues = .ok inputs) :
    specimen.expected = .ok (conjunction ((2 ^ specimen.width.bits - 1) :: inputs)) :=
  expected_eq_ok_iff.mpr ⟨inputs, looked, by rw [Width.mask_eq, conjunction]⟩

theorem step_of_stops {specimen : Specimen} {fault : Fault}
    (stops : specimen.circuit.Stops fault) : step specimen = .error fault specimen := by
  have known (driven : specimen.circuit.Driven) : ∃ value, specimen.expected = .ok value := by
    obtain ⟨inputs, looked⟩ := driven.inputValues
    exact ⟨_, expected_of_inputValues looked⟩
  cases stops with
  | uninitialized inputs known unknown =>
    exact step_of_unknown
      (Circuit.inputValues_eq_error_iff.mpr ⟨_, _, _, inputs, known, unknown, rfl⟩)
  | noOutput driven none =>
    obtain ⟨value, expected⟩ := known driven
    have stopped := step_of_noOutput expected (by simp [none])
    rwa [none] at stopped
  | overtaken driven output latest ahead =>
    obtain ⟨value, expected⟩ := known driven
    exact step_of_refused expected output
      (Signal.refusal?_eq_some_iff.mpr ⟨_, latest, ahead, rfl⟩)

theorem completes_record {specimen : Specimen} {inputs : List Nat} {shown : Nat}
    (looked : specimen.circuit.inputValues = .ok inputs)
    (output : specimen.circuit.outputs[0]? = some shown)
    (upTo : (specimen.circuit.netlist.signal shown).history.UpTo specimen.circuit.cycle) :
    specimen.Completes inputs shown (specimen.withCircuit (specimen.circuit.record shown
      (conjunction ((2 ^ specimen.width.bits - 1) :: inputs))).advance) := by
  have within := Circuit.output_lt output
  constructor
  case held => exact Circuit.inputValues_eq_ok_iff.mp looked
  case output => exact output
  case upTo => exact upTo
  case entries =>
    intro all value
    show ((specimen.circuit.netlist.record shown all specimen.circuit.cycle).signal
      shown).history.entries.toList = _
    have cut : value = (specimen.circuit.netlist.signal shown).fit all :=
      (Signal.fit_eq _ all).symm
    rw [Netlist.signal_record_self within, Signal.history_record, cut]
    exact History.toList_record _ upTo
  case others => exact fun id different => Netlist.signal_record_of_ne within different _ _
  case alike => exact (specimen.circuit.alike_record within _).trans (Circuit.alike_advance _)
  case index => rfl
  case serial => rfl
  case cycle => rfl
  case name => rfl
  case width => rfl

/-- What a completed cycle leaves behind is settled by what was there before it. -/
theorem Completes.unique {before one other : Specimen} {inputs : List Nat} {shown : Nat}
    (first : before.Completes inputs shown one) (second : before.Completes inputs shown other) :
    one = other := by
  have alike := first.alike.symm.trans second.alike
  have signal : ∀ id, one.circuit.netlist.signal id = other.circuit.netlist.signal id := by
    intro id
    by_cases here : id = shown
    · subst here
      exact Signal.ext_of_entries (alike.name id) (alike.width id)
        (first.entries.trans second.entries.symm)
    · rw [first.others id here, second.others id here]
  have circuit : one.circuit = other.circuit :=
    alike.ext_of_signal signal (first.index.trans second.index.symm)
      (first.serial.trans second.serial.symm) (first.cycle.trans second.cycle.symm)
  exact ext_of_parts (first.name.trans second.name.symm) (first.width.trans second.width.symm)
    circuit

theorem step_of_completes {specimen left : Specimen} {inputs : List Nat} {shown : Nat}
    (completes : specimen.Completes inputs shown left) : step specimen = .ok () left := by
  have looked := Circuit.inputValues_eq_ok_iff.mpr completes.held
  rw [step_of_upTo (expected_of_inputValues looked) completes.output completes.upTo]
  rw [(completes_record looked completes.output completes.upTo).unique completes]

/-- Whatever the specimen, its step has a cause to stop or completes a cycle. -/
theorem stops_or_completes (specimen : Specimen) :
    (∃ fault, specimen.circuit.Stops fault) ∨
      ∃ inputs shown left, specimen.Completes inputs shown left := by
  cases looked : specimen.circuit.inputValues with
  | error fault =>
    obtain ⟨earlier, id, later, inputs, known, unknown⟩ := mapM_eq_error_iff.mp looked
    refine .inl ⟨_, .uninitialized inputs (fun other member => ?_) ?_⟩
    · exact Signal.exists_value_iff.mp (known other member)
    · exact (Signal.value_eq_error_iff.mp unknown).1
  | ok inputs =>
    have driven := Circuit.driven_of_inputValues looked
    cases output : specimen.circuit.outputs[0]? with
    | none => exact .inl ⟨_, .noOutput driven (by simpa using output)⟩
    | some shown =>
      cases refusal : specimen.circuit.netlist.refusal? shown specimen.circuit.cycle with
      | some fault =>
        obtain ⟨last, latest, ahead, _⟩ := Signal.refusal?_eq_some_iff.mp refusal
        exact .inl ⟨_, .overtaken driven output latest ahead⟩
      | none =>
        have upTo := Signal.refusal?_eq_none_iff.mp refusal
        exact .inr ⟨inputs, shown, _, completes_record looked output upTo⟩

/-- A step fails exactly where a cause to stop is found, with that cause, and then leaves the
specimen as it was; it succeeds exactly where a cycle can be completed, and leaves what that
leaves. -/
theorem step_outcome (specimen left : Specimen) :
    (∀ fault, step specimen = .error fault left ↔
      specimen.circuit.Stops fault ∧ left = specimen) ∧
    (step specimen = .ok () left ↔ ∃ inputs shown, specimen.Completes inputs shown left) := by
  constructor
  · intro fault
    constructor
    · intro failed
      rcases specimen.stops_or_completes with ⟨cause, stops⟩ | ⟨inputs, shown, next, completes⟩
      · cases failed.symm.trans (step_of_stops stops)
        exact ⟨stops, rfl⟩
      · cases failed.symm.trans (step_of_completes completes)
    · rintro ⟨stops, rfl⟩
      exact step_of_stops stops
  · constructor
    · intro done
      rcases specimen.stops_or_completes with ⟨cause, stops⟩ | ⟨inputs, shown, next, completes⟩
      · cases done.symm.trans (step_of_stops stops)
      · cases done.symm.trans (step_of_completes completes)
        exact ⟨inputs, shown, completes⟩
    · rintro ⟨inputs, shown, completes⟩
      exact step_of_completes completes

end Specimen
end GoldenCircuit
