import GoldenCircuit.Specimen
import GoldenCircuit.Proofs.Circuit

/-! What a poke and a step do to a specimen: a poke is one of its circuit, and a step records what
the reference expects and goes on, or stops before anything is changed. -/
namespace GoldenCircuit.Specimen

/-- The specimen with another circuit in it. -/
def withCircuit (specimen : Specimen) (circuit : Circuit) : Specimen :=
  { specimen with circuit }

theorem ext_of_parts {one other : Specimen} (name : one.name = other.name)
    (width : one.width = other.width) (circuit : one.circuit = other.circuit) : one = other := by
  cases one
  cases other
  simp_all only

@[simp]
theorem circuit_withCircuit (specimen : Specimen) (circuit : Circuit) :
    (specimen.withCircuit circuit).circuit = circuit :=
  rfl

theorem onCircuit_of_ok {Answer : Type} {action : Action Circuit Answer} {specimen : Specimen}
    {answer : Answer} {left : Circuit} (run : action specimen.circuit = .ok answer left) :
    onCircuit action specimen = .ok answer (specimen.withCircuit left) := by
  simp only [onCircuit, Action.within, run, withCircuit]

theorem onCircuit_of_error {Answer : Type} {action : Action Circuit Answer} {specimen : Specimen}
    {fault : Fault} (run : action specimen.circuit = .error fault specimen.circuit) :
    onCircuit action specimen = .error fault specimen := by
  simp only [onCircuit, Action.within, run]

theorem after_onCircuit {Answer : Type} (action : Action Circuit Answer) (specimen : Specimen) :
    (onCircuit action).after specimen = specimen.withCircuit (action.after specimen.circuit) :=
  Action.after_within _ action specimen

theorem poke_of_upTo {specimen : Specimen} {index id : Nat}
    (found : specimen.circuit.inputs[index]? = some id) (value : Nat)
    (upTo : (specimen.circuit.netlist.signal id).history.UpTo specimen.circuit.cycle) :
    poke index value specimen =
      .ok () (specimen.withCircuit (specimen.circuit.record id value)) :=
  onCircuit_of_ok ((Circuit.poke_of_some found value).trans (Circuit.update_of_upTo value upTo))

theorem after_poke_of_some {specimen : Specimen} {index id : Nat}
    (found : specimen.circuit.inputs[index]? = some id) (value : Nat) :
    (poke index value).after specimen =
      specimen.withCircuit (specimen.circuit.record id value) := by
  rw [poke, after_onCircuit, Circuit.after_poke_of_some found]

theorem after_poke_of_none {specimen : Specimen} {index : Nat}
    (missing : specimen.circuit.inputs[index]? = none) (value : Nat) :
    (poke index value).after specimen = specimen := by
  rw [poke, after_onCircuit, Circuit.after_poke_of_none missing]
  rfl

/-- A poke fails and leaves the specimen alone, or it records a value of an input. -/
theorem poke_cases (specimen : Specimen) (index value : Nat) :
    (∃ fault, poke index value specimen = .error fault specimen) ∨
    ∃ id, specimen.circuit.inputs[index]? = some id ∧
      (specimen.circuit.netlist.signal id).history.UpTo specimen.circuit.cycle ∧
      poke index value specimen =
        .ok () (specimen.withCircuit (specimen.circuit.record id value)) := by
  cases found : specimen.circuit.inputs[index]? with
  | none => exact .inl ⟨_, onCircuit_of_error (Circuit.poke_of_none found value)⟩
  | some id =>
    cases refusal : specimen.circuit.netlist.refusal? id specimen.circuit.cycle with
    | some fault =>
      exact .inl ⟨fault, onCircuit_of_error
        ((Circuit.poke_of_some found value).trans (Circuit.update_of_refused refusal value))⟩
    | none =>
      have upTo := Signal.refusal?_eq_none_iff.mp refusal
      exact .inr ⟨id, rfl, upTo, poke_of_upTo found value upTo⟩

theorem expected_eq_ok_iff {specimen : Specimen} {value : Nat} :
    specimen.expected = .ok value ↔ ∃ inputs, specimen.circuit.inputValues = .ok inputs ∧
      inputs.foldl (· &&& ·) specimen.width.mask = value := by
  simp only [expected, bind_eq_ok_iff, pure, Except.pure, Except.ok.injEq]

theorem step_of_unknown {specimen : Specimen} {fault : Fault}
    (unknown : specimen.circuit.inputValues = .error fault) :
    step specimen = .error fault specimen := by
  have stopped : Action.read expected specimen = .error fault specimen := by
    simp only [Action.read, expected, unknown, bind, Except.bind]
  exact Action.bind_of_error stopped _

theorem step_of_upTo {specimen : Specimen} {value id : Nat}
    (known : specimen.expected = .ok value) (found : specimen.circuit.outputs[0]? = some id)
    (upTo : (specimen.circuit.netlist.signal id).history.UpTo specimen.circuit.cycle) :
    step specimen =
      .ok () (specimen.withCircuit (specimen.circuit.record id value).advance) := by
  have looked : Action.read expected specimen = .ok value specimen := by
    simp only [Action.read, known]
  have recorded : onCircuit (Circuit.recordOutput 0 value) specimen =
      .ok () (specimen.withCircuit (specimen.circuit.record id value)) :=
    onCircuit_of_ok
      ((Circuit.recordOutput_of_some found value).trans (Circuit.update_of_upTo value upTo))
  exact (Action.bind_of_ok looked _).trans (Action.bind_of_ok recorded _)

theorem step_of_stopped {specimen : Specimen} {value : Nat} {fault : Fault}
    (known : specimen.expected = .ok value)
    (stopped : Circuit.recordOutput 0 value specimen.circuit = .error fault specimen.circuit) :
    step specimen = .error fault specimen := by
  have looked : Action.read expected specimen = .ok value specimen := by
    simp only [Action.read, known]
  exact (Action.bind_of_ok looked _).trans (Action.bind_of_error (onCircuit_of_error stopped) _)

theorem step_of_noOutput {specimen : Specimen} {value : Nat} (known : specimen.expected = .ok value)
    (missing : specimen.circuit.outputs[0]? = none) :
    step specimen = .error (.outputOutOfRange 0 specimen.circuit.outputs.size) specimen :=
  step_of_stopped known (Circuit.recordOutput_of_none missing value)

theorem step_of_refused {specimen : Specimen} {value id : Nat} {fault : Fault}
    (known : specimen.expected = .ok value) (found : specimen.circuit.outputs[0]? = some id)
    (refused : specimen.circuit.netlist.refusal? id specimen.circuit.cycle = some fault) :
    step specimen = .error fault specimen :=
  step_of_stopped known
    ((Circuit.recordOutput_of_some found value).trans (Circuit.update_of_refused refused value))

/-- A step fails and leaves the specimen alone, or it completes a cycle. -/
theorem step_cases (specimen : Specimen) :
    (∃ fault, step specimen = .error fault specimen) ∨
    ∃ value id, specimen.expected = .ok value ∧ specimen.circuit.outputs[0]? = some id ∧
      (specimen.circuit.netlist.signal id).history.UpTo specimen.circuit.cycle ∧
      step specimen =
        .ok () (specimen.withCircuit (specimen.circuit.record id value).advance) := by
  cases known : specimen.expected with
  | error fault =>
    have looked : Action.read expected specimen = .error fault specimen := by
      simp only [Action.read, known]
    exact .inl ⟨fault, Action.bind_of_error looked _⟩
  | ok value =>
    cases found : specimen.circuit.outputs[0]? with
    | none => exact .inl ⟨_, step_of_noOutput known found⟩
    | some id =>
      cases refusal : specimen.circuit.netlist.refusal? id specimen.circuit.cycle with
      | some fault => exact .inl ⟨fault, step_of_refused known found refusal⟩
      | none =>
        have upTo := Signal.refusal?_eq_none_iff.mp refusal
        exact .inr ⟨value, id, rfl, rfl, upTo, step_of_upTo known found upTo⟩

section Keeps

variable {invariant : Circuit → Prop}
  (record : ∀ {circuit : Circuit}, invariant circuit → ∀ {id : Nat}, id < circuit.netlist.size →
    ∀ value, invariant (circuit.record id value))

include record

/-- What recording any value keeps true of a circuit, a poke keeps. -/
theorem keeps_poke (index value : Nat) :
    Action.Keeps (invariant ·.circuit) (poke index value) := by
  intro specimen holds
  cases found : specimen.circuit.inputs[index]? with
  | none =>
    rw [after_poke_of_none found]
    exact holds
  | some id =>
    rw [after_poke_of_some found]
    exact record holds (Circuit.input_lt found) value

theorem keeps_step
    (advance : ∀ {circuit : Circuit}, invariant circuit → invariant circuit.advance) :
    Action.Keeps (invariant ·.circuit) step := by
  intro specimen holds
  rcases step_cases specimen with ⟨fault, stopped⟩ | ⟨value, id, _, found, _, done⟩
  · rw [Action.after_of_error stopped]
    exact holds
  · rw [Action.after_of_ok done]
    exact advance (record holds (Circuit.output_lt found) value)

end Keeps

end GoldenCircuit.Specimen
