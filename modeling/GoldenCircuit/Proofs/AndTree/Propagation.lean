import GoldenCircuit.Proofs.AndTree.Recording

/-! Gate by gate evaluation of a tree. Settling the gates in the order of their construction gives
each of them the AND of the inputs so far, and the last one what the next step records. -/
namespace GoldenCircuit

theorem Netlist.settle_of_known {netlist : Netlist} {gate : Gate} {value cycle : Nat}
    (known : netlist.evaluate gate = .ok value)
    (upTo : (netlist.signal gate.dest).history.UpTo cycle) :
    settle gate cycle netlist = .ok value (netlist.record gate.dest value cycle) := by
  have looked : Action.read (·.evaluate gate) netlist = .ok value netlist := by
    simp only [Action.read, known]
  exact (Action.bind_of_ok looked _).trans (Action.bind_of_ok (update_of_upTo value upTo) _)

namespace AndTree

/-- The netlist of a tree while its gates are being settled at a cycle, after the first stages: the
inputs still hold their values, the last settled stage holds the AND of the inputs so far, and the
results of all other stages can be recorded. -/
structure Settled (tree : AndTree) (cycle : Nat) (inputs : List Nat) (stages : Nat)
    (netlist : Netlist) : Prop where
  size : netlist.size = 2 * (tree.depth + 1)
  width : ∀ id < 2 * (tree.depth + 1), (netlist.signal id).width = some tree.width
  input : ∀ index ≤ tree.depth, (netlist.signal (2 * index)).history.value? = inputs[index]?
  result : 0 < stages → (netlist.signal (2 * stages - 1)).history.value? =
    some (conjunction (inputs.take stages))
  pending : ∀ stage, stages ≤ stage → (netlist.signal (2 * stage + 1)).history.UpTo cycle

theorem evaluate_stageGate {netlist : Netlist} {width : Width} {stage before input : Nat}
    (left : (netlist.signal (2 * stage - 1)).history.value? = some before)
    (right : (netlist.signal (2 * stage)).history.value? = some input) :
    netlist.evaluate (stageGate width stage) = .ok (truncate (before &&& input) width) := by
  have left : netlist.value (2 * stage - 1) = .ok before := Signal.value_eq_ok_iff.mpr left
  have right : netlist.value (2 * stage) = .ok input := Signal.value_eq_ok_iff.mpr right
  simp only [Netlist.evaluate, stageGate, left, right, List.foldlM_cons, List.foldlM_nil, bind,
    Except.bind, pure, Except.pure, Opcode.apply]

namespace Settled

variable {tree : AndTree} {cycle stages : Nat} {inputs : List Nat} {netlist : Netlist}

/-- The next gate computes the AND of one more input. -/
theorem evaluate (settled : Settled tree cycle inputs stages netlist)
    (length : inputs.length = tree.depth + 1) (fits : ∀ value ∈ inputs, value < 2 ^ tree.width.bits)
    (within : stages ≤ tree.depth) :
    netlist.evaluate (stageGate tree.width stages) =
      .ok (conjunction (inputs.take (stages + 1))) := by
  have inside : stages < inputs.length := by omega
  have input : (netlist.signal (2 * stages)).history.value? = some inputs[stages] := by
    rw [settled.input stages within, List.getElem?_eq_getElem inside]
  have conjunction_fits : conjunction (inputs.take (stages + 1)) < 2 ^ tree.width.bits :=
    conjunction_lt (Nat.two_pow_pos _) fun value member => fits value (List.mem_of_mem_take member)
  obtain ⟨before, left, joined⟩ : ∃ before,
      (netlist.signal (2 * stages - 1)).history.value? = some before ∧
      before &&& inputs[stages] = conjunction (inputs.take (stages + 1)) := by
    by_cases first : stages = 0
    · subst first
      exact ⟨inputs[0], input, by
        rw [Nat.and_self, List.take_succ_eq_append_getElem inside]
        rfl⟩
    · exact ⟨_, settled.result (by omega), (conjunction_take_succ (by omega) inside).symm⟩
  rw [evaluate_stageGate left input, joined, truncate_of_lt conjunction_fits]

theorem record (settled : Settled tree cycle inputs stages netlist)
    (fits : ∀ value ∈ inputs, value < 2 ^ tree.width.bits) (within : stages ≤ tree.depth) :
    Settled tree cycle inputs (stages + 1)
      (netlist.record (2 * stages + 1) (conjunction (inputs.take (stages + 1))) cycle) := by
  have within_tree : 2 * stages + 1 < 2 * (tree.depth + 1) := by omega
  have id_lt : 2 * stages + 1 < netlist.size := settled.size ▸ within_tree
  have conjunction_fits : conjunction (inputs.take (stages + 1)) < 2 ^ tree.width.bits :=
    conjunction_lt (Nat.two_pow_pos _) fun value member => fits value (List.mem_of_mem_take member)
  have other {id : Nat} (different : id ≠ 2 * stages + 1) :
      (netlist.record (2 * stages + 1) (conjunction (inputs.take (stages + 1))) cycle).signal id =
        netlist.signal id :=
    Netlist.signal_record_of_ne id_lt different _ _
  refine
    { size := by rw [Netlist.size_record, settled.size]
      width := fun id inside => ?_
      input := fun index inside => by rw [other (by omega), settled.input index inside]
      result := fun _ => ?_
      pending := fun stage later => ?_ }
  · rw [Netlist.signal_record _ id_lt]
    split
    next => exact settled.width _ within_tree
    next => exact settled.width id inside
  · rw [show 2 * (stages + 1) - 1 = 2 * stages + 1 by omega, Netlist.signal_record_self id_lt,
      Signal.history_record, (settled.pending stages (Nat.le_refl _)).value?_record,
      Signal.fit_of_lt (settled.width _ within_tree) conjunction_fits]
  · rw [other (by omega)]
    exact settled.pending stage (by omega)

/-- Settling the remaining gates, so many of them. -/
theorem propagate (settled : Settled tree cycle inputs stages netlist)
    (length : inputs.length = tree.depth + 1) (fits : ∀ value ∈ inputs, value < 2 ^ tree.width.bits)
    {remaining : Nat} (all : stages + remaining = tree.depth + 1) :
    ∃ final, Netlist.propagate ((List.range' stages remaining).map (stageGate tree.width)) cycle
      netlist = .ok ((List.range' stages remaining).map fun stage =>
        conjunction (inputs.take (stage + 1))) final := by
  induction remaining generalizing stages netlist with
  | zero => exact ⟨netlist, rfl⟩
  | succ remaining ih =>
    have within : stages ≤ tree.depth := by omega
    have first := Netlist.settle_of_known (settled.evaluate length fits within)
      (settled.pending stages (Nat.le_refl _))
    obtain ⟨final, rest⟩ := ih (settled.record fits within) (by omega)
    refine ⟨final, ?_⟩
    rw [List.range'_succ, List.map_cons, List.map_cons, Netlist.propagate, List.mapM_cons]
    exact (Action.bind_of_ok first _).trans (Action.bind_of_ok rest _)

end Settled

theorem Recorded.settled {tree : AndTree} {circuit : Circuit} (recorded : Recorded tree circuit)
    {inputs : List Nat} (known : circuit.inputValues = .ok inputs) :
    Settled tree circuit.cycle inputs 0 circuit.netlist where
  size := recorded.size
  width _ within := recorded.signal_width within
  input index within := by
    have place : circuit.inputs.toList[index]? = some (2 * index) := by
      rw [Array.getElem?_toList, recorded.getElem?_inputs, if_pos within]
    have looked := congrArg (·[index]?) (mapM_eq_ok_iff.mp known)
    simp only [List.getElem?_map, place, Option.map_some] at looked
    obtain ⟨value, found, same⟩ := Option.map_eq_some_iff.mp looked.symm
    rw [found]
    exact Signal.value_eq_ok_iff.mp same.symm
  result none := absurd none (Nat.lt_irrefl 0)
  pending stage _ := recorded.upTo _

/-- A specimen of the tree with an input that was driven. -/
def ReachedDriven (tree : AndTree) (index : Nat) (specimen : Specimen) : Prop :=
  Reached tree specimen ∧
    (specimen.circuit.netlist.signal (2 * index)).history.entries ≠ #[]

theorem Recorded.nonempty_record_input {tree : AndTree} {circuit : Circuit}
    (recorded : Recorded tree circuit) {index : Nat} (within : index ≤ tree.depth) (value : Nat) :
    ((circuit.record (2 * index) value).netlist.signal (2 * index)).history.entries ≠ #[] := by
  have id_lt : 2 * index < circuit.netlist.size := by
    rw [recorded.size]
    omega
  intro empty
  have entries := History.toList_record
    ((circuit.netlist.signal (2 * index)).fit value) (recorded.upTo (2 * index))
  rw [Circuit.netlist_record, Netlist.signal_record_self id_lt, Signal.history_record] at empty
  simp [empty] at entries

theorem keeps_poke_driven {tree : AndTree} {index : Nat} (other value : Nat) :
    Action.Keeps (ReachedDriven tree index) (Specimen.poke other value) := by
  rintro specimen ⟨reached, driven⟩
  refine ⟨Reached.keeps_poke other value specimen reached, ?_⟩
  have found := reached.recorded.getElem?_inputs other
  split at found
  next within =>
    rw [Specimen.after_poke_of_some found]
    by_cases same : other = index
    · subst same
      exact reached.recorded.nonempty_record_input within value
    · have id_lt : 2 * other < specimen.circuit.netlist.size := by
        rw [reached.recorded.size]
        omega
      rw [Specimen.circuit_withCircuit, Circuit.netlist_record,
        Netlist.signal_record_of_ne id_lt (by omega)]
      exact driven
  next =>
    rw [Specimen.after_poke_of_none found]
    exact driven

theorem keeps_step_driven {tree : AndTree} {index : Nat} :
    Action.Keeps (ReachedDriven tree index) Specimen.step := by
  rintro specimen ⟨reached, driven⟩
  refine ⟨Reached.keeps_step specimen reached, ?_⟩
  cases known : specimen.circuit.inputValues with
  | error fault =>
    rw [Action.after_of_error (Specimen.step_of_unknown known)]
    exact driven
  | ok values =>
    rw [Action.after_of_ok (reached.step_of_known known)]
    show ((specimen.circuit.netlist.record tree.shown _ _).signal (2 * index)).history.entries ≠ #[]
    rw [Netlist.signal_record_of_ne reached.recorded.shown_lt_size (by rw [shown]; omega)]
    exact driven

/-- A poke gives an input a value, and no later command takes it away. -/
theorem driven_of_poked (tree : AndTree) {commands : List Command}
    (poked : ∀ index ≤ tree.depth, ∃ value, Command.poke index value ∈ commands) :
    (tree.specimen.performing commands).circuit.Driven := by
  intro id member
  rw [← (tree.reached_performing commands).recorded.alike.inputs, mem_inputs_iff] at member
  obtain ⟨index, within, rfl⟩ := member
  obtain ⟨value, given⟩ := poked index within
  obtain ⟨earlier, later, rfl⟩ := List.append_of_mem given
  have reached := tree.reached_performing earlier
  have found := reached.recorded.getElem?_inputs index
  rw [if_pos within] at found
  rw [Specimen.performing, List.foldl_append, List.foldl_cons]
  have driven : ReachedDriven tree index
      ((Command.poke index value).perform (tree.specimen.performing earlier)) := by
    refine ⟨Reached.keeps_poke index value _ reached, ?_⟩
    show (((Specimen.poke index value).after _).circuit.netlist.signal _).history.entries ≠ #[]
    rw [Specimen.after_poke_of_some found]
    exact reached.recorded.nonempty_record_input within value
  exact (Specimen.performing_keeps keeps_poke_driven keeps_step_driven later driven).2

/-- In every state of a session in which each input was driven, settling all gates on a copy of the
netlist succeeds. Each gate computes the AND of the inputs up to its own, and what the last one
computes is what the next step records at the output for the present cycle. -/
theorem propagate_eq_step (tree : AndTree) (commands : List Command)
    (driven : (tree.specimen.performing commands).circuit.Driven) :
    let specimen := tree.specimen.performing commands
    let circuit := specimen.circuit
    ∃ inputs values settled last next output,
      circuit.inputValues = .ok inputs ∧ inputs.length = tree.depth + 1 ∧
      Netlist.propagate circuit.gates.toList circuit.cycle circuit.netlist = .ok values settled ∧
      values = (List.range (tree.depth + 1)).map (fun stage =>
        conjunction (inputs.take (stage + 1))) ∧
      values.getLast? = some last ∧ circuit.outputs = #[output] ∧
      Specimen.step specimen = .ok () next ∧
      (next.circuit.netlist.signal output).history.latest? = some ⟨circuit.cycle, last⟩ := by
  intro specimen circuit
  have reached : Reached tree specimen := tree.reached_performing commands
  have recorded : Recorded tree circuit := reached.recorded
  obtain ⟨inputs, known⟩ := driven.inputValues
  have held : circuit.inputsAt circuit.cycle = .ok inputs := by
    rw [Circuit.inputsAt_eq_inputValues recorded.upTo]
    exact known
  have length := recorded.length_inputsAt held
  obtain ⟨settled, run⟩ := (recorded.settled known).propagate length (recorded.inputsAt_lt held)
    (Nat.zero_add _)
  rw [← List.range_eq_range', ← gates_circuit, recorded.alike.gates] at run
  refine ⟨inputs, _, settled, conjunction inputs, _, tree.shown, known, length, run, rfl, ?_, ?_,
    reached.step_of_known known, ?_⟩
  · rw [List.range_succ, List.map_append, List.map_singleton, List.getLast?_concat, ← length,
      List.take_length]
  · rw [← recorded.alike.outputs, outputs_circuit, shown]
  · show History.latest? _ = _
    rw [History.latest?, ← Array.getLast?_toList, Specimen.circuit_withCircuit,
      recorded.entries_complete held, List.getLast?_concat]

/-- An input that is driven before the first step only, and one that is driven again after it. -/
theorem propagate_eq_step_of_repoked :
    let tree : AndTree := { width := ⟨4, by decide⟩, depth := 1 }
    let specimen := tree.specimen.performing [.poke 0 13, .poke 1 7, .step, .poke 1 6]
    let circuit := specimen.circuit
    circuit.Driven ∧ ∃ inputs values settled last next output,
      circuit.inputValues = .ok inputs ∧ inputs.length = tree.depth + 1 ∧
      Netlist.propagate circuit.gates.toList circuit.cycle circuit.netlist = .ok values settled ∧
      values = (List.range (tree.depth + 1)).map (fun stage =>
        conjunction (inputs.take (stage + 1))) ∧
      values.getLast? = some last ∧ circuit.outputs = #[output] ∧
      Specimen.step specimen = .ok () next ∧
      (next.circuit.netlist.signal output).history.latest? = some ⟨circuit.cycle, last⟩ :=
  ⟨by decide, propagate_eq_step _ _ (by decide)⟩

end AndTree
end GoldenCircuit
