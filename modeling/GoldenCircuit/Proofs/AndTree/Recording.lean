import GoldenCircuit.Proofs.AndTree.Construction
import GoldenCircuit.Proofs.Session
import GoldenCircuit.Proofs.Specimen

/-! What a tree has recorded. After any session its output has one entry for each completed cycle,
the AND of what the inputs hold at that cycle. -/
namespace GoldenCircuit.AndTree

/-- The place of the output. -/
def shown (tree : AndTree) : Nat :=
  2 * tree.depth + 1

/-- The circuit of a tree in use. Nothing is recorded for a cycle to come, no value is too wide,
and of the gate results only the output has ever been recorded: once for each completed cycle, as
the AND of what the inputs hold then. -/
structure Recorded (tree : AndTree) (circuit : Circuit) : Prop where
  alike : tree.circuit.Alike circuit
  upTo : ∀ id, (circuit.netlist.signal id).history.UpTo circuit.cycle
  fits : ∀ id, (circuit.netlist.signal id).Fits tree.width
  inner : ∀ stage < tree.depth, (circuit.netlist.signal (2 * stage + 1)).history = .empty
  shown_size : (circuit.netlist.signal tree.shown).history.entries.size = circuit.cycle
  shown_entry : ∀ cycle < circuit.cycle, ∃ values, circuit.inputsAt cycle = .ok values ∧
    (circuit.netlist.signal tree.shown).history.entries[cycle]? = some ⟨cycle, conjunction values⟩

theorem recorded_circuit (tree : AndTree) : Recorded tree tree.circuit where
  alike := .refl _
  upTo id entry member := by
    rw [history_circuit] at member
    contradiction
  fits id entry member := by
    rw [history_circuit] at member
    contradiction
  inner stage _ := tree.history_circuit _
  shown_size := by
    rw [history_circuit]
    rfl
  shown_entry cycle past := absurd past (Nat.not_lt_zero cycle)

namespace Recorded

variable {tree : AndTree} {circuit : Circuit}

theorem size (recorded : Recorded tree circuit) :
    circuit.netlist.size = 2 * (tree.depth + 1) := by
  rw [← recorded.alike.size, size_netlist]

theorem signal_width (recorded : Recorded tree circuit) {id : Nat}
    (within : id < 2 * (tree.depth + 1)) :
    (circuit.netlist.signal id).width = some tree.width := by
  rw [← recorded.alike.width, width_circuit tree within]

theorem getElem?_inputs (recorded : Recorded tree circuit) (index : Nat) :
    circuit.inputs[index]? = if index ≤ tree.depth then some (2 * index) else none := by
  rw [← recorded.alike.inputs, tree.getElem?_inputs]

theorem getElem?_outputs (recorded : Recorded tree circuit) :
    circuit.outputs[0]? = some tree.shown := by
  rw [← recorded.alike.outputs, outputs_circuit]
  rfl

theorem shown_lt_size (recorded : Recorded tree circuit) : tree.shown < circuit.netlist.size := by
  rw [recorded.size, shown]
  omega

/-- The output was not recorded for the present cycle yet. -/
theorem cycle_lt_of_mem_shown (recorded : Recorded tree circuit) :
    ∀ entry ∈ (circuit.netlist.signal tree.shown).history.entries.toList,
      entry.cycle < circuit.cycle := by
  intro entry member
  obtain ⟨place, found⟩ := List.mem_iff_getElem?.mp member
  have within := (List.getElem?_eq_some_iff.mp found).1
  rw [Array.length_toList, recorded.shown_size] at within
  obtain ⟨values, _, entry_eq⟩ := recorded.shown_entry place within
  rw [Array.getElem?_toList, entry_eq, Option.some.injEq] at found
  rw [← found]
  exact within

theorem upTo_record (recorded : Recorded tree circuit) {id : Nat}
    (within : id < 2 * (tree.depth + 1)) (value other : Nat) :
    ((circuit.record id value).netlist.signal other).history.UpTo circuit.cycle := by
  rw [Circuit.netlist_record, Netlist.signal_record _ (recorded.size ▸ within)]
  split
  next => exact (recorded.upTo id).record _
  next => exact recorded.upTo other

theorem fits_record (recorded : Recorded tree circuit) {id : Nat}
    (within : id < 2 * (tree.depth + 1)) (value other : Nat) :
    ((circuit.record id value).netlist.signal other).Fits tree.width := by
  rw [Circuit.netlist_record, Netlist.signal_record _ (recorded.size ▸ within)]
  split
  next => exact (recorded.fits id).record (recorded.signal_width within) _ _
  next => exact recorded.fits other

theorem record_input (recorded : Recorded tree circuit) {index : Nat}
    (within : index ≤ tree.depth) (value : Nat) :
    Recorded tree (circuit.record (2 * index) value) := by
  have within_tree : 2 * index < 2 * (tree.depth + 1) := by omega
  have id_lt : 2 * index < circuit.netlist.size := recorded.size ▸ within_tree
  have other {id : Nat} (different : id ≠ 2 * index) :
      (circuit.record (2 * index) value).netlist.signal id = circuit.netlist.signal id :=
    Netlist.signal_record_of_ne id_lt different value _
  have shown_same := other (show tree.shown ≠ 2 * index by rw [shown]; omega)
  refine
    { alike := recorded.alike.trans (circuit.alike_record id_lt value)
      upTo := recorded.upTo_record within_tree value
      fits := recorded.fits_record within_tree value
      inner := fun stage inside => ?_
      shown_size := by rw [shown_same, recorded.shown_size, Circuit.cycle_record]
      shown_entry := fun cycle past => ?_ }
  · rw [other (by omega)]
    exact recorded.inner stage inside
  · obtain ⟨values, held, entry⟩ := recorded.shown_entry cycle past
    have inputs : circuit.inputs = (circuit.record (2 * index) value).inputs := rfl
    refine ⟨values, Circuit.inputsAt_of_same inputs (fun id _ => ?_) held, ?_⟩
    · exact (Netlist.valueAt_record_of_lt id_lt past value id).symm
    · rw [shown_same]
      exact entry

theorem length_inputs (recorded : Recorded tree circuit) :
    circuit.inputs.toList.length = tree.depth + 1 := by
  rw [← recorded.alike.inputs, inputs_circuit, List.length_map, List.length_range]

theorem length_inputsAt (recorded : Recorded tree circuit) {cycle : Nat} {values : List Nat}
    (held : circuit.inputsAt cycle = .ok values) : values.length = tree.depth + 1 :=
  (length_of_mapM held).trans recorded.length_inputs

theorem inputsAt_lt (recorded : Recorded tree circuit) {cycle : Nat} {values : List Nat}
    (held : circuit.inputsAt cycle = .ok values) :
    ∀ value ∈ values, value < 2 ^ tree.width.bits := by
  intro value member
  obtain ⟨id, _, found⟩ := exists_of_mem_mapM held member
  exact (recorded.fits id).valueAt?_lt (Signal.valueAt_eq_ok_iff.mp found)

theorem entries_complete (recorded : Recorded tree circuit) {values : List Nat}
    (held : circuit.inputsAt circuit.cycle = .ok values) :
    ((circuit.record tree.shown (conjunction values)).advance.netlist.signal
        tree.shown).history.entries.toList =
      (circuit.netlist.signal tree.shown).history.entries.toList ++
        [⟨circuit.cycle, conjunction values⟩] := by
  have known := recorded.signal_width (show tree.shown < _ by rw [shown]; omega)
  have fits : conjunction values < 2 ^ tree.width.bits :=
    conjunction_lt (Nat.two_pow_pos _) (recorded.inputsAt_lt held)
  have earlier : (circuit.netlist.signal tree.shown).history.entries.toList.filter
      (·.cycle < circuit.cycle) = (circuit.netlist.signal tree.shown).history.entries.toList :=
    List.filter_eq_self.mpr fun entry member =>
      decide_eq_true (recorded.cycle_lt_of_mem_shown entry member)
  show ((circuit.netlist.record tree.shown (conjunction values) circuit.cycle).signal
    tree.shown).history.entries.toList = _
  rw [Netlist.signal_record_self recorded.shown_lt_size, Signal.history_record,
    History.toList_record _ (recorded.upTo _), earlier, Signal.fit_of_lt known fits]

/-- Completing a cycle: the output takes the AND of the inputs, and the next cycle begins. -/
theorem complete (recorded : Recorded tree circuit) {values : List Nat}
    (known : circuit.inputValues = .ok values) :
    Recorded tree (circuit.record tree.shown (conjunction values)).advance := by
  have within_tree : tree.shown < 2 * (tree.depth + 1) := by
    rw [shown]
    omega
  have id_lt : tree.shown < circuit.netlist.size := recorded.size ▸ within_tree
  have other {id : Nat} (different : id ≠ tree.shown) :
      (circuit.record tree.shown (conjunction values)).advance.netlist.signal id =
        circuit.netlist.signal id :=
    Netlist.signal_record_of_ne id_lt different _ _
  have held : circuit.inputsAt circuit.cycle = .ok values := by
    rw [Circuit.inputsAt_eq_inputValues recorded.upTo, known]
  have entries := recorded.entries_complete held
  have size_eq : (circuit.netlist.signal tree.shown).history.entries.toList.length =
      circuit.cycle := by
    rw [Array.length_toList, recorded.shown_size]
  have inputs : circuit.inputs =
      (circuit.record tree.shown (conjunction values)).advance.inputs := rfl
  refine
    { alike := (recorded.alike.trans (circuit.alike_record id_lt _)).trans
        (Circuit.alike_advance _)
      upTo := fun id => (recorded.upTo_record within_tree _ id).mono (Nat.le_succ _)
      fits := recorded.fits_record within_tree _
      inner := fun stage inside => ?_
      shown_size := ?_
      shown_entry := fun cycle past => ?_ }
  · rw [other (by rw [shown]; omega)]
    exact recorded.inner stage inside
  · rw [← Array.length_toList, entries, List.length_append, size_eq]
    rfl
  · rw [← Array.getElem?_toList, entries]
    have unchanged {id : Nat} (member : id ∈ circuit.inputs) :
        (circuit.record tree.shown (conjunction values)).advance.netlist.signal id =
          circuit.netlist.signal id := by
      rw [← recorded.alike.inputs, mem_inputs_iff] at member
      obtain ⟨index, _, rfl⟩ := member
      exact other (by rw [shown]; omega)
    by_cases now : cycle = circuit.cycle
    · subst now
      refine ⟨values, Circuit.inputsAt_of_same inputs (fun id member => ?_) held, ?_⟩
      · rw [unchanged member]
      · rw [List.getElem?_append_right (Nat.le_of_eq size_eq), size_eq, Nat.sub_self]
        rfl
    · have before : cycle < circuit.cycle := Nat.lt_of_le_of_ne (Nat.le_of_lt_succ past) now
      obtain ⟨values, held, entry⟩ := recorded.shown_entry cycle before
      refine ⟨values, Circuit.inputsAt_of_same inputs (fun id member => ?_) held, ?_⟩
      · rw [unchanged member]
      · rw [List.getElem?_append_left (by omega), Array.getElem?_toList]
        exact entry

end Recorded

/-- A specimen of the tree during a session. -/
structure Reached (tree : AndTree) (specimen : Specimen) : Prop where
  name : specimen.name = familyName
  width : specimen.width = tree.width
  recorded : Recorded tree specimen.circuit

namespace Reached

variable {tree : AndTree} {specimen : Specimen}

/-- Once every input has a value, the reference expects their AND. -/
theorem expected_of_known (reached : Reached tree specimen) {values : List Nat}
    (known : specimen.circuit.inputValues = .ok values) :
    specimen.expected = .ok (conjunction values) := by
  have held : specimen.circuit.inputsAt specimen.circuit.cycle = .ok values := by
    rw [Circuit.inputsAt_eq_inputValues reached.recorded.upTo, known]
  have nonempty : values ≠ [] :=
    List.ne_nil_of_length_eq_add_one (reached.recorded.length_inputsAt held)
  rw [Specimen.expected_eq_ok_iff, reached.width]
  exact ⟨values, known, foldl_mask nonempty (reached.recorded.inputsAt_lt held)⟩

theorem step_of_known (reached : Reached tree specimen) {values : List Nat}
    (known : specimen.circuit.inputValues = .ok values) :
    Specimen.step specimen = .ok () (specimen.withCircuit
      (specimen.circuit.record tree.shown (conjunction values)).advance) :=
  Specimen.step_of_upTo (reached.expected_of_known known) reached.recorded.getElem?_outputs
    (reached.recorded.upTo _)

theorem keeps_poke (index value : Nat) :
    Action.Keeps (Reached tree) (Specimen.poke index value) := by
  intro specimen reached
  have found := reached.recorded.getElem?_inputs index
  split at found
  next within =>
    rw [Specimen.after_poke_of_some found]
    exact ⟨reached.name, reached.width, reached.recorded.record_input within value⟩
  next =>
    rw [Specimen.after_poke_of_none found]
    exact reached

theorem keeps_step : Action.Keeps (Reached tree) Specimen.step := by
  intro specimen reached
  cases known : specimen.circuit.inputValues with
  | error fault =>
    rw [Action.after_of_error (Specimen.step_of_unknown known)]
    exact reached
  | ok values =>
    rw [Action.after_of_ok (reached.step_of_known known)]
    exact ⟨reached.name, reached.width, reached.recorded.complete known⟩

end Reached

/-- Whatever is done with a tree, its recording is sound. -/
theorem reached_performing (tree : AndTree) (commands : List Command) :
    Reached tree (tree.specimen.performing commands) :=
  Specimen.performing_keeps Reached.keeps_poke Reached.keeps_step commands
    ⟨rfl, rfl, recorded_circuit tree⟩

/-- In every state that a session with a tree can reach, the history of the output has exactly one
entry for each completed cycle, in order, and its value is the AND of what the inputs hold at that
cycle. All of them hold a value of the tree's width then, however often and whenever they were
driven. -/
theorem shown_history_eq_conjunction (tree : AndTree) (commands : List Command) :
    let circuit := (tree.specimen.performing commands).circuit
    ∃ output, circuit.outputs = #[output] ∧
      (circuit.netlist.signal output).history.entries.size = circuit.cycle ∧
      ∀ cycle < circuit.cycle, ∃ values : List Nat,
        circuit.inputsAt cycle = .ok values ∧ values.length = tree.depth + 1 ∧
        (∀ value ∈ values, value < 2 ^ tree.width.bits) ∧
        (circuit.netlist.signal output).history.entries[cycle]? =
          some ⟨cycle, conjunction values⟩ := by
  intro circuit
  have recorded : Recorded tree circuit := (tree.reached_performing commands).recorded
  refine ⟨tree.shown, ?_, recorded.shown_size, fun cycle past => ?_⟩
  · rw [← recorded.alike.outputs, outputs_circuit, shown]
  · obtain ⟨values, held, entry⟩ := recorded.shown_entry cycle past
    exact ⟨values, held, recorded.length_inputsAt held, recorded.inputsAt_lt held, entry⟩

end GoldenCircuit.AndTree
