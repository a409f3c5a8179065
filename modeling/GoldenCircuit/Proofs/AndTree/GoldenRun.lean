import GoldenCircuit.Proofs.AndTree.Recording
import GoldenCircuit.Proofs.Stimulus

/-! Golden runs of a tree. From any state of a session a run succeeds, and what it drives and
expects is fixed by the tree and the seed alone; only the numbers of the cycles tell where it
started. -/
namespace GoldenCircuit

theorem Bench.onSpecimen_of_ok {Answer : Type} {action : Action Specimen Answer}
    {specimen left : Specimen} {answer : Answer} (run : action specimen = .ok answer left)
    (stimulus : Stimulus) : Bench.onSpecimen action { specimen, stimulus } =
      .ok answer { specimen := left, stimulus } := by
  simp only [Bench.onSpecimen, Action.within, run]

namespace AndTree

/-- What a golden run drives the inputs with in one of its cycles, counted from zero. -/
def drawn (tree : AndTree) (stimulus : Stimulus) (cycle : Nat) : List Nat :=
  (List.range (tree.depth + 1)).map fun index =>
    stimulus.value tree.width (cycle * (tree.depth + 1) + index)

theorem drawn_succ (tree : AndTree) (stimulus : Stimulus) (cycle : Nat) :
    tree.drawn stimulus (cycle + 1) =
      tree.drawn (stimulus.skip tree.width (tree.depth + 1)) cycle := by
  refine List.map_congr_left fun index _ => ?_
  rw [Stimulus.value_skip]
  congr 1
  rw [Nat.succ_mul]
  omega

/-- The vectors of a golden run of so many cycles. -/
def goldenVectors (tree : AndTree) (stimulus : Stimulus) (start count : Nat) :
    List GoldenVector :=
  (List.range count).map fun cycle =>
    { cycle := start + cycle
      inputs := tree.drawn stimulus cycle
      outputs := [conjunction (tree.drawn stimulus cycle)] }

theorem goldenVectors_succ (tree : AndTree) (stimulus : Stimulus) (start count : Nat) :
    tree.goldenVectors stimulus start (count + 1) =
      { cycle := start
        inputs := tree.drawn stimulus 0
        outputs := [conjunction (tree.drawn stimulus 0)] } ::
      tree.goldenVectors (stimulus.skip tree.width (tree.depth + 1)) (start + 1) count := by
  rw [goldenVectors, List.range_succ_eq_map, List.map_cons, List.map_map]
  congr 1
  refine List.map_congr_left fun cycle _ => ?_
  rw [Function.comp_apply, drawn_succ, Nat.add_right_comm, Nat.add_assoc]

namespace Reached

variable {tree : AndTree} {specimen : Specimen}

/-- Driving one input with the next value of the stimulus. -/
theorem driveInput (reached : Reached tree specimen) (stimulus : Stimulus) {index : Nat}
    (within : index ≤ tree.depth) :
    ∃ driven, Bench.driveInput index tree.width { specimen, stimulus } =
        .ok () { specimen := driven, stimulus := (stimulus.next tree.width).2 } ∧
      Reached tree driven ∧ driven.circuit.cycle = specimen.circuit.cycle ∧
      ∀ other, (driven.circuit.netlist.signal (2 * other)).history.value? =
        if other = index then some (stimulus.next tree.width).1
        else (specimen.circuit.netlist.signal (2 * other)).history.value? := by
  have recorded := reached.recorded
  have within_tree : 2 * index < 2 * (tree.depth + 1) := by omega
  have found := recorded.getElem?_inputs index
  rw [if_pos within] at found
  have poked := Specimen.poke_of_upTo found (stimulus.next tree.width).1 (recorded.upTo _)
  refine ⟨specimen.withCircuit (specimen.circuit.record (2 * index) (stimulus.next tree.width).1),
    Bench.onSpecimen_of_ok poked _, ⟨reached.name, reached.width, recorded.record_input within _⟩,
    rfl, fun other => ?_⟩
  rw [Specimen.circuit_withCircuit, Circuit.netlist_record,
    Netlist.signal_record _ (recorded.size ▸ within_tree)]
  by_cases same : other = index
  · subst same
    rw [if_pos rfl, if_pos rfl, Signal.history_record, (recorded.upTo _).value?_record,
      Signal.fit_of_lt (recorded.signal_width within_tree) (stimulus.next_lt _)]
  · rw [if_neg same, if_neg (by omega)]

/-- Driving all inputs from one on, so many of them, with the next values of the stimulus. -/
theorem driveInputs (reached : Reached tree specimen) (stimulus : Stimulus) {pins : List Pin}
    (widths : ∀ pin ∈ pins, pin.width = tree.width) {index : Nat}
    (all : index + pins.length = tree.depth + 1) :
    ∃ driven, ((pins.zipIdx index).forM fun (pin, index) => Bench.driveInput index pin.width)
        { specimen, stimulus } =
        .ok () { specimen := driven, stimulus := stimulus.skip tree.width pins.length } ∧
      Reached tree driven ∧ driven.circuit.cycle = specimen.circuit.cycle ∧
      ∀ other ≤ tree.depth, (driven.circuit.netlist.signal (2 * other)).history.value? =
        if index ≤ other then some (stimulus.value tree.width (other - index))
        else (specimen.circuit.netlist.signal (2 * other)).history.value? := by
  induction pins generalizing specimen stimulus index with
  | nil =>
    rw [List.length_nil] at all
    refine ⟨specimen, rfl, reached, rfl, fun other within => ?_⟩
    rw [if_neg (by omega)]
  | cons pin pins ih =>
    rw [List.length_cons] at all
    obtain ⟨one, first, reached_one, cycle_one, values_one⟩ :=
      reached.driveInput stimulus (by omega : index ≤ tree.depth)
    have widths_later : ∀ other ∈ pins, other.width = tree.width :=
      fun other member => widths other (List.mem_cons_of_mem _ member)
    obtain ⟨driven, rest, reached_all, cycle_all, values_all⟩ := ih reached_one
      (stimulus.next tree.width).2 widths_later
      (by omega : index + 1 + pins.length = tree.depth + 1)
    rw [← widths pin List.mem_cons_self] at first
    refine ⟨driven, ?_, reached_all, cycle_all.trans cycle_one, fun other within => ?_⟩
    · exact (Action.bind_of_ok first _).trans (by
        rw [widths pin List.mem_cons_self]
        exact rest)
    · rw [values_all other within, values_one]
      by_cases later : index + 1 ≤ other
      · have number : other - index = (other - (index + 1)) + 1 := by omega
        rw [if_pos later, if_pos (by omega), number, Stimulus.value_succ]
      · rw [if_neg later]
        by_cases here : other = index
        · rw [if_pos here, if_pos (by omega), here, Nat.sub_self]
          rfl
        · rw [if_neg here, if_neg (by omega)]

theorem inputPins_width (reached : Reached tree specimen) :
    ∀ pin ∈ specimen.circuit.inputPins, pin.width = tree.width := by
  intro pin member
  obtain ⟨id, input, rfl⟩ := List.mem_map.mp member
  rw [Array.mem_toList_iff, ← reached.recorded.alike.inputs, mem_inputs_iff] at input
  obtain ⟨index, within, rfl⟩ := input
  show Option.getD (specimen.circuit.netlist.signal (2 * index)).width _ = _
  rw [reached.recorded.signal_width (by omega), Option.getD_some]

theorem inputValues_of_values (reached : Reached tree specimen) {values : Nat → Nat}
    (held : ∀ index ≤ tree.depth,
      (specimen.circuit.netlist.signal (2 * index)).history.value? = some (values index)) :
    specimen.circuit.inputValues = .ok ((List.range (tree.depth + 1)).map values) := by
  rw [Circuit.inputValues, mapM_eq_ok_iff, ← reached.recorded.alike.inputs, inputs_circuit,
    List.map_map, List.map_map]
  refine List.map_congr_left fun index member => ?_
  have within : index ≤ tree.depth := Nat.le_of_lt_succ (List.mem_range.mp member)
  exact Signal.value_eq_ok_iff.mpr (held index within)

/-- Driving all inputs gives each of them the value drawn for it. -/
theorem drive (reached : Reached tree specimen) (stimulus : Stimulus) :
    ∃ driven, Bench.drive { specimen, stimulus } = .ok ()
        { specimen := driven, stimulus := stimulus.skip tree.width (tree.depth + 1) } ∧
      Reached tree driven ∧ driven.circuit.cycle = specimen.circuit.cycle ∧
      driven.circuit.inputValues = .ok (tree.drawn stimulus 0) := by
  have length : specimen.circuit.inputPins.length = tree.depth + 1 := by
    rw [Circuit.inputPins, List.length_map, reached.recorded.length_inputs]
  obtain ⟨driven, run, reached_driven, cycle, values⟩ :=
    reached.driveInputs stimulus reached.inputPins_width (by omega : 0 + _ = _)
  rw [length] at run
  refine ⟨driven, run, reached_driven, cycle, ?_⟩
  apply reached_driven.inputValues_of_values
  intro index within
  rw [values index within, if_pos (Nat.zero_le _), Nat.zero_mul, Nat.zero_add, Nat.sub_zero]

/-- Once every input has a value, a step succeeds and shows their AND. -/
theorem step (reached : Reached tree specimen) {inputs : List Nat}
    (known : specimen.circuit.inputValues = .ok inputs) :
    ∃ next, Specimen.step specimen = .ok () next ∧ Reached tree next ∧
      next.circuit.cycle = specimen.circuit.cycle + 1 ∧
      next.circuit.outputValues = .ok [conjunction inputs] := by
  have recorded := reached.recorded
  have held : specimen.circuit.inputsAt specimen.circuit.cycle = .ok inputs := by
    rw [Circuit.inputsAt_eq_inputValues recorded.upTo, known]
  refine ⟨_, reached.step_of_known known, ⟨reached.name, reached.width, recorded.complete known⟩,
    rfl, ?_⟩
  rw [Specimen.circuit_withCircuit, Circuit.outputValues, mapM_eq_ok_iff,
    ← (recorded.complete known).alike.outputs, outputs_circuit]
  have shown_value : ((specimen.circuit.record tree.shown
      (conjunction inputs)).advance.netlist.signal tree.shown).history.value? =
      some (conjunction inputs) := by
    rw [History.value?_eq, recorded.entries_complete held, List.getLast?_concat, Option.map_some]
  exact congrArg ([·]) (Signal.value_eq_ok_iff.mpr shown_value)

theorem runCycle (reached : Reached tree specimen) (stimulus : Stimulus) :
    ∃ next, Bench.runCycle { specimen, stimulus } = .ok
        { cycle := specimen.circuit.cycle
          inputs := tree.drawn stimulus 0
          outputs := [conjunction (tree.drawn stimulus 0)] }
        { specimen := next, stimulus := stimulus.skip tree.width (tree.depth + 1) } ∧
      Reached tree next ∧ next.circuit.cycle = specimen.circuit.cycle + 1 := by
  obtain ⟨driven, drove, reached_driven, cycle, known⟩ := reached.drive stimulus
  obtain ⟨next, stepped, reached_next, cycle_next, shown⟩ := reached_driven.step known
  have sampled : Action.read (·.circuit.sample) driven =
      .ok (driven.circuit.cycle, tree.drawn stimulus 0) driven := by
    simp only [Action.read, Circuit.sample, known, bind, Except.bind, pure, Except.pure]
  have looked : Action.read (·.circuit.outputValues) next =
      .ok [conjunction (tree.drawn stimulus 0)] next := by
    simp only [Action.read, shown]
  refine ⟨next, ?_, reached_next, cycle_next.trans (congrArg (· + 1) cycle)⟩
  rw [← cycle]
  exact (Action.bind_of_ok drove _).trans <|
    (Action.bind_of_ok (Bench.onSpecimen_of_ok sampled _) _).trans <|
    (Action.bind_of_ok (Bench.onSpecimen_of_ok stepped _) _).trans <|
    Action.bind_of_ok (Bench.onSpecimen_of_ok looked _) _

theorem runCycles (reached : Reached tree specimen) (stimulus : Stimulus) (cycles : Nat)
    (vectors : Array GoldenVector) :
    ∃ left, Bench.runCycles cycles vectors { specimen, stimulus } = .ok
        (vectors ++ (tree.goldenVectors stimulus specimen.circuit.cycle cycles).toArray) left ∧
      Reached tree left.specimen ∧
      left.specimen.circuit.cycle = specimen.circuit.cycle + cycles := by
  induction cycles generalizing specimen stimulus vectors with
  | zero =>
    refine ⟨{ specimen, stimulus }, ?_, reached, rfl⟩
    rw [goldenVectors, List.range_zero, List.map_nil, Array.append_empty]
    rfl
  | succ cycles ih =>
    obtain ⟨next, first, reached_next, cycle_next⟩ := reached.runCycle stimulus
    obtain ⟨left, rest, reached_left, cycle_left⟩ :=
      ih reached_next (stimulus.skip tree.width (tree.depth + 1)) (vectors.push _)
    refine ⟨left, (Action.bind_of_ok first _).trans (rest.trans ?_), reached_left, by omega⟩
    rw [goldenVectors_succ, ← cycle_next, List.push_append_toArray]

theorem goldenRun (reached : Reached tree specimen) (plan : RunPlan) :
    ∃ left, Specimen.goldenRun plan specimen = .ok
        (tree.goldenVectors (.ofSeed plan.seed) specimen.circuit.cycle plan.cycles.toNat) left ∧
      left.circuit.cycle = specimen.circuit.cycle + plan.cycles.toNat := by
  obtain ⟨left, run, _, cycle⟩ :=
    reached.runCycles (.ofSeed plan.seed) plan.cycles.toNat #[]
  refine ⟨left.specimen, ?_, cycle⟩
  rw [Specimen.goldenRun, run, Array.empty_append]

end Reached

/-- A golden run succeeds in every state of a session. There is one vector for each of its cycles,
numbered from the present one on. The inputs of a vector are the next values that the stimulus of
the seed draws, and its output is their AND. So the runs from any two states differ in nothing but
the numbers of the cycles. -/
theorem goldenRun_of_performing (tree : AndTree) (plan : RunPlan) (commands : List Command) :
    let start := tree.specimen.performing commands
    ∃ vectors left, Specimen.goldenRun plan start = .ok vectors left ∧
      left.circuit.cycle = start.circuit.cycle + plan.cycles.toNat ∧
      vectors.length = plan.cycles.toNat ∧
      (∀ cycle < plan.cycles.toNat, ∃ inputs, vectors[cycle]? =
          some { cycle := start.circuit.cycle + cycle, inputs, outputs := [conjunction inputs] } ∧
        inputs = (List.range (tree.depth + 1)).map fun index =>
          (Stimulus.ofSeed plan.seed).value tree.width (cycle * (tree.depth + 1) + index)) ∧
      ∀ others : List Command, ∃ vectors' left',
        Specimen.goldenRun plan (tree.specimen.performing others) = .ok vectors' left' ∧
        vectors'.map (fun vector => (vector.inputs, vector.outputs)) =
          vectors.map (fun vector => (vector.inputs, vector.outputs)) := by
  intro start
  obtain ⟨left, run, cycle_left⟩ := (tree.reached_performing commands).goldenRun plan
  refine ⟨_, left, run, cycle_left, ?_, fun cycle past => ⟨_, ?_, rfl⟩, fun others => ?_⟩
  · rw [goldenVectors, List.length_map, List.length_range]
  · rw [goldenVectors, List.getElem?_map, List.getElem?_range past, Option.map_some]
    rfl
  · obtain ⟨left', run', _⟩ := (tree.reached_performing others).goldenRun plan
    refine ⟨_, left', run', ?_⟩
    rw [goldenVectors, goldenVectors, List.map_map, List.map_map]
    rfl

end AndTree
end GoldenCircuit
