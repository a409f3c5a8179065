import Mathlib.Data.List.Forall2
import Mathlib.Data.List.Nodup
import GoldenCircuit.Circuit
import GoldenCircuit.Proofs.Netlist
import GoldenCircuit.Proofs.Text.Numeral

/-! A circuit in use. Recording values and going on to the next cycle change histories and the
cycle, and nothing else: the circuit stays built as it is. -/
namespace GoldenCircuit

/-- Looking at several items succeeds where looking at each of them does. -/
theorem mapM_eq_ok_iff {Item Answer : Type} {look : Item → Except Fault Answer}
    {items : List Item} {answers : List Answer} :
    items.mapM look = .ok answers ↔ items.map look = answers.map Except.ok := by
  induction items generalizing answers with
  | nil => cases answers <;> simp [pure, Except.pure]
  | cons item items ih =>
    rw [List.mapM_cons, bind_eq_ok_iff]
    constructor
    · rintro ⟨answer, first, later⟩
      obtain ⟨others, rest, done⟩ := bind_eq_ok_iff.mp later
      cases done
      rw [List.map_cons, List.map_cons, first, ih.mp rest]
    · intro same
      cases answers with
      | nil => contradiction
      | cons answer others =>
        obtain ⟨first, rest⟩ := List.cons.inj same
        exact ⟨answer, first, bind_eq_ok_iff.mpr ⟨others, ih.mpr rest, rfl⟩⟩

theorem mapM_eq_ok_iff_forall₂ {Item Answer : Type} {look : Item → Except Fault Answer}
    {items : List Item} {answers : List Answer} :
    items.mapM look = .ok answers ↔
      List.Forall₂ (fun answer item => look item = .ok answer) answers items := by
  rw [mapM_eq_ok_iff, ← List.forall₂_eq_eq_eq, List.forall₂_map_left_iff,
    List.forall₂_map_right_iff]
  exact ⟨List.Forall₂.flip, List.Forall₂.flip⟩

/-- Looking at several items fails at the first item where looking fails. -/
theorem mapM_eq_error_iff {Item Answer : Type} {look : Item → Except Fault Answer}
    {items : List Item} {fault : Fault} :
    items.mapM look = .error fault ↔ ∃ earlier item later, items = earlier ++ item :: later ∧
      (∀ other ∈ earlier, ∃ answer, look other = .ok answer) ∧ look item = .error fault := by
  constructor
  · intro failed
    induction items with
    | nil => contradiction
    | cons item items ih =>
      rw [List.mapM_cons] at failed
      cases here : look item with
      | error found =>
        rw [here] at failed
        cases failed
        exact ⟨[], item, items, rfl, by simp, here⟩
      | ok answer =>
        cases rest : items.mapM look with
        | ok answers => simp [here, rest, bind, Except.bind, pure, Except.pure] at failed
        | error found =>
          rw [here, rest] at failed
          cases failed
          obtain ⟨earlier, other, later, rfl, looked, found⟩ := ih rest
          exact ⟨item :: earlier, other, later, rfl,
            List.forall_mem_cons.mpr ⟨⟨answer, here⟩, looked⟩, found⟩
  · rintro ⟨earlier, item, later, rfl, looked, found⟩
    induction earlier with
    | nil => simp [found, bind, Except.bind]
    | cons other earlier ih =>
      obtain ⟨⟨answer, first⟩, looked⟩ := List.forall_mem_cons.mp looked
      rw [List.cons_append, List.mapM_cons, first]
      simp [ih looked, bind, Except.bind]

theorem length_of_mapM {Item Answer : Type} {look : Item → Except Fault Answer}
    {items : List Item} {answers : List Answer} (looked : items.mapM look = .ok answers) :
    answers.length = items.length := by
  simpa using (congrArg List.length (mapM_eq_ok_iff.mp looked)).symm

theorem exists_of_mem_mapM {Item Answer : Type} {look : Item → Except Fault Answer}
    {items : List Item} {answers : List Answer} (looked : items.mapM look = .ok answers)
    {answer : Answer} (member : answer ∈ answers) : ∃ item ∈ items, look item = .ok answer := by
  have among : Except.ok answer ∈ items.map look := by
    rw [mapM_eq_ok_iff.mp looked]
    exact List.mem_map_of_mem member
  obtain ⟨item, item_mem, found⟩ := List.mem_map.mp among
  exact ⟨item, item_mem, found⟩

theorem exists_mem_of_mapM {Item Answer : Type} {look : Item → Except Fault Answer}
    {items : List Item} {answers : List Answer} (looked : items.mapM look = .ok answers)
    {item : Item} (member : item ∈ items) : ∃ answer ∈ answers, look item = .ok answer := by
  have among : look item ∈ answers.map Except.ok := by
    rw [← mapM_eq_ok_iff.mp looked]
    exact List.mem_map_of_mem member
  obtain ⟨answer, answer_mem, found⟩ := List.mem_map.mp among
  exact ⟨answer, answer_mem, found.symm⟩

namespace Circuit

theorem ext_of_parts {one other : Circuit} (netlist : one.netlist = other.netlist)
    (inputs : one.inputs = other.inputs) (gates : one.gates = other.gates)
    (outputs : one.outputs = other.outputs) (cycle : one.cycle = other.cycle) : one = other := by
  cases one
  cases other
  simp_all only

/-- Circuits that are built alike, whatever was recorded in them. -/
structure Alike (one other : Circuit) : Prop where
  inputs : one.inputs = other.inputs
  gates : one.gates = other.gates
  outputs : one.outputs = other.outputs
  size : one.netlist.size = other.netlist.size
  name : ∀ id, (one.netlist.signal id).name = (other.netlist.signal id).name
  width : ∀ id, (one.netlist.signal id).width = (other.netlist.signal id).width

theorem Alike.refl (circuit : Circuit) : circuit.Alike circuit :=
  ⟨rfl, rfl, rfl, rfl, fun _ => rfl, fun _ => rfl⟩

theorem Alike.trans {one other third : Circuit} (first : one.Alike other)
    (second : other.Alike third) : one.Alike third where
  inputs := first.inputs.trans second.inputs
  gates := first.gates.trans second.gates
  outputs := first.outputs.trans second.outputs
  size := first.size.trans second.size
  name id := (first.name id).trans (second.name id)
  width id := (first.width id).trans (second.width id)

theorem Alike.symm {one other : Circuit} (alike : one.Alike other) : other.Alike one where
  inputs := alike.inputs.symm
  gates := alike.gates.symm
  outputs := alike.outputs.symm
  size := alike.size.symm
  name id := (alike.name id).symm
  width id := (alike.width id).symm

/-- Circuits that are built alike are equal if the same was recorded in them. -/
theorem Alike.ext_of_signal {one other : Circuit} (alike : one.Alike other)
    (signal : ∀ id, one.netlist.signal id = other.netlist.signal id)
    (index : one.netlist.index = other.netlist.index)
    (serial : one.netlist.serial = other.netlist.serial) (cycle : one.cycle = other.cycle) :
    one = other :=
  ext_of_parts (Netlist.ext_of_signal alike.size signal index serial) alike.inputs alike.gates
    alike.outputs cycle

theorem Alike.inputPins {one other : Circuit} (alike : one.Alike other) :
    one.inputPins = other.inputPins := by
  simp only [Circuit.inputPins, Signal.pinWidth, alike.inputs, alike.name, alike.width]

theorem Alike.outputPins {one other : Circuit} (alike : one.Alike other) :
    one.outputPins = other.outputPins := by
  simp only [Circuit.outputPins, Signal.pinWidth, alike.outputs, alike.width]

@[simp]
theorem netlist_record (circuit : Circuit) (id value : Nat) :
    (circuit.record id value).netlist = circuit.netlist.record id value circuit.cycle :=
  rfl

@[simp]
theorem cycle_record (circuit : Circuit) (id value : Nat) :
    (circuit.record id value).cycle = circuit.cycle :=
  rfl

theorem alike_record (circuit : Circuit) {id : Nat} (within : id < circuit.netlist.size)
    (value : Nat) : circuit.Alike (circuit.record id value) where
  inputs := rfl
  gates := rfl
  outputs := rfl
  size := (Netlist.size_record ..).symm
  name other := by
    rw [netlist_record, Netlist.signal_record _ within]
    split
    next same => rw [Signal.name_record, same]
    next => rfl
  width other := by
    rw [netlist_record, Netlist.signal_record _ within]
    split
    next same => rw [Signal.width_record, same]
    next => rfl

theorem alike_advance (circuit : Circuit) : circuit.Alike circuit.advance :=
  ⟨rfl, rfl, rfl, rfl, fun _ => rfl, fun _ => rfl⟩

/-- Every input was driven at least once. -/
def Driven (circuit : Circuit) : Prop :=
  ∀ id ∈ circuit.inputs, (circuit.netlist.signal id).history.entries ≠ #[]

instance (circuit : Circuit) : Decidable circuit.Driven :=
  inferInstanceAs (Decidable (∀ id ∈ circuit.inputs, _))

theorem inputValues_eq_ok_iff {circuit : Circuit} {values : List Nat} :
    circuit.inputValues = .ok values ↔ List.Forall₂
      (fun value id => (circuit.netlist.signal id).history.value? = some value) values
      circuit.inputs.toList := by
  rw [inputValues, mapM_eq_ok_iff_forall₂]
  simp only [Netlist.value, Signal.value_eq_ok_iff]

/-- The inputs are read in order, so the first one without a value is reported. -/
theorem inputValues_eq_error_iff {circuit : Circuit} {fault : Fault} :
    circuit.inputValues = .error fault ↔ ∃ earlier id later,
      circuit.inputs.toList = earlier ++ id :: later ∧
      (∀ other ∈ earlier, (circuit.netlist.signal other).history.entries ≠ #[]) ∧
      (circuit.netlist.signal id).history.entries = #[] ∧
      fault = .uninitialized (circuit.netlist.signal id).name := by
  rw [inputValues, mapM_eq_error_iff]
  simp only [Netlist.value, Signal.exists_value_iff, Signal.value_eq_error_iff]

theorem driven_of_inputValues {circuit : Circuit} {values : List Nat}
    (known : circuit.inputValues = .ok values) : circuit.Driven := by
  intro id member
  obtain ⟨value, _, found⟩ := exists_mem_of_mapM known (Array.mem_toList_iff.mpr member)
  exact Signal.exists_value_iff.mp ⟨value, found⟩

theorem Driven.inputValues {circuit : Circuit} (driven : circuit.Driven) :
    ∃ values, circuit.inputValues = .ok values := by
  cases looked : circuit.inputValues with
  | ok values => exact ⟨values, rfl⟩
  | error fault =>
    obtain ⟨earlier, id, later, inputs, _, unknown, _⟩ := inputValues_eq_error_iff.mp looked
    have member : id ∈ circuit.inputs := Array.mem_toList_iff.mp (by simp [inputs])
    exact absurd unknown (driven id member)

/-- The values that the inputs hold at a cycle, in order. -/
def inputsAt (circuit : Circuit) (cycle : Nat) : Except Fault (List Nat) :=
  circuit.inputs.toList.mapM (circuit.netlist.valueAt · cycle)

theorem inputsAt_of_same {one other : Circuit} {cycle : Nat} {values : List Nat}
    (inputs : one.inputs = other.inputs)
    (same : ∀ id ∈ one.inputs, (one.netlist.signal id).valueAt cycle =
      (other.netlist.signal id).valueAt cycle)
    (held : one.inputsAt cycle = .ok values) : other.inputsAt cycle = .ok values := by
  unfold inputsAt at held ⊢
  rw [mapM_eq_ok_iff] at held ⊢
  rw [← inputs, ← held]
  exact List.map_congr_left fun id member => (same id (Array.mem_toList_iff.mp member)).symm

theorem valueAt_of_upTo {signal : Signal} {cycle : Nat} (upTo : signal.history.UpTo cycle) :
    signal.valueAt cycle = signal.value := by
  unfold Signal.valueAt Signal.value
  rw [upTo.valueAt?_eq]

/-- At a cycle that nothing was recorded after, the inputs hold their last values. -/
theorem inputsAt_eq_inputValues {circuit : Circuit} {cycle : Nat}
    (upTo : ∀ id, (circuit.netlist.signal id).history.UpTo cycle) :
    circuit.inputsAt cycle = circuit.inputValues := by
  have same : (circuit.netlist.valueAt · cycle) = circuit.netlist.value :=
    funext fun id => valueAt_of_upTo (upTo id)
  rw [inputsAt, inputValues, same]

theorem record_of_refused {circuit : Circuit} {id : Nat} (within : id < circuit.netlist.size)
    (value : Nat) {fault : Fault}
    (refused : circuit.netlist.refusal? id circuit.cycle = some fault) :
    circuit.record id value = circuit := by
  have same := Netlist.record_of_refused within value refused
  cases circuit
  simp only [record]
  congr

theorem after_update (circuit : Circuit) {id : Nat} (within : id < circuit.netlist.size)
    (value : Nat) : (update id value).after circuit = circuit.record id value := by
  cases refused : circuit.netlist.refusal? id circuit.cycle with
  | none => simp only [update, Action.after, Action.attempt, refused]
  | some fault =>
    simp only [update, Action.after, Action.attempt, refused]
    exact (record_of_refused within value refused).symm

theorem update_of_refused {circuit : Circuit} {id : Nat} {fault : Fault}
    (refused : circuit.netlist.refusal? id circuit.cycle = some fault) (value : Nat) :
    update id value circuit = .error fault circuit := by
  simp only [update, Action.attempt, refused]

theorem update_of_upTo {circuit : Circuit} {id : Nat} (value : Nat)
    (upTo : (circuit.netlist.signal id).history.UpTo circuit.cycle) :
    update id value circuit = .ok () (circuit.record id value) := by
  have accepted : circuit.netlist.refusal? id circuit.cycle = none :=
    Signal.refusal?_eq_none_iff.mpr upTo
  simp only [update, Action.attempt, accepted]

theorem input_lt {circuit : Circuit} {index id : Nat} (found : circuit.inputs[index]? = some id) :
    id < circuit.netlist.size :=
  circuit.inputs_lt id (Array.mem_of_getElem? found)

theorem poke_of_none {circuit : Circuit} {index : Nat} (missing : circuit.inputs[index]? = none)
    (value : Nat) :
    poke index value circuit = .error (.inputOutOfRange index circuit.inputs.size) circuit := by
  have unknown : Action.read (·.inputId index) circuit =
      .error (.inputOutOfRange index circuit.inputs.size) circuit := by
    simp only [Action.read, inputId, missing]
  exact Action.bind_of_error unknown _

theorem poke_of_some {circuit : Circuit} {index id : Nat}
    (found : circuit.inputs[index]? = some id) (value : Nat) :
    poke index value circuit = update id value circuit := by
  have known : Action.read (·.inputId index) circuit = .ok id circuit := by
    simp only [Action.read, inputId, found]
  exact Action.bind_of_ok known _

theorem after_poke_of_none {circuit : Circuit} {index : Nat}
    (missing : circuit.inputs[index]? = none) (value : Nat) :
    (poke index value).after circuit = circuit :=
  Action.after_of_error (poke_of_none missing value)

theorem after_poke_of_some {circuit : Circuit} {index id : Nat}
    (found : circuit.inputs[index]? = some id) (value : Nat) :
    (poke index value).after circuit = circuit.record id value := by
  rw [Action.after, poke_of_some found, ← Action.after, after_update _ (input_lt found)]

theorem output_lt {circuit : Circuit} {index id : Nat} (found : circuit.outputs[index]? = some id) :
    id < circuit.netlist.size :=
  circuit.outputs_lt id (Array.mem_of_getElem? found)

theorem recordOutput_of_none {circuit : Circuit} {index : Nat}
    (missing : circuit.outputs[index]? = none) (value : Nat) :
    recordOutput index value circuit =
      .error (.outputOutOfRange index circuit.outputs.size) circuit := by
  have unknown : Action.read (·.outputId index) circuit =
      .error (.outputOutOfRange index circuit.outputs.size) circuit := by
    simp only [Action.read, outputId, missing]
  exact Action.bind_of_error unknown _

theorem recordOutput_of_some {circuit : Circuit} {index id : Nat}
    (found : circuit.outputs[index]? = some id) (value : Nat) :
    recordOutput index value circuit = update id value circuit := by
  have known : Action.read (·.outputId index) circuit = .ok id circuit := by
    simp only [Action.read, outputId, found]
  exact Action.bind_of_ok known _

theorem outputName_injective {one other : Nat} (same : outputName one = outputName other) :
    one = other := by
  apply Text.toString_injective
  simpa [outputName] using same

theorem nodup_outputPins (circuit : Circuit) : (circuit.outputPins.map (·.name)).Nodup := by
  have names : circuit.outputPins.map (·.name) =
      (List.range circuit.outputs.size).map outputName := by
    apply List.ext_getElem <;> simp [outputPins]
  rw [names]
  exact List.Nodup.map (fun _ _ => outputName_injective) List.nodup_range

/-- Values of all outputs stand under the names of the output pins. -/
theorem mapIdx_outputName {circuit : Circuit} {values : List Nat}
    (length : values.length = circuit.outputPins.length) :
    values.mapIdx (fun index value => (outputName index, value)) =
      (circuit.outputPins.map (·.name)).zip values := by
  apply List.ext_getElem
  · simp [length]
  · intro index _ _
    simp [outputPins]

end Circuit
end GoldenCircuit
