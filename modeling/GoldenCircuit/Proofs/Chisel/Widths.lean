import GoldenCircuit.Proofs.Chisel.RoundTrip
import GoldenCircuit.Proofs.Chisel.Simulation
import GoldenCircuit.Proofs.FixedPoint
import GoldenCircuit.Proofs.Opcode

/-! What the module of a circuit shows. A gate cuts what it computes to its width, but the value that
a module defines for it is as wide as its operands. So both agree on the bits that no gate cuts
off. -/
namespace GoldenCircuit

namespace Circuit

/-- The signal depends on an input that is wide enough to have the bit. -/
inductive Carries (circuit : Circuit) (bit : Nat) : Nat → Prop
  | input {id : Nat} (listed : id ∈ circuit.inputs)
      (wide : bit < (circuit.netlist.signal id).pinWidth.bits) : Carries circuit bit id
  | gate {gate : Gate} {id : Nat} (member : gate ∈ circuit.gates) (read : id ∈ gate.sources)
      (carries : Carries circuit bit id) : Carries circuit bit gate.dest

/-- The bit may be missing at the signal, because a gate on the way to it is too narrow. -/
inductive Loses (circuit : Circuit) (bit : Nat) : Nat → Prop
  | cut {gate : Gate} (member : gate ∈ circuit.gates) (carries : circuit.Carries bit gate.dest)
      (narrow : gate.width.bits ≤ bit) : Loses circuit bit gate.dest
  | gate {gate : Gate} {id : Nat} (member : gate ∈ circuit.gates) (read : id ∈ gate.sources)
      (loses : Loses circuit bit id) : Loses circuit bit gate.dest

/-- Only bits that are beyond some gate are lost. -/
theorem Loses.exists_narrow {circuit : Circuit} {bit id : Nat} (loses : circuit.Loses bit id) :
    ∃ gate ∈ circuit.gates, gate.width.bits ≤ bit := by
  induction loses with
  | cut member carries narrow => exact ⟨_, member, narrow⟩
  | gate member read loses ih => exact ih

/-- What is emitted for a signal has the bits of its value, other than those that may be missing
there, and no bits that no input has. -/
structure Emits (circuit : Circuit) (id value emitted : Nat) : Prop where
  agrees : ∀ bit, ¬ circuit.Loses bit id → emitted.testBit bit = value.testBit bit
  clear : ∀ bit, ¬ circuit.Carries bit id → emitted.testBit bit = false

variable {circuit : Circuit}

theorem emits_input {id value : Nat} (listed : id ∈ circuit.inputs)
    (fits : value < 2 ^ (circuit.netlist.signal id).pinWidth.bits) :
    circuit.Emits id value value := by
  refine ⟨fun _ _ => rfl, fun bit missing => ?_⟩
  have beyond : (circuit.netlist.signal id).pinWidth.bits ≤ bit :=
    Nat.le_of_not_lt fun wide => missing (.input listed wide)
  exact Nat.testBit_lt_two_pow (Nat.lt_of_lt_of_le fits (Nat.pow_le_pow_right Nat.two_pos beyond))

/-- An operator keeps what its operands have in common. Where the gate cuts a bit off that is not
lost, no input has the bit, and the operator does not make it. -/
theorem emits_gate {gate : Gate} (member : gate ∈ circuit.gates) {lhs rhs : Nat}
    (sources : gate.sources = [lhs, rhs]) {left right emitted_left emitted_right : Nat}
    (emits_left : circuit.Emits lhs left emitted_left)
    (emits_right : circuit.Emits rhs right emitted_right) :
    circuit.Emits gate.dest (truncate (gate.opcode.apply left right) gate.width)
      (gate.opcode.apply emitted_left emitted_right) := by
  have lhs_read : lhs ∈ gate.sources := by simp [sources]
  have rhs_read : rhs ∈ gate.sources := by simp [sources]
  have clear : ∀ bit, ¬ circuit.Carries bit gate.dest →
      (gate.opcode.apply emitted_left emitted_right).testBit bit = false := by
    intro bit missing
    rw [Opcode.testBit_apply,
      emits_left.clear bit fun carries => missing (.gate member lhs_read carries),
      emits_right.clear bit fun carries => missing (.gate member rhs_read carries),
      Opcode.applyBit_false]
  refine ⟨fun bit kept => ?_, clear⟩
  rw [testBit_truncate]
  by_cases inside : bit < gate.width.bits
  · rw [decide_eq_true inside, Bool.true_and, Opcode.testBit_apply, Opcode.testBit_apply,
      emits_left.agrees bit fun loses => kept (.gate member lhs_read loses),
      emits_right.agrees bit fun loses => kept (.gate member rhs_read loses)]
  · rw [decide_eq_false inside, Bool.false_and]
    exact clear bit fun carries => kept (.cut member carries (Nat.le_of_not_lt inside))

/-- A pin that is as wide as the signal cuts off only what the signal does not have. -/
theorem Emits.testBit_truncate {id value emitted : Nat} (emits : circuit.Emits id value emitted)
    {width : Width} (fits : value < 2 ^ width.bits) {bit : Nat}
    (kept : bit < width.bits → ¬ circuit.Loses bit id) :
    (truncate emitted width).testBit bit = value.testBit bit := by
  rw [GoldenCircuit.testBit_truncate]
  by_cases inside : bit < width.bits
  · rw [decide_eq_true inside, Bool.true_and, emits.agrees bit (kept inside)]
  · have beyond := Nat.pow_le_pow_right Nat.two_pos (Nat.le_of_not_lt inside)
    rw [decide_eq_false inside, Bool.false_and,
      Nat.testBit_lt_two_pow (Nat.lt_of_lt_of_le fits beyond)]

/-! ### The names of a module -/

/-- How the module of the circuit refers to a signal. -/
def reference (circuit : Circuit) (id : Nat) : Chisel.Reference :=
  Chisel.refer circuit.netlist (.ofList circuit.inputs.toList) id

/-- How the module of the circuit defines the result of a gate. -/
def definition (circuit : Circuit) (gate : Gate) : Chisel.Definition :=
  Chisel.define circuit.netlist (.ofList circuit.inputs.toList) gate

theorem reference_of_mem {id : Nat} (listed : id ∈ circuit.inputs.toList) :
    circuit.reference id = .pin (circuit.netlist.signal id).name := by
  simp [reference, Chisel.refer, Std.TreeSet.contains_ofList, listed]

theorem reference_of_not_mem {id : Nat} (unlisted : id ∉ circuit.inputs.toList) :
    circuit.reference id = .value (circuit.netlist.signal id).name := by
  simp [reference, Chisel.refer, Std.TreeSet.contains_ofList, unlisted]

theorem name_reference (circuit : Circuit) (id : Nat) :
    (circuit.reference id).name = (circuit.netlist.signal id).name := by
  unfold reference Chisel.refer
  dsimp only
  split <;> rfl

theorem Orderly.reference_dest (orderly : circuit.Orderly) {gate : Gate}
    (member : gate ∈ circuit.gates.toList) : circuit.reference gate.dest = .value gate.name := by
  rw [reference_of_not_mem (orderly.unlisted gate member), (orderly.laid gate member).name]

theorem value?_definition {gate : Gate} {lhs rhs : Nat} (sources : gate.sources = [lhs, rhs])
    {known : Naming Chisel.Reference} {left right : Nat}
    (lhs_known : known.lookup (circuit.reference lhs) = some left)
    (rhs_known : known.lookup (circuit.reference rhs) = some right) :
    (circuit.definition gate).equation.value? known = some (gate.opcode.apply left right) := by
  have operands : (circuit.definition gate).operands =
      [circuit.reference lhs, circuit.reference rhs] := by
    rw [definition, Chisel.define, sources]
    rfl
  simp only [Chisel.Definition.equation, operands, lhs_known, Option.bind_eq_bind,
    Option.bind_some, List.foldlM_cons, rhs_known, List.foldlM_nil]
  rfl

/-! ### The values of a module -/

/-- For these signals the names of the module stand for what it emits. -/
def Tracks (circuit : Circuit) (netlist : Netlist) (known : Naming Chisel.Reference)
    (ids : List Nat) : Prop :=
  ∀ id ∈ ids, ∃ value emitted, netlist.value id = .ok value ∧
    known.lookup (circuit.reference id) = some emitted ∧ circuit.Emits id value emitted

/-- Solving the definition of a settled gate. -/
theorem Tracks.define {netlist : Netlist} {known : Naming Chisel.Reference} {ids : List Nat}
    (tracks : circuit.Tracks netlist known ids) (orderly : circuit.Orderly)
    (ids_lt : ∀ id ∈ ids, id < circuit.netlist.size) {gate : Gate}
    (member : gate ∈ circuit.gates.toList) (read : ∀ id ∈ gate.sources, id ∈ ids) {value : Nat}
    (computed : netlist.evaluate gate = .ok value) (held : netlist.value gate.dest = .ok value) :
    ∃ emitted, (circuit.definition gate).equation.value? known = some emitted ∧
      circuit.Tracks netlist ((.value gate.name, emitted) :: known) (gate.dest :: ids) := by
  have laid := orderly.laid gate member
  obtain ⟨lhs, rhs, sources, -, -⟩ := laid.sources
  obtain ⟨left, emitted_left, lhs_value, lhs_known, emits_left⟩ :=
    tracks lhs (read lhs (by simp [sources]))
  obtain ⟨right, emitted_right, rhs_value, rhs_known, emits_right⟩ :=
    tracks rhs (read rhs (by simp [sources]))
  refine ⟨_, value?_definition sources lhs_known rhs_known, fun id among => ?_⟩
  by_cases here : id = gate.dest
  · subst here
    rw [Netlist.evaluate_of_pair sources lhs_value rhs_value] at computed
    cases computed
    refine ⟨_, _, held, ?_, emits_gate (Array.mem_toList_iff.mp member) sources emits_left
      emits_right⟩
    rw [orderly.reference_dest member, List.lookup_cons_self]
  · have old : id ∈ ids := by simpa [here] using among
    obtain ⟨before, emitted, looked, named, emits⟩ := tracks id old
    refine ⟨before, emitted, looked, ?_, emits⟩
    rw [Naming.lookup_cons_of_ne, named]
    -- references to different signals differ in the name
    intro same
    have names := congrArg Chisel.Reference.name same
    rw [name_reference, Chisel.Reference.name, ← laid.name] at names
    exact here (orderly.name_inj id (ids_lt id old) _ laid.dest_lt names)

/-- Solving the definitions of settled gates, one after the other. -/
theorem Tracks.solve {assignment : String → Nat} {netlist : Netlist} (orderly : circuit.Orderly)
    (stable : circuit.Stable assignment netlist) {gates : List Gate}
    (listed : ∀ gate ∈ gates, gate ∈ circuit.gates.toList) {ids : List Nat}
    (ordered : Netlist.Ordered ids gates) (ids_lt : ∀ id ∈ ids, id < circuit.netlist.size)
    {known : Naming Chisel.Reference} (tracks : circuit.Tracks netlist known ids) :
    ∃ all, Naming.solve ((gates.map circuit.definition).map Chisel.Definition.equation) known =
        some all ∧
      ∀ id, id ∈ ids ∨ id ∈ gates.map (·.dest) → circuit.Tracks netlist all [id] := by
  induction gates generalizing ids known with
  | nil => exact ⟨known, rfl, by simpa [Tracks] using tracks⟩
  | cons gate gates ih =>
    obtain ⟨read, ordered⟩ := ordered
    obtain ⟨member, later⟩ := List.forall_mem_cons.mp listed
    obtain ⟨value, computed, held⟩ := stable.gate gate member
    obtain ⟨emitted, has, tracks⟩ := tracks.define orderly ids_lt member read computed held
    have more_lt : ∀ id ∈ gate.dest :: ids, id < circuit.netlist.size :=
      List.forall_mem_cons.mpr ⟨(orderly.laid gate member).dest_lt, ids_lt⟩
    obtain ⟨all, solved, all_tracks⟩ := ih later ordered more_lt tracks
    refine ⟨all, ?_, fun id among => all_tracks id ?_⟩
    · rw [List.map_cons, List.map_cons, Naming.solve_cons has]
      exact solved
    · simpa [or_assoc, or_comm, or_left_comm] using among

/-! ### The pins of a module -/

theorem find?_outputPins {shown : String × Nat} (member : shown ∈ circuit.shows) :
    circuit.outputPins.find? (·.name = shown.1) =
      some ⟨shown.1, (circuit.netlist.signal shown.2).pinWidth⟩ := by
  have listed : ⟨shown.1, (circuit.netlist.signal shown.2).pinWidth⟩ ∈ circuit.outputPins := by
    obtain ⟨index, within, rfl⟩ := List.mem_mapIdx.mp member
    exact List.mem_mapIdx.mpr ⟨index, within, rfl⟩
  cases found : circuit.outputPins.find? (·.name = shown.1) with
  | none => simpa using List.find?_eq_none.mp found _ listed
  | some pin =>
    have name : pin.name = shown.1 := by simpa using List.find?_some found
    have among := List.mem_of_find?_eq_some found
    rw [List.inj_on_of_nodup_map circuit.nodup_outputPins among listed name]

theorem connections_ofCircuit (circuit : Circuit) (name : String) :
    (Chisel.Module.ofCircuit name circuit).connections =
      circuit.shows.map fun shown => (shown.1, circuit.reference shown.2) := by
  simp only [Chisel.Module.ofCircuit, shows, List.mapIdx_eq_zipIdx_map, List.map_map]
  rfl

/-- An output pin shows as much of what the module emits for its signal as the pin is wide. -/
theorem outputs?_of_solved {name : String} {held : Naming String}
    {known all : Naming Chisel.Reference}
    (pins : (Chisel.Module.ofCircuit name circuit).pins? held = some known)
    (solved : Naming.solve ((circuit.gates.toList.map circuit.definition).map
      Chisel.Definition.equation) known = some all) {emitted : Nat → Nat}
    (emits : ∀ id ∈ circuit.outputs, all.lookup (circuit.reference id) = some (emitted id)) :
    (Chisel.Module.ofCircuit name circuit).outputs? held = some (circuit.shows.map fun shown =>
      (shown.1, truncate (emitted shown.2) (circuit.netlist.signal shown.2).pinWidth)) := by
  have definitions : (Chisel.Module.ofCircuit name circuit).definitions =
      circuit.gates.toList.map circuit.definition := rfl
  rw [Chisel.Module.outputs?, pins, Option.bind_eq_bind, Option.bind_some, definitions, solved,
    Option.bind_eq_bind, Option.bind_some, connections_ofCircuit, List.mapM_map]
  apply mapM_eq_some_map
  intro shown member
  have pin : (Chisel.Module.ofCircuit name circuit).outputs.find? (·.name = shown.1) =
      some ⟨shown.1, (circuit.netlist.signal shown.2).pinWidth⟩ := find?_outputPins member
  simp [pin, emits _ (output_of_mem_shows member)]

/-! ### Reading the module back -/

theorem Orderly.legible_reference (orderly : circuit.Orderly) {id : Nat}
    (known : id ∈ circuit.inputs.toList ∨ id ∈ circuit.gates.toList.map (·.dest)) :
    (circuit.reference id).Legible := by
  by_cases listed : id ∈ circuit.inputs.toList
  · rw [reference_of_mem listed]
    exact orderly.isWord_name (Wired.input_lt_size listed)
  · obtain ⟨gate, member, rfl⟩ := List.mem_map.mp (known.resolve_left listed)
    obtain ⟨laid, built, among⟩ := orderly.built
    obtain ⟨number, name⟩ := built.automatic gate (among gate (Array.mem_toList_iff.mp member))
    rw [orderly.reference_dest member, name]
    exact Chisel.Reference.legible_automaticName number

theorem Orderly.known_of_output (orderly : circuit.Orderly) {id : Nat}
    (listed : id ∈ circuit.outputs) :
    id ∈ circuit.inputs.toList ∨ id ∈ circuit.gates.toList.map (·.dest) := by
  rcases orderly.observed id listed with input | ⟨gate, member, rfl⟩
  · exact .inl (Array.mem_toList_iff.mpr input)
  · exact .inr (List.mem_map_of_mem (Array.mem_toList_iff.mpr member))

theorem Orderly.legible_ofCircuit (orderly : circuit.Orderly) {name : String}
    (word : Text.IsWord name) : (Chisel.Module.ofCircuit name circuit).Legible := by
  constructor
  case name => exact word
  case inputs =>
    intro pin member
    obtain ⟨id, listed, rfl⟩ := List.mem_map.mp member
    exact orderly.isWord_name (Wired.input_lt_size listed)
  case outputs =>
    intro pin member
    obtain ⟨index, _, rfl⟩ := List.mem_mapIdx.mp member
    exact Chisel.isWord_outputName index
  case definitions =>
    intro definition member
    obtain ⟨gate, among, rfl⟩ := List.mem_map.mp member
    obtain ⟨lhs, rhs, sources, -, -⟩ := (orderly.laid gate among).sources
    constructor
    case name =>
      have legible := orderly.legible_reference (.inr (List.mem_map_of_mem among))
      rw [orderly.reference_dest among] at legible
      exact legible.1
    case several => exact ⟨_, _, [], by rw [Chisel.define, sources]; rfl⟩
    case operands =>
      intro operand read
      obtain ⟨id, source, rfl⟩ := List.mem_map.mp read
      exact orderly.legible_reference (orderly.ordered.known_or_dest gate among id source)
  case connections =>
    rw [connections_ofCircuit]
    intro connection member
    obtain ⟨shown, among, rfl⟩ := List.mem_map.mp member
    have known := orderly.known_of_output (output_of_mem_shows among)
    obtain ⟨index, _, rfl⟩ := List.mem_mapIdx.mp among
    exact ⟨Chisel.isWord_outputName index, orderly.legible_reference known⟩

/-- For inputs that fit their pins, at a cycle that nothing was recorded after: the module of a
circuit gives every output pin the bits that writing the inputs and settling the gates in order
gives the output, other than those that a gate on the way cut off. So it gives the pin the same
value, if no bit of the pin was cut off. The text of the module reads back as the module. -/
theorem Orderly.module_shows (orderly : circuit.Orderly) {assignment : String → Nat}
    (fits : ∀ pin ∈ circuit.inputPins, assignment pin.name < 2 ^ pin.width.bits) {cycle : Nat}
    (upTo : ∀ id < circuit.netlist.size, (circuit.netlist.signal id).history.UpTo cycle)
    (name : String) {held : Naming String}
    (holds : ∀ pin ∈ circuit.inputPins, held.lookup pin.name = some (assignment pin.name)) :
    let module := Chisel.Module.ofCircuit name circuit
    ∃ values final shown,
      circuit.simulate assignment cycle circuit.netlist = .ok values final ∧
      module.outputs? held = some shown ∧
      (∀ index id, circuit.outputs[index]? = some id → ∃ value emitted,
        final.value id = .ok value ∧ shown.lookup (outputName index) = some emitted ∧
        (∀ bit, ¬ circuit.Loses bit id → emitted.testBit bit = value.testBit bit) ∧
        ((∀ bit < (circuit.netlist.signal id).pinWidth.bits, ¬ circuit.Loses bit id) →
          emitted = value)) ∧
      (Text.IsWord name →
        (Text.wordLines? module.render).bind Chisel.readModule? = some (module, [])) := by
  intro module
  obtain ⟨values, final, ran, stable⟩ := orderly.simulate_stable fits upTo
  have fits_input : ∀ id ∈ circuit.inputs.toList, assignment (circuit.netlist.signal id).name <
      2 ^ (circuit.netlist.signal id).pinWidth.bits :=
    fun id listed => fits _ (List.mem_map_of_mem listed)
  obtain ⟨known, pins, looked⟩ := @Chisel.Module.pins?_of_fits module held assignment holds fits
  have tracks : circuit.Tracks final known circuit.inputs.toList := by
    intro id listed
    refine ⟨_, _, stable.input id listed, ?_,
      emits_input (Array.mem_toList_iff.mp listed) (fits_input id listed)⟩
    rw [reference_of_mem listed]
    exact looked _ (List.mem_map_of_mem listed)
  obtain ⟨all, solved, tracks⟩ := tracks.solve orderly stable (fun _ member => member)
    orderly.ordered (fun _ => Wired.input_lt_size)
  have output (id : Nat) (listed : id ∈ circuit.outputs) :=
    tracks id (orderly.known_of_output listed) id (List.mem_singleton_self id)
  choose! value emitted held_value named emits using output
  refine ⟨values, final, _, ran, outputs?_of_solved pins solved named, ?_, ?_⟩
  · intro index id found
    have listed := Array.mem_of_getElem? found
    have fits_output : value id < 2 ^ (circuit.netlist.signal id).pinWidth.bits :=
      stable.lt_pinWidth orderly fits_input (orderly.known_of_output listed) (held_value id listed)
    have agrees {bit : Nat}
        (kept : bit < (circuit.netlist.signal id).pinWidth.bits → ¬ circuit.Loses bit id) :=
      (emits id listed).testBit_truncate fits_output kept
    refine ⟨value id, truncate (emitted id) (circuit.netlist.signal id).pinWidth,
      held_value id listed, ?_, fun bit kept => agrees fun _ => kept,
      fun kept => Nat.eq_of_testBit_eq fun bit => agrees (kept bit)⟩
    apply Naming.lookup_of_mem
    · rw [List.map_map]
      exact Wired.names_shows circuit ▸ circuit.nodup_outputPins
    · exact List.mem_map_of_mem (mem_shows found)
  · intro word
    have legible := orderly.legible_ofCircuit word
    rw [Chisel.Module.render, Text.wordLines?_unlines (Chisel.areLines_module legible),
      Option.bind_some, ← List.append_nil (Chisel.Module.tokens _)]
    exact Chisel.readModule?_tokens legible []

/-- Two inputs, a gate that is narrower than both of them, and a wider gate that reads it. -/
def pinched : Netlist × List Gate :=
  let inputs := (Netlist.empty.add "a" (some ⟨24, by decide⟩)).1.add "b" (some ⟨24, by decide⟩)
  let narrow := inputs.1.connect .and ⟨20, by decide⟩ 0 1
  let wide := narrow.1.connect .xor ⟨24, by decide⟩ 2 0
  (wide.1, [wide.2, narrow.2])

theorem built_pinched : Netlist.Built pinched.1 pinched.2 := by
  refine .connect (.connect (.add (.add .empty _ _) _ _) _ _ ?_ ?_) _ _ ?_ ?_
  all_goals decide

def pinchedCircuit : Circuit where
  netlist := pinched.1
  inputs := #[0, 1]
  gates := pinched.2.reverse.toArray
  outputs := #[3, 2]
  inputs_lt := by decide
  gates_within := by decide
  outputs_lt := by decide

theorem orderly_pinchedCircuit : pinchedCircuit.Orderly where
  built := ⟨pinched.2, built_pinched, by simp [pinchedCircuit]⟩
  words := by decide
  distinct := by decide
  once := by decide
  driven := by decide +kernel
  ordered := by decide
  observed := by decide +kernel

def pinchedAssignment (name : String) : Nat :=
  if name = "a" then 0xffffff else 0xf00000

/-- The pin of the narrow gate shows its value, whatever is cut off. -/
theorem module_shows_of_pinched :
    let module := Chisel.Module.ofCircuit "pinched" pinchedCircuit
    let held := pinchedCircuit.inputPins.map fun pin => (pin.name, pinchedAssignment pin.name)
    ∃ values final shown value,
      pinchedCircuit.simulate pinchedAssignment 3 pinchedCircuit.netlist = .ok values final ∧
      module.outputs? held = some shown ∧
      final.value 2 = .ok value ∧ shown.lookup (outputName 1) = some value ∧
      (Text.wordLines? module.render).bind Chisel.readModule? = some (module, []) := by
  intro module held
  obtain ⟨values, final, shown, ran, evaluated, outputs, reads⟩ :=
    @Orderly.module_shows pinchedCircuit orderly_pinchedCircuit pinchedAssignment (by decide) 3
      (by decide) "pinched" held (by decide)
  obtain ⟨value, emitted, held_value, named, -, agrees⟩ := outputs 1 2 rfl
  have kept : ∀ bit < (pinchedCircuit.netlist.signal 2).pinWidth.bits,
      ¬ pinchedCircuit.Loses bit 2 := by
    intro bit inside loses
    obtain ⟨gate, member, narrow⟩ := loses.exists_narrow
    have wide : ∀ gate ∈ pinchedCircuit.gates, 20 ≤ gate.width.bits := by decide +kernel
    have pin : (pinchedCircuit.netlist.signal 2).pinWidth.bits = 20 := by decide
    have := wide gate member
    omega
  exact ⟨values, final, shown, value, ran, evaluated, held_value, agrees kept ▸ named,
    reads (by decide)⟩

/-- What the narrow gate cuts off of its result reaches the pin of the wide gate. -/
theorem module_differs_of_pinched :
    let module := Chisel.Module.ofCircuit "pinched" pinchedCircuit
    let held := pinchedCircuit.inputPins.map fun pin => (pin.name, pinchedAssignment pin.name)
    pinchedCircuit.Orderly ∧
      (∀ pin ∈ pinchedCircuit.inputPins, pinchedAssignment pin.name < 2 ^ pin.width.bits) ∧
      (∀ id < pinchedCircuit.netlist.size,
        (pinchedCircuit.netlist.signal id).history.UpTo 0) ∧
      ∃ values final,
        pinchedCircuit.simulate pinchedAssignment 0 pinchedCircuit.netlist = .ok values final ∧
        final.value 3 = .ok 0xffffff ∧
        (module.outputs? held).bind (·.lookup (outputName 0)) = some 0x0fffff := by
  intro module held
  exact ⟨orderly_pinchedCircuit, by decide, by decide, _, _, rfl, rfl, by decide +kernel⟩

end Circuit
end GoldenCircuit
