import GoldenCircuit.Proofs.GoldenRun
import GoldenCircuit.Proofs.Json.RoundTrip
import GoldenCircuit.Proofs.ModuleDescription.Vectors
import GoldenCircuit.Proofs.Stimulus
import GoldenCircuit.Proofs.Waveform.Golden

/-! Golden values and the widths that texts declare. Inputs are driven with values of their pins, but
an output shows what its signal holds: the first one shows what the reference computes, which is cut
only where the width of the signal is known, and any other one may hold what was recorded before the
run. So a run can give a value to a one-bit pin that has more bits than that. -/
namespace GoldenCircuit

/-- Where a property of two items is one of the second item alone, it holds of two lists if it holds
of all items of the second one. -/
theorem forall₂_iff_forall {First Second : Type} {related property : First → Second → Prop}
    {alone : Second → Prop} (same : ∀ one other, related one other →
      (property one other ↔ alone other)) {firsts : List First} {seconds : List Second}
    (all : List.Forall₂ related firsts seconds) :
    List.Forall₂ property firsts seconds ↔ ∀ other ∈ seconds, alone other := by
  induction all with
  | nil => simp
  | cons here later ih => rw [List.forall₂_cons, List.forall_mem_cons, same _ _ here, ih]

theorem Signal.fit_lt_pinWidth (signal : Signal) {value : Nat}
    (fits : value < 2 ^ signal.pinWidth.bits) : signal.fit value < 2 ^ signal.pinWidth.bits := by
  rwa [fit_of_lt_pinWidth fits]

namespace Circuit

/-- The circuit after some use: it is built alike, and values were recorded for nothing but its
inputs and its first output. -/
structure Uses (start used : Circuit) : Prop where
  alike : start.Alike used
  signal : ∀ id, id ∉ start.inputs → start.outputs[0]? ≠ some id →
    used.netlist.signal id = start.netlist.signal id

/-- The signal holds no value that is too wide for a pin at it. -/
def Narrow (circuit : Circuit) (id : Nat) : Prop :=
  ∀ value, circuit.netlist.value id = .ok value →
    value < 2 ^ (circuit.netlist.signal id).pinWidth.bits

namespace Uses

variable {start used : Circuit}

theorem refl (circuit : Circuit) : circuit.Uses circuit :=
  ⟨.refl circuit, fun _ _ _ => rfl⟩

theorem record (uses : start.Uses used) {id : Nat} (within : id < used.netlist.size)
    (open_end : id ∈ start.inputs ∨ start.outputs[0]? = some id) (value : Nat) :
    start.Uses (used.record id value) where
  alike := uses.alike.trans (used.alike_record within value)
  signal other undriven unrecorded := by
    have different : other ≠ id := by
      rintro rfl
      rcases open_end with driven | recorded
      · exact undriven driven
      · exact unrecorded recorded
    rw [netlist_record, Netlist.signal_record_of_ne within different]
    exact uses.signal other undriven unrecorded

theorem advance (uses : start.Uses used) : start.Uses used.advance :=
  ⟨uses.alike.trans used.alike_advance, uses.signal⟩

end Uses

/-- A value that fits is not too wide once it is recorded, and no other signal changes. -/
theorem narrow_record {circuit : Circuit} {id value : Nat} (within : id < circuit.netlist.size)
    (upTo : (circuit.netlist.signal id).history.UpTo circuit.cycle)
    (fits : value < 2 ^ (circuit.netlist.signal id).pinWidth.bits) {other : Nat}
    (before : other = id ∨ circuit.Narrow other) : (circuit.record id value).Narrow other := by
  intro held known
  by_cases same : other = id
  · subst same
    rw [netlist_record, Netlist.value, Netlist.signal_record_self within,
      Signal.value_eq_ok_iff, Signal.history_record, upTo.value?_record] at known
    rw [netlist_record, Netlist.signal_record_self within, Signal.pinWidth, Signal.width_record,
      ← Signal.pinWidth, ← Option.some.inj known]
    exact Signal.fit_lt_pinWidth _ fits
  · rw [netlist_record, Netlist.value, Netlist.signal_record_of_ne within same] at known
    rw [netlist_record, Netlist.signal_record_of_ne within same]
    exact (before.resolve_left same) held known

end Circuit

namespace Specimen

/-- What the reference computes of inputs, before it is recorded. -/
def combine (specimen : Specimen) (inputs : List Nat) : Nat :=
  inputs.foldl (· &&& ·) specimen.width.mask

/-- What an output at a signal shows in a cycle with these inputs, in a run from a specimen: the
first output what the reference computes, another one what its signal is driven with, or else what
it held before the run. -/
structure Shows (specimen : Specimen) (inputs : List Nat) (value id : Nat) : Prop where
  first : specimen.circuit.outputs[0]? = some id →
    value = (specimen.circuit.netlist.signal id).fit (specimen.combine inputs)
  driven : specimen.circuit.outputs[0]? ≠ some id → ∀ index : Nat,
    specimen.circuit.inputs[index]? = some id → inputs[index]? = some value
  held : specimen.circuit.outputs[0]? ≠ some id → id ∉ specimen.circuit.inputs →
    specimen.circuit.netlist.value id = .ok value

/-- No output shows too wide a value in a cycle with these inputs, in a run from a specimen: what the
reference computes is cut or has one bit, and what is neither recorded nor driven is narrow before
the run. -/
structure Contains (specimen : Specimen) (inputs : List Nat) : Prop where
  first : ∀ id, specimen.circuit.outputs[0]? = some id →
    (specimen.circuit.netlist.signal id).width = none → specimen.combine inputs < 2
  others : ∀ id ∈ specimen.circuit.outputs, specimen.circuit.outputs[0]? ≠ some id →
    id ∉ specimen.circuit.inputs → specimen.circuit.Narrow id

/-- The specimen after some use. -/
structure Uses (start used : Specimen) : Prop where
  width : used.width = start.width
  circuit : start.circuit.Uses used.circuit

/-- A step records what the reference computes at the first output, and nothing else. -/
theorem step_of_ok {specimen left : Specimen} (done : step specimen = .ok () left)
    {inputs : List Nat} (known : specimen.circuit.inputValues = .ok inputs) :
    ∃ id, specimen.circuit.outputs[0]? = some id ∧
      (specimen.circuit.netlist.signal id).history.UpTo specimen.circuit.cycle ∧
      left = specimen.withCircuit
        (specimen.circuit.record id (specimen.combine inputs)).advance := by
  rcases step_cases specimen with ⟨fault, stopped⟩ | ⟨value, id, expected, found, upTo, stepped⟩
  · rw [stopped] at done
    contradiction
  · obtain ⟨_, known_too, rfl⟩ := expected_eq_ok_iff.mp expected
    cases known.symm.trans known_too
    rw [stepped] at done
    cases done
    exact ⟨id, found, upTo, rfl⟩

/-- What is held after a step is what an output should show. -/
theorem Uses.shows_record {start driven : Specimen} (uses : start.Uses driven) {inputs : List Nat}
    (known : driven.circuit.inputValues = .ok inputs) {id : Nat}
    (found : driven.circuit.outputs[0]? = some id)
    (upTo : (driven.circuit.netlist.signal id).history.UpTo driven.circuit.cycle)
    {value other : Nat}
    (held : (driven.circuit.record id (driven.combine inputs)).netlist.value other = .ok value) :
    start.Shows inputs value other := by
  have within := Circuit.output_lt found
  have alike := uses.circuit.alike
  have kept (different : start.circuit.outputs[0]? ≠ some other) :
      driven.circuit.netlist.value other = .ok value := by
    have apart : other ≠ id := by
      rintro rfl
      exact different (alike.outputs ▸ found)
    rwa [Circuit.netlist_record, Netlist.value, Netlist.signal_record_of_ne within apart] at held
  constructor
  · intro first
    obtain rfl : id = other := by
      rw [alike.outputs, found] at first
      exact Option.some.inj first
    rw [Circuit.netlist_record, Netlist.value, Netlist.signal_record_self within,
      Signal.value_eq_ok_iff, Signal.history_record, upTo.value?_record, Option.some.injEq] at held
    rw [← held, Signal.fit, Signal.fit, alike.width, combine, combine, uses.width]
  · intro different index input
    rw [alike.inputs, ← Array.getElem?_toList] at input
    have looked := congrArg (·[index]?) (mapM_eq_ok_iff.mp known)
    simp only [List.getElem?_map, input, Option.map_some, kept different] at looked
    obtain ⟨shown, found, same⟩ := Option.map_eq_some_iff.mp looked.symm
    cases same
    exact found
  · intro different undriven
    have same := uses.circuit.signal other undriven different
    have held := kept different
    rwa [Netlist.value, same] at held

/-- An output whose value is as it should be shows none that is too wide, unless the reference
computes it for a signal of unknown width, or it was held before. -/
theorem Shows.lt_pinWidth_iff {specimen : Specimen} {inputs : List Nat} {value id : Nat}
    (shows : specimen.Shows inputs value id)
    (fits : List.Forall₂ (fun value (pin : Pin) => value < 2 ^ pin.width.bits) inputs
      specimen.circuit.inputPins) :
    value < 2 ^ (specimen.circuit.netlist.signal id).pinWidth.bits ↔
      (specimen.circuit.outputs[0]? = some id →
        (specimen.circuit.netlist.signal id).width = none → specimen.combine inputs < 2) ∧
      (specimen.circuit.outputs[0]? ≠ some id → id ∉ specimen.circuit.inputs →
        specimen.circuit.Narrow id) := by
  by_cases first : specimen.circuit.outputs[0]? = some id
  · have computed := shows.first first
    cases known : (specimen.circuit.netlist.signal id).width with
    | none =>
      simp [first, computed, known, Signal.fit, Signal.pinWidth, Width.bit]
    | some width =>
      have cut := Signal.fit_lt known (specimen.combine inputs)
      simp [first, computed, known, Signal.pinWidth, cut]
  · by_cases driven : id ∈ specimen.circuit.inputs
    · obtain ⟨index, within, rfl⟩ := Array.mem_iff_getElem.mp driven
      have given := shows.driven first index (Array.getElem?_eq_getElem within)
      have pin := (List.forall₂_iff_zip.mp fits).2 (List.mem_iff_getElem?.mpr
        ⟨index, List.getElem?_zip_eq_some.mpr ⟨given, by simp [Circuit.inputPins, within]; rfl⟩⟩)
      simp [first, driven, pin]
    · have held := shows.held first driven
      simp [first, driven, Circuit.Narrow, held]

end Specimen

namespace Bench

variable {start : Specimen} {bench left : Bench}

/-- What an input is driven with fits the width that it is drawn for. -/
theorem driveInput_of_ok {index : Nat} {width : Width}
    (run : driveInput index width bench = .ok () left) :
    ∃ id value, bench.specimen.circuit.inputs[index]? = some id ∧ value < 2 ^ width.bits ∧
      (bench.specimen.circuit.netlist.signal id).history.UpTo bench.specimen.circuit.cycle ∧
      left.specimen = bench.specimen.withCircuit (bench.specimen.circuit.record id value) := by
  have opened : driveInput index width bench =
      onSpecimen (Specimen.poke index (bench.stimulus.next width).1)
        { bench with stimulus := (bench.stimulus.next width).2 } :=
    rfl
  rw [opened] at run
  obtain ⟨poked, poke_run, rfl⟩ := onSpecimen_eq_ok_iff.mp run
  rcases Specimen.poke_cases bench.specimen index (bench.stimulus.next width).1 with
    ⟨fault, stopped⟩ | ⟨id, found, upTo, done⟩
  · rw [stopped] at poke_run
    contradiction
  · rw [done] at poke_run
    cases poke_run
    exact ⟨id, _, found, bench.stimulus.next_lt width, upTo, rfl⟩

/-- Driving the inputs from one on, where those before it are narrow, makes all of them narrow. -/
theorem driveInputs_of_ok {pins : List Pin} {index : Nat}
    (rest : start.circuit.inputPins.drop index = pins)
    (run : ((pins.zipIdx index).forM fun (pin, index) => driveInput index pin.width) bench =
      .ok () left)
    (uses : start.Uses bench.specimen)
    (before : ∀ place < index, ∀ id, start.circuit.inputs[place]? = some id →
      bench.specimen.circuit.Narrow id) :
    start.Uses left.specimen ∧ ∀ id ∈ start.circuit.inputs, left.specimen.circuit.Narrow id := by
  induction pins generalizing index bench with
  | nil =>
    cases run
    refine ⟨uses, fun id input => ?_⟩
    obtain ⟨place, within, rfl⟩ := Array.mem_iff_getElem.mp input
    have length : start.circuit.inputs.size ≤ index := by
      simpa [Circuit.inputPins] using rest
    exact before place (by omega) _ (Array.getElem?_eq_getElem within)
  | cons pin pins ih =>
    obtain ⟨_, driven, first, later⟩ := Action.bind_eq_ok_iff.mp run
    obtain ⟨id, value, found, fits, upTo, recorded⟩ := driveInput_of_ok first
    have within := Circuit.input_lt found
    rw [← uses.circuit.alike.inputs] at found
    have pin_eq : pin.width = (bench.specimen.circuit.netlist.signal id).pinWidth := by
      have here : start.circuit.inputPins[index]? = some pin := by
        have head := congrArg (·[0]?) rest
        simpa using head
      rw [Circuit.inputPins, List.getElem?_map, Array.getElem?_toList, found] at here
      cases here
      simp only [Signal.pinWidth, uses.circuit.alike.width]
    have narrow {other : Nat} (before : other = id ∨ bench.specimen.circuit.Narrow other) :=
      Circuit.narrow_record within upTo (pin_eq ▸ fits) before
    refine ih ?_ later ⟨?_, ?_⟩ fun place past other listed => ?_
    · rw [← List.tail_drop, rest, List.tail_cons]
    · rw [recorded]
      exact uses.width
    · rw [recorded]
      exact uses.circuit.record within (.inl (Array.mem_of_getElem? found)) value
    · rw [recorded]
      rcases Nat.lt_succ_iff_lt_or_eq.mp past with earlier | rfl
      · exact narrow (.inr (before place earlier other listed))
      · exact narrow (.inl (Option.some.inj (listed.symm.trans found)))

theorem drive_of_ok (run : drive bench = .ok () left) (uses : start.Uses bench.specimen) :
    start.Uses left.specimen ∧ ∀ id ∈ start.circuit.inputs, left.specimen.circuit.Narrow id := by
  have opened : (bench.specimen.circuit.inputPins.zipIdx.forM
      fun (pin, index) => driveInput index pin.width) bench = .ok () left := run
  rw [← uses.circuit.alike.inputPins] at opened
  exact driveInputs_of_ok List.drop_zero opened uses fun _ past => absurd past (Nat.not_lt_zero _)

/-- In each cycle of a run the inputs fit their pins, and the outputs show what they should. -/
theorem shows_runCycle {vector : GoldenVector} (uses : start.Uses bench.specimen)
    (run : runCycle bench = .ok vector left) : start.Uses left.specimen ∧
      List.Forall₂ (fun value (pin : Pin) => value < 2 ^ pin.width.bits) vector.inputs
        start.circuit.inputPins ∧
      List.Forall₂ (start.Shows vector.inputs) vector.outputs start.circuit.outputs.toList := by
  obtain ⟨driven, stepped, drive_done, sample, step_run, outputs_known, rfl⟩ := runCycle_split run
  obtain ⟨uses_driven, narrow⟩ := drive_of_ok drive_done uses
  obtain ⟨_, inputs_known⟩ := Circuit.sample_eq_ok_iff.mp sample
  obtain ⟨id, found, upTo, rfl⟩ := Specimen.step_of_ok step_run inputs_known
  have alike := uses_driven.circuit.alike
  have within := Circuit.output_lt found
  have uses_recorded := (uses_driven.circuit.record within (.inr (alike.outputs ▸ found))
    (driven.specimen.combine vector.inputs)).advance
  refine ⟨⟨uses_driven.width, uses_recorded⟩, ?_, ?_⟩
  · have listed := mapM_eq_ok_iff_forall₂.mp inputs_known
    rw [← alike.inputs] at listed
    rw [Circuit.inputPins, List.forall₂_map_right_iff]
    refine List.forall₂_iff_zip.mpr ⟨listed.length_eq, fun {value id} paired => ?_⟩
    have known := (List.forall₂_iff_zip.mp listed).2 paired
    have fits := narrow id (Array.mem_toList_iff.mp (List.of_mem_zip paired).2) value known
    rwa [Signal.pinWidth, ← alike.width, ← Signal.pinWidth] at fits
  · have listed := mapM_eq_ok_iff_forall₂.mp outputs_known
    rw [Specimen.circuit_withCircuit, ← uses_recorded.alike.outputs] at listed
    exact listed.imp fun value other held => uses_driven.shows_record inputs_known found upTo held

end Bench

theorem Circuit.forall₂_outputPins {circuit : Circuit} {values : List Nat} :
    List.Forall₂ (fun value (pin : Pin) => value < 2 ^ pin.width.bits) values circuit.outputPins ↔
      List.Forall₂ (fun value id => value < 2 ^ (circuit.netlist.signal id).pinWidth.bits) values
        circuit.outputs.toList := by
  have widths : circuit.outputPins.map (·.width) =
      circuit.outputs.toList.map fun id => (circuit.netlist.signal id).pinWidth := by
    apply List.ext_getElem <;> simp [outputPins]
  let fits (value : Nat) (width : Width) : Prop := value < 2 ^ width.bits
  calc List.Forall₂ (fun value (pin : Pin) => fits value pin.width) values circuit.outputPins
    _ ↔ List.Forall₂ fits values (circuit.outputPins.map (·.width)) :=
      List.forall₂_map_right_iff.symm
    _ ↔ List.Forall₂ fits values
          (circuit.outputs.toList.map fun id => (circuit.netlist.signal id).pinWidth) := by
      rw [widths]
    _ ↔ List.Forall₂ (fun value id => fits value (circuit.netlist.signal id).pinWidth) values
          circuit.outputs.toList :=
      List.forall₂_map_right_iff

namespace Specimen

/-- The values of a vector fit their pins where the inputs do and no output shows too wide a
value. -/
theorem fits_iff_contains {specimen : Specimen} {vector : GoldenVector}
    (inputs : List.Forall₂ (fun value (pin : Pin) => value < 2 ^ pin.width.bits) vector.inputs
      specimen.circuit.inputPins)
    (shows : List.Forall₂ (specimen.Shows vector.inputs) vector.outputs
      specimen.circuit.outputs.toList) :
    vector.Fits specimen.circuit ↔ specimen.Contains vector.inputs := by
  have outputs := forall₂_iff_forall (fun _ _ shows => shows.lt_pinWidth_iff inputs) shows
  rw [← Circuit.forall₂_outputPins] at outputs
  constructor
  · intro fits
    have all := outputs.mp fits.outputs
    constructor
    · intro id first
      exact (all id (Array.mem_toList_iff.mpr (Array.mem_of_getElem? first))).1 first
    · intro id output
      exact (all id (Array.mem_toList_iff.mpr output)).2
  · intro contains
    refine ⟨inputs, outputs.mpr fun id output => ⟨contains.first id, ?_⟩⟩
    exact contains.others id (Array.mem_toList_iff.mp output)

variable {plan : RunPlan} {specimen left : Specimen} {vectors : List GoldenVector}

/-- In a golden run every input value fits its pin, and the values of a vector all fit unless an
output shows too wide a one: unless the first output, at a signal of unknown width, shows more than
one bit of what the reference computes, or another output, which is not driven, shows what it held
before the run. If all values of a run fit, then the dump shows them as they are, and so do the
tester and the description. -/
theorem goldenRun_fits_iff (run : goldenRun plan specimen = .ok vectors left) :
    (∀ vector ∈ vectors,
      List.Forall₂ (fun value (pin : Pin) => value < 2 ^ pin.width.bits) vector.inputs
        specimen.circuit.inputPins ∧
      (vector.Fits specimen.circuit ↔ specimen.Contains vector.inputs)) ∧
    let pins := specimen.circuit.inputPins ++ specimen.circuit.outputPins
    (Text.IsWord specimen.name → (∀ pin ∈ pins, Text.IsWord pin.name) →
      (∀ vector ∈ vectors, specimen.Contains vector.inputs) →
      (∃ text dump, specimen.Writes .vcd plan text ∧ Waveform.read text = some dump ∧
        dump.finalTime? = some vectors.length ∧
        ∀ (time : Nat) (vector : GoldenVector), vectors[time]? = some vector →
          dump.shownAt time =
            (pins.map (·.name)).zip ((vector.inputs ++ vector.outputs).map some)) ∧
      (∃ module, specimen.Writes .chisel plan (module ++ Chisel.renderTester specimen.name
        (vectors.flatMap (Chisel.commandsOfVector specimen.circuit)))) ∧
      ∃ text value, specimen.Writes .json plan (text ++ "\n") ∧ Json.parse? text = some value ∧
        ModuleDescription.readVectors? value =
          some (vectors.map (ModuleDescription.Vector.ofGolden specimen.circuit))) := by
  have cycles : ∀ vector ∈ vectors,
      List.Forall₂ (fun value (pin : Pin) => value < 2 ^ pin.width.bits) vector.inputs
        specimen.circuit.inputPins ∧
      List.Forall₂ (specimen.Shows vector.inputs) vector.outputs specimen.circuit.outputs.toList :=
    @Bench.forall_of_goldenRun specimen.Uses _ Bench.shows_runCycle _ _ _ _ run ⟨rfl, .refl _⟩
  have fits_iff : ∀ vector ∈ vectors,
      (vector.Fits specimen.circuit ↔ specimen.Contains vector.inputs) :=
    fun vector member => fits_iff_contains (cycles vector member).1 (cycles vector member).2
  refine ⟨fun vector member => ⟨(cycles vector member).1, fits_iff vector member⟩, ?_⟩
  intro pins name_word pin_words contains
  have fits (vector : GoldenVector) (member : vector ∈ vectors) : vector.Fits specimen.circuit :=
    (fits_iff vector member).mpr (contains vector member)
  have parsed := @Json.parse?_indented (Delivery.describe specimen vectors).toJson "" (by simp)
  rw [String.append_empty] at parsed
  refine ⟨Waveform.writes_shown run name_word pin_words fits, ⟨_, writes_chisel run⟩, ?_⟩
  exact ⟨_, _, writes_description run, parsed, ModuleDescription.readVectors?_toJson _⟩

/-- An input that is listed twice and is an output too, a first output narrower than it, and an
output of unknown width that holds a bit which nothing replaces. -/
def narrowed : Specimen where
  name := "narrowed"
  width := ⟨10, by decide⟩
  circuit :=
    { netlist := (((Netlist.empty.add "a" (some ⟨10, by decide⟩)).1.add "y"
        (some ⟨6, by decide⟩)).1.add "held").1.record 2 1 0
      inputs := #[0, 0], gates := #[], outputs := #[1, 0, 2]
      inputs_lt := by decide, gates_within := by decide, outputs_lt := by decide }

theorem contains_narrowed (inputs : List Nat) : narrowed.Contains inputs where
  first := by
    rintro id ⟨⟩ ⟨⟩
  others := by
    intro id output other undriven value held
    have last : ∀ id ∈ narrowed.circuit.outputs, narrowed.circuit.outputs[0]? ≠ some id →
        id ∉ narrowed.circuit.inputs → id = 2 := by
      decide +kernel
    cases last id output other undriven
    cases held
    decide

theorem goldenRun_fits_of_narrowed :
    ∃ vectors left, goldenRun { cycles := 2 } narrowed = .ok vectors left ∧
      (∀ vector ∈ vectors, vector.Fits narrowed.circuit) ∧
      ∃ text dump, narrowed.Writes .vcd { cycles := 2 } text ∧ Waveform.read text = some dump ∧
        dump.finalTime? = some vectors.length := by
  have ended : ((goldenRun { cycles := 2 }).outcome narrowed).toBool = true := by decide +kernel
  cases run : goldenRun { cycles := 2 } narrowed with
  | ok vectors left =>
    obtain ⟨fits, texts⟩ := goldenRun_fits_iff run
    obtain ⟨⟨text, dump, written, read, final, _⟩, _⟩ := texts (by decide) (by decide)
      fun vector _ => contains_narrowed vector.inputs
    exact ⟨vectors, left, rfl,
      fun vector member => (fits vector member).2.mpr (contains_narrowed vector.inputs),
      text, dump, written, read, final⟩
  | error fault left =>
    rw [Action.outcome_of_error run] at ended
    contradiction

/-- An input of twelve bits, and an output of unknown width. -/
def undeclared : Specimen where
  name := "one_sided_and_tree"
  width := ⟨12, by decide⟩
  circuit :=
    { netlist := ((Netlist.empty.add "a" (some ⟨12, by decide⟩)).1.add "y").1
      inputs := #[0], gates := #[], outputs := #[1]
      inputs_lt := by decide, gates_within := by decide, outputs_lt := by decide }

/-- The output pin is declared with one bit, and its value has twelve. The dump shows the lowest one,
and the vector, which the tester and the description show, all of them. -/
theorem goldenRun_not_fits_of_undeclared :
    let plan : RunPlan := { cycles := 1, seed := 3 }
    let vector : GoldenVector := { cycle := 0, inputs := [0xbda], outputs := [0xbda] }
    (∃ left, goldenRun plan undeclared = .ok [vector] left) ∧
      ¬vector.Fits undeclared.circuit ∧
      ∃ text dump, undeclared.Writes .vcd plan text ∧ Waveform.read text = some dump ∧
        dump.shownAt 0 = [("a", some 0xbda), ("out0", some 0)] := by
  intro plan vector
  have ended : (goldenRun { cycles := 1, seed := 3 }).outcome undeclared =
      .ok [{ cycle := 0, inputs := [0xbda], outputs := [0xbda] }] := by
    decide +kernel
  have dumped : (Waveform.read ((Waveform.Recorder.ofSpecimen Waveform.defaultTimescale
      undeclared).captureVectors [{ cycle := 0, inputs := [0xbda], outputs := [0xbda] }]).render).map
        (·.shownAt 0) = some [("a", some 0xbda), ("out0", some 0)] := by
    decide +kernel
  obtain ⟨dump, read, shown⟩ := Option.map_eq_some_iff.mp dumped
  cases run : goldenRun plan undeclared with
  | error fault left =>
    rw [Action.outcome_of_error run] at ended
    cases ended
  | ok vectors left =>
    rw [Action.outcome_of_ok run] at ended
    cases ended
    have wide : ¬0xbda < 2 ^ Width.bit.bits := by decide
    have written := writes_dump run
    refine ⟨⟨left, rfl⟩, fun fits => ?_, ?_⟩
    · exact wide (List.forall₂_cons.mp fits.outputs).1
    · exact ⟨_, dump, written, read, shown⟩

end Specimen
end GoldenCircuit
