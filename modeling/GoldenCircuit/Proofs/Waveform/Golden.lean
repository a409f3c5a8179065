import Mathlib.Data.List.Forall2
import GoldenCircuit.Proofs.GoldenRun
import GoldenCircuit.Proofs.Waveform.Dump
import GoldenCircuit.Proofs.Waveform.RoundTrip
import GoldenCircuit.Proofs.Writing

/-! The dump of a golden run. If every vector has a value for each pin, the dump shows at each time
the values of the vector with that number, although it holds nothing but changes. -/
namespace GoldenCircuit.Waveform

/-- What a dump shows at a time: the name of each signal, and its value if it has one. -/
def Dump.shownAt (dump : Dump) (time : Nat) : List (String × Option Nat) :=
  dump.declarations.mapIdx fun index declaration => (declaration.name, dump.valueAt index time)

theorem Dump.shownAt_eq_zip {dump : Dump} {names : List String} {values : List Nat} {time : Nat}
    (declared : dump.declarations.map (·.name) = names) (length : values.length = names.length)
    (shown : ∀ index < names.length, dump.valueAt index time = values[index]?) :
    dump.shownAt time = names.zip (values.map some) := by
  subst declared
  rw [List.length_map] at length
  apply List.ext_getElem
  · simp [shownAt, length]
  · intro index within _
    rw [shownAt, List.length_mapIdx] at within
    have value := shown index (by rwa [List.length_map])
    rw [List.getElem?_eq_getElem (length ▸ within)] at value
    simp [shownAt, value]

theorem mostRecent_of_captured {captures : List (List Nat)} {time index value : Nat}
    {values : List Nat} (captured : captures[time]? = some values)
    (given : values[index]? = some value) : mostRecent captures time index = some value := by
  have last : captures.take (time + 1) = captures.take time ++ [values] := by
    rw [List.take_add_one, captured, Option.toList_some]
  rw [mostRecent, last, Recorder.Captured.getLast?_given, given, Option.some_or]

namespace Recorder

theorem captured_ofSpecimen (timescale : String) (specimen : Specimen)
    (vectors : List GoldenVector) :
    Captured ((specimen.circuit.inputPins ++ specimen.circuit.outputPins).map fun pin =>
        (pin.name, pin.width.bits))
      (vectors.map fun vector => vector.inputs ++ vector.outputs)
      ((ofSpecimen timescale specimen).captureVectors vectors) := by
  generalize pins_eq : specimen.circuit.inputPins ++ specimen.circuit.outputPins = pins
  have declared : (pins.map (·.name)).mapIdx (fun index name =>
      (name, (pins.map (·.width.bits))[index]?.getD 1)) =
      pins.map fun pin => (pin.name, pin.width.bits) := by
    apply List.ext_getElem?
    intro index
    cases found : pins[index]? with
    | none => simp [found]
    | some pin => simp [found]
  have captured := (Captured.declare specimen.name timescale (pins.map (·.name))
    (pins.map (·.width.bits))).foldl (vectors.map fun vector => vector.inputs ++ vector.outputs)
  rw [declared, List.nil_append, List.foldl_map] at captured
  rw [ofSpecimen, pins_eq]
  exact captured

variable {specimen : Specimen} {timescale : String} {vectors : List GoldenVector}

/-- If every value fits its pin, the dump of a golden run reads back as the values of its
vectors. -/
theorem read_captureVectors (timescale_word : Text.IsWord timescale)
    (name_word : Text.IsWord specimen.name) {pins : List Pin}
    (pins_eq : pins = specimen.circuit.inputPins ++ specimen.circuit.outputPins)
    (pin_words : ∀ pin ∈ pins, Text.IsWord pin.name)
    (fits : ∀ vector ∈ vectors, List.Forall₂ (fun value (pin : Pin) => value < 2 ^ pin.width.bits)
      (vector.inputs ++ vector.outputs) pins) :
    ∃ dump, read ((ofSpecimen timescale specimen).captureVectors vectors).render = some dump ∧
      dump.finalTime? = some vectors.length ∧
      ∀ (time : Nat) (vector : GoldenVector), vectors[time]? = some vector →
        dump.shownAt time =
          (pins.map (·.name)).zip ((vector.inputs ++ vector.outputs).map some) := by
  have captured := captured_ofSpecimen timescale specimen vectors
  have texts := scope_foldl (ofSpecimen timescale specimen)
    (vectors.map fun vector => vector.inputs ++ vector.outputs)
  rw [List.foldl_map] at texts
  rw [← pins_eq] at captured
  generalize recorder_eq : (ofSpecimen timescale specimen).captureVectors vectors = recorder
    at captured
  rw [← captureVectors, recorder_eq] at texts
  have writable : recorder.Writable := by
    refine captured.writable (texts.2.symm ▸ timescale_word) (texts.1.symm ▸ name_word) ?_ ?_
    · simpa using pin_words
    · intro values was index signal declared value given
      obtain ⟨vector, among, rfl⟩ := List.mem_map.mp was
      rw [List.getElem?_map] at declared
      obtain ⟨pin, found, rfl⟩ := Option.map_eq_some_iff.mp declared
      have paired : (value, pin) ∈ (vector.inputs ++ vector.outputs).zip pins :=
        List.mem_iff_getElem?.mpr ⟨index, List.getElem?_zip_eq_some.mpr ⟨given, found⟩⟩
      exact (List.forall₂_iff_zip.mp (fits vector among)).2 paired
  refine ⟨recorder.dump, read_render_eq writable, ?_, fun time vector found => ?_⟩
  · rw [finalTime?_dump, captured.time, List.length_map]
  · have names : recorder.dump.declarations.map (·.name) = pins.map (·.name) := by
      have declared := congrArg (List.map Prod.fst) (declared_dump recorder)
      rw [captured.signals] at declared
      simpa [Function.comp_def] using declared
    have count : recorder.signals.length = pins.length := by
      rw [captured.length_signals, List.length_map]
    have length := (fits vector (List.mem_of_getElem? found)).length_eq
    apply Dump.shownAt_eq_zip names
    · rw [length, List.length_map]
    · intro index within
      have inside : index < (vector.inputs ++ vector.outputs).length := by
        simpa [length] using within
      rw [List.length_map] at within
      rw [valueAt_dump captured.sorted (count ▸ within),
        captured.latest index (by rwa [List.length_map]), List.getElem?_eq_getElem inside]
      refine mostRecent_of_captured ?_ (List.getElem?_eq_getElem inside)
      rw [List.getElem?_map, found, Option.map_some]

end Recorder

/-- The dump that is written of a specimen shows the vectors of the golden run, each at the time of
its index, if their values fit the pins. -/
theorem writes_shown {specimen left : Specimen} {plan : RunPlan} {vectors : List GoldenVector}
    (run : Specimen.goldenRun plan specimen = .ok vectors left)
    (name_word : Text.IsWord specimen.name)
    (pin_words : ∀ pin ∈ specimen.circuit.inputPins ++ specimen.circuit.outputPins,
      Text.IsWord pin.name)
    (fits : ∀ vector ∈ vectors, vector.Fits specimen.circuit) :
    ∃ text dump, specimen.Writes .vcd plan text ∧ read text = some dump ∧
      dump.finalTime? = some vectors.length ∧
      ∀ (time : Nat) (vector : GoldenVector), vectors[time]? = some vector →
        dump.shownAt time =
          ((specimen.circuit.inputPins ++ specimen.circuit.outputPins).map (·.name)).zip
            ((vector.inputs ++ vector.outputs).map some) := by
  obtain ⟨dump, read, final, shown⟩ := Recorder.read_captureVectors
    (by decide : Text.IsWord defaultTimescale) name_word rfl pin_words
    fun vector member => List.rel_append (fits vector member).inputs (fits vector member).outputs
  exact ⟨_, dump, Specimen.writes_dump run, read, final, shown⟩

end GoldenCircuit.Waveform
