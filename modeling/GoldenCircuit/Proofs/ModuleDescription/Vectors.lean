import Mathlib.Data.List.Nodup
import Std.Data.TreeMap.Lemmas
import GoldenCircuit.ModuleDescription
import GoldenCircuit.Proofs.Circuit
import GoldenCircuit.Proofs.Json.Members
import GoldenCircuit.Proofs.Text.Hexadecimal

/-! A reader of the vectors in the JSON value of a module. Members are found by name and every value
is taken from its hexadecimal string, so that no order of names matters. -/
namespace GoldenCircuit

namespace ModuleDescription

open Json (Value)

def readPair? : String × Value → Option (String × Nat)
  | (name, value) => do
    let digits ← (← value.text?).toList.dropPrefix? "0x".toList
    return (name, ← Text.hex? digits)

def readValues? (value : Value) : Option (List (String × Nat)) := do
  (← value.members?).mapM readPair?

def readVector? (value : Value) : Option Vector := do
  let members ← value.members?
  let cycle ← (← members.lookup "cycle").natural?
  let inputs ← readValues? (← members.lookup "inputs")
  let outputs ← readValues? (← members.lookup "outputs")
  return { cycle, inputs, outputs }

def readVectors? (value : Value) : Option (List Vector) := do
  (← (← (← value.members?).lookup "vectors").items?).mapM readVector?

theorem readPair?_hex (pair : String × Nat) :
    readPair? (pair.1, .text ("0x" ++ Text.hex pair.2)) = some pair := by
  simp [readPair?, Json.Value.text?_text, List.dropPrefix?, Text.hex?_hex]

theorem readValues?_valuesToJson (values : List (String × Nat)) :
    readValues? (valuesToJson values) = some values := by
  rw [readValues?, valuesToJson, Json.Value.members?_ofMembers]
  exact mapM_map_eq_some fun pair _ => readPair?_hex pair

theorem readVector?_toJson (vector : Vector) : readVector? vector.toJson = some vector := by
  have cycle : (Value.natural vector.cycle).natural? = some vector.cycle := rfl
  simp [readVector?, Vector.toJson, Json.Value.members?_ofMembers, List.lookup_cons,
    readValues?_valuesToJson, cycle]

/-- The vectors of a module read back from its JSON value. -/
theorem readVectors?_toJson (description : ModuleDescription) :
    readVectors? description.toJson = some description.vectors := by
  have found := mapM_map_eq_some fun vector (_ : vector ∈ description.vectors) =>
    readVector?_toJson vector
  simp [readVectors?, toJson, Json.Value.members?_ofMembers, List.lookup_cons, Json.Value.items?,
    found]

/-- Named values in the order of their names are the same values, if every name is there once. -/
theorem byName_perm {values : List (String × Nat)} (once : (values.map Prod.fst).Nodup) :
    (byName values).Perm values := by
  have distinct : (byName values).Nodup := by
    refine List.Pairwise.imp (fun different same => ?_) Std.TreeMap.distinct_keys_toList
    exact different (same ▸ Std.LawfulEqCmp.compare_eq_iff_eq.mpr rfl)
  rw [List.perm_ext_iff_of_nodup distinct once.of_map]
  rintro ⟨name, value⟩
  rw [byName, Std.TreeMap.mem_toList_iff_getElem?_eq_some]
  have apart : values.Pairwise fun one other => ¬compare one.1 other.1 = .eq := by
    refine (List.pairwise_map.mp once).imp fun different same => different ?_
    exact Std.LawfulEqCmp.compare_eq_iff_eq.mp same
  have looked {value : Nat} (member : (name, value) ∈ values) :
      (Std.TreeMap.ofList values)[name]? = some value :=
    Std.TreeMap.getElem?_ofList_of_mem Std.ReflCmp.compare_self apart member
  constructor
  · intro found
    have known : (Std.TreeMap.ofList values).contains name = true := by
      rw [Std.TreeMap.contains_eq_isSome_getElem?, found]
      rfl
    rw [Std.TreeMap.contains_ofList, List.contains_iff_mem] at known
    obtain ⟨⟨_, other⟩, member, rfl⟩ := List.mem_map.mp known
    rw [looked member, Option.some.injEq] at found
    exact found ▸ member
  · exact looked

/-- The names are in order, and none of them is there twice. -/
theorem byName_ascending (values : List (String × Nat)) :
    ((byName values).map Prod.fst).Pairwise (compare · · = .lt) :=
  List.pairwise_map.mpr Std.TreeMap.ordered_keys_toList

/-- Of several values of one name the last one counts. -/
theorem lookup_byName (values : List (String × Nat)) (name : String) :
    (byName values).lookup name = values.reverse.lookup name := by
  have last : (Std.TreeMap.ofList values)[name]? = values.reverse.lookup name := by
    rw [Std.TreeMap.ofList_eq_insertMany_empty, Std.TreeMap.getElem?_insertMany_list,
      List.lookup_eq_findSome?, List.findSomeRev?_eq_findSome?_reverse]
    simp [@eq_comm _ name]
  have once : ((byName values).reverse.map Prod.fst).Nodup := by
    rw [List.map_reverse, List.nodup_reverse]
    refine (byName_ascending values).imp fun before same => ?_
    simp [same] at before
  rw [← last]
  cases found : (Std.TreeMap.ofList values)[name]? with
  | some value =>
    have member := Std.TreeMap.mem_toList_iff_getElem?_eq_some.mpr found
    simpa using Naming.lookup_reverse once (List.mem_reverse.mpr member) []
  | none =>
    rw [List.lookup_eq_none_iff]
    rintro ⟨other, value⟩ member
    rw [byName, Std.TreeMap.mem_toList_iff_getElem?_eq_some] at member
    have different : name ≠ other := by
      rintro rfl
      simp [found] at member
    simpa using different

/-- A vector by names has the values of the golden vector, each under the name of its pin. -/
structure Vector.Lists (circuit : Circuit) (listed : Vector) (vector : GoldenVector) :
    Prop where
  cycle : listed.cycle = vector.cycle
  inputs : listed.inputs.Perm ((circuit.inputPins.map (·.name)).zip vector.inputs)
  outputs : listed.outputs.Perm ((circuit.outputPins.map (·.name)).zip vector.outputs)

theorem Vector.lists_ofGolden {circuit : Circuit} {vector : GoldenVector}
    (once : ((circuit.inputPins ++ circuit.outputPins).map (·.name)).Nodup)
    (inputs : vector.inputs.length = circuit.inputPins.length)
    (outputs : vector.outputs.length = circuit.outputPins.length) :
    Vector.Lists circuit (.ofGolden circuit vector) vector := by
  rw [List.map_append] at once
  constructor
  · rfl
  · apply byName_perm
    rw [List.map_fst_zip (by simp [inputs])]
    exact once.of_append_left
  · rw [Vector.ofGolden, Circuit.mapIdx_outputName outputs]
    apply byName_perm
    rw [List.map_fst_zip (by simp [outputs])]
    exact once.of_append_right

/-- A vector by names gives each input name the value of the last input that bears it, and each
output pin its own value. There are no other names, and none is there twice. -/
structure Vector.Maps (circuit : Circuit) (listed : Vector) (vector : GoldenVector) : Prop where
  cycle : listed.cycle = vector.cycle
  inputs_ascending : (listed.inputs.map Prod.fst).Pairwise (compare · · = .lt)
  outputs_ascending : (listed.outputs.map Prod.fst).Pairwise (compare · · = .lt)
  inputs : ∀ name, listed.inputs.lookup name =
    ((circuit.inputPins.map (·.name)).zip vector.inputs).reverse.lookup name
  outputs : ∀ name, listed.outputs.lookup name =
    ((circuit.outputPins.map (·.name)).zip vector.outputs).lookup name

theorem Vector.maps_ofGolden {circuit : Circuit} {vector : GoldenVector}
    (outputs : vector.outputs.length = circuit.outputPins.length) :
    Vector.Maps circuit (.ofGolden circuit vector) vector where
  cycle := rfl
  inputs_ascending := byName_ascending _
  outputs_ascending := byName_ascending _
  inputs := lookup_byName _
  outputs name := by
    rw [Vector.ofGolden, Circuit.mapIdx_outputName outputs, lookup_byName]
    apply Naming.lookup_reverse_self
    rw [List.map_fst_zip (by simp [outputs])]
    exact circuit.nodup_outputPins

end ModuleDescription
end GoldenCircuit
