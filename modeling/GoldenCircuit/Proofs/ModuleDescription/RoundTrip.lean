import GoldenCircuit.Proofs.ModuleDescription.Reader

/-! Modules load as they were described: each part from its JSON value first, then the lists of
parts, and last the module. -/
namespace GoldenCircuit
namespace ModuleDescription

open Json (Value)

/-! ### The parts -/

theorem readWidth?_widthValue (width : Width) : readWidth? (widthValue width) = some width := by
  have natural : (widthValue width).natural? = some width.bits := rfl
  simp [readWidth?, natural, Width.ofNat?, width.pos]

theorem readOpcode?_symbol (opcode : Opcode) : readOpcode? (.text opcode.symbol) = some opcode := by
  rw [readOpcode?, Json.Value.text?_text]
  cases opcode <;> decide

theorem readPin?_pinToJson (direction : Direction) (pin : Pin) :
    readPin? (pinToJson direction.word pin) = some (direction, pin) := by
  have read : readDirection? (.text direction.word) = some direction := by
    rw [readDirection?, Json.Value.text?_text]
    cases direction <;> decide
  simp [pinToJson, readPin?, Json.Value.members?_ofMembers, Json.Value.text?_text, List.lookup_cons,
    readWidth?_widthValue, read]

theorem readNet?_toJson (net : Net) : readNet? net.toJson = some net := by
  simp [Net.toJson, readNet?, Json.Value.members?_ofMembers, Json.Value.text?_text,
    List.lookup_cons, readWidth?_widthValue]

theorem readExpression?_toJson (expression : Expression) :
    readExpression? expression.toJson = some expression := by
  induction expression with
  | signal name width =>
    simp [Expression.toJson, Value.ofMembers, readExpression?, Value.members?, Json.text?_units,
      Json.Value.text?_text, List.lookup_cons, readWidth?_widthValue]
  | binary opcode left right width left_read right_read =>
    simp [Expression.toJson, Value.ofMembers, readExpression?, Value.members?, Json.text?_units,
      Json.Value.text?_text, List.lookup_cons, readWidth?_widthValue, readOpcode?_symbol,
      readOperands, left_read, right_read]

theorem readAssignment?_toJson (assignment : Assignment) :
    readAssignment? assignment.toJson = some assignment := by
  simp [Assignment.toJson, readAssignment?, Json.Value.members?_ofMembers, Json.Value.text?_text,
    List.lookup_cons, readExpression?_toJson]

/-! ### The module -/

/-- What is loaded of a description: inputs before outputs, and empty lists of what no circuit
has. -/
def loaded (description : ModuleDescription) : Loaded where
  name := description.name
  pins := description.inputs.map (.into, ·) ++ description.outputs.map (.out, ·)
  nets := description.nets
  registers := []
  assignments := description.assignments
  processes := []
  memories := []
  vectors := description.vectors

theorem load?_toJson (description : ModuleDescription) :
    load? description.toJson = some description.loaded := by
  have pins : description.inputs.map (pinToJson "in") ++ description.outputs.map (pinToJson "out") =
      description.loaded.pins.map fun pin => pinToJson pin.1.word pin.2 := by
    simp [loaded, Direction.word, Function.comp_def]
  have pins_read := mapM_map_eq_some fun pin (_ : pin ∈ description.loaded.pins) =>
    readPin?_pinToJson pin.1 pin.2
  have nets_read := mapM_map_eq_some fun net (_ : net ∈ description.nets) => readNet?_toJson net
  have assignments_read := mapM_map_eq_some fun assignment
    (_ : assignment ∈ description.assignments) => readAssignment?_toJson assignment
  have vectors_read := mapM_map_eq_some fun vector (_ : vector ∈ description.vectors) =>
    readVector?_toJson vector
  rw [load?, toJson, pins, Json.Value.members?_ofMembers]
  simp [readList?, List.lookup_cons, Json.Value.items?, Json.Value.text?_text, pins_read, nets_read,
    assignments_read, vectors_read]
  rfl

end ModuleDescription
end GoldenCircuit
