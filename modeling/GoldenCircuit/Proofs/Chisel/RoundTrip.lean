import GoldenCircuit.Proofs.Chisel.Reader

/-! The file of a module and its tester reads back as both of them, if all names in it are words
and every definition has an operator. -/
namespace GoldenCircuit.Chisel

open Text (openBrace closeBrace IsWord IsLine AreLines)

/-! ### What can be read back -/

def Reference.Legible : Reference → Prop
  | .pin name => IsWord name
  | .value name => IsWord name ∧ name.toList.dropPrefix? "io.".toList = none

theorem Reference.legible_automaticName (number : Nat) :
    Legible (.value (Netlist.automaticName number)) := by
  refine ⟨.append (by decide) (Text.isWord_toString number), ?_⟩
  simp [Netlist.automaticName, List.dropPrefix?]

structure Definition.Legible (definition : Definition) : Prop where
  name : IsWord definition.name
  several : ∃ first second others, definition.operands = first :: second :: others
  operands : ∀ operand ∈ definition.operands, operand.Legible

structure Module.Legible (module : Module) : Prop where
  name : IsWord module.name
  inputs : ∀ pin ∈ module.inputs, IsWord pin.name
  outputs : ∀ pin ∈ module.outputs, IsWord pin.name
  definitions : ∀ definition ∈ module.definitions, definition.Legible
  connections : ∀ connection ∈ module.connections, IsWord connection.1 ∧ connection.2.Legible

def Command.Legible : Command → Prop
  | .poke pin _ => IsWord pin
  | .expect pin _ => IsWord pin
  | .step => True

theorem isWord_outputName (index : Nat) : IsWord (Circuit.outputName index) :=
  .append (by decide) (Text.isWord_toString index)

theorem legible_commandsOfVector {circuit : Circuit}
    (words : ∀ pin ∈ circuit.inputPins, IsWord pin.name) (vector : GoldenVector) :
    ∀ command ∈ commandsOfVector circuit vector, command.Legible := by
  intro command member
  simp only [commandsOfVector, List.mem_append, List.mem_singleton] at member
  rcases member with (poke | expect) | rfl
  · rw [← List.map_uncurry_zip_eq_zipWith, List.mem_map] at poke
    obtain ⟨⟨pin, value⟩, among, rfl⟩ := poke
    exact words pin (List.of_mem_zip among).1
  · obtain ⟨index, _, rfl⟩ := List.mem_mapIdx.mp expect
    exact isWord_outputName index
  · trivial

/-! ### The words on the lines -/

def pinTokens (direction : String) (pin : Pin) : List String :=
  ["val", pin.name, "=", "UInt(" ++ direction ++ ",", toString pin.width.bits ++ ")"]

/-- Operands, each but the first after the operator. -/
def operandTokens (opcode : Opcode) : List Reference → List String
  | [] => []
  | [operand] => [operand.render]
  | operand :: operands => operand.render :: opcode.symbol :: operandTokens opcode operands

def Definition.tokens (definition : Definition) : List String :=
  "val" :: definition.name :: "=" :: operandTokens definition.opcode definition.operands

def connectionTokens (connection : String × Reference) : List String :=
  ["io." ++ connection.1, ":=", connection.2.render]

def Command.tokens : Command → List String
  | .poke pin value =>
    ["poke(c.io." ++ pin ++ ",", "BigInt(\"" ++ Text.hex value ++ "\",", "16))"]
  | .expect pin value =>
    ["expect(c.io." ++ pin ++ ",", "BigInt(\"" ++ Text.hex value ++ "\",", "16))"]
  | .step => ["step(1)"]

theorem isLine_pin {line direction : String} {pin : Pin} (name : IsWord pin.name)
    (visible : direction.toList.any Text.isBlank = false)
    (text : line.toList = ("    val " ++ pin.name ++ " = UInt(" ++ direction ++ ", " ++
      toString pin.width.bits ++ ")").toList) : IsLine line (pinTokens direction pin) := by
  have start : IsLine "    val" ["val"] := by decide
  have equals : IsWord "=" := by decide
  have kind : IsWord ("UInt(" ++ direction ++ ",") :=
    .append (by rw [String.toList_append, List.any_append, visible]; decide)
      (by decide)
  have bits : IsWord (toString pin.width.bits ++ ")") :=
    (Text.isWord_toString pin.width.bits).concat (by decide)
  refine @IsLine.join _ _ _ start _ ?_ (by simp [text])
  simpa [name, equals, kind] using bits

theorem Reference.Legible.isWord {operand : Reference} (legible : operand.Legible) :
    IsWord operand.render := by
  cases operand with
  | pin name => exact IsWord.append (by decide) legible
  | value name => exact legible.1

theorem isWord_symbol (opcode : Opcode) : IsWord opcode.symbol := by
  cases opcode <;> decide

theorem isWord_of_mem_operandTokens {opcode : Opcode} {operands : List Reference}
    (legible : ∀ operand ∈ operands, operand.Legible) :
    ∀ text ∈ operandTokens opcode operands, IsWord text := by
  fun_induction operandTokens opcode operands with
  | case1 => simp
  | case2 operand => simpa using (legible operand List.mem_cons_self).isWord
  | case3 operand operands nonempty ih =>
    have first := (legible operand List.mem_cons_self).isWord
    have rest := ih fun other member => legible other (List.mem_cons_of_mem _ member)
    simpa [first, isWord_symbol] using rest

theorem toList_operands (opcode : Opcode) {operands : List Reference} (some_operand : operands ≠ []) :
    ' ' :: ((" " ++ opcode.symbol ++ " ").intercalate (operands.map Reference.render)).toList =
      (operandTokens opcode operands).flatMap fun text => ' ' :: text.toList := by
  fun_induction operandTokens opcode operands with
  | case1 => contradiction
  | case2 operand => simp
  | case3 operand operands nonempty ih =>
    have others : operands ≠ [] := fun none => nonempty none
    have rest := ih others
    have more : operands.map Reference.render ≠ [] := by simpa using others
    rw [List.map_cons, String.intercalate_cons_of_ne_nil more]
    simp [← rest]

theorem isLine_definition {definition : Definition} (legible : definition.Legible) :
    IsLine ("  val " ++ definition.name ++ " = " ++ (" " ++ definition.opcode.symbol ++
      " ").intercalate (definition.operands.map Reference.render)) definition.tokens := by
  have start : IsLine "  val" ["val"] := by decide
  have equals : IsWord "=" := by decide
  have some_operand : definition.operands ≠ [] := by
    obtain ⟨first, second, others, operands⟩ := legible.several
    simp [operands]
  refine @IsLine.join _ _ _ start (definition.name :: "=" ::
    operandTokens definition.opcode definition.operands) ?_ ?_
  · simpa [legible.name, equals] using isWord_of_mem_operandTokens legible.operands
  · simp [← toList_operands definition.opcode some_operand]

theorem isLine_connection {connection : String × Reference} (name : IsWord connection.1)
    (shown : connection.2.Legible) :
    IsLine ("  io." ++ connection.1 ++ " := " ++ connection.2.render)
      (connectionTokens connection) := by
  have start : IsLine " " [] := by decide
  have pin : IsWord ("io." ++ connection.1) := .append (by decide) name
  have arrow : IsWord ":=" := by decide
  refine @IsLine.join _ _ _ start (connectionTokens connection) ?_ (by simp [connectionTokens])
  simp [connectionTokens, pin, arrow, shown.isWord]

theorem isLine_call {line front pin : String} (name : IsWord pin)
    (visible : front.toList.any Text.isBlank = false) (value : Nat)
    (text : line.toList = ("  " ++ front ++ pin ++ ", " ++ literal value ++ ")").toList) :
    IsLine line [front ++ pin ++ ",", "BigInt(\"" ++ Text.hex value ++ "\",", "16))"] := by
  have start : IsLine " " [] := by decide
  have call : IsWord (front ++ pin ++ ",") :=
    (IsWord.append visible name).concat (by decide)
  have digits : IsWord ("BigInt(\"" ++ Text.hex value ++ "\",") :=
    (IsWord.append (by decide) (Text.isWord_hex value)).concat (by decide)
  have radix : IsWord "16))" := by decide
  refine @IsLine.join _ _ _ start _ ?_ (by simp [text, literal])
  simp [call, digits, radix]

theorem isLine_command {command : Command} (legible : command.Legible) :
    IsLine command.line command.tokens := by
  cases command with
  | poke pin value =>
    show IsLine ("  poke(c.io." ++ pin ++ ", " ++ literal value ++ ")") _
    exact isLine_call legible (by decide) value (by simp)
  | expect pin value =>
    show IsLine ("  expect(c.io." ++ pin ++ ", " ++ literal value ++ ")") _
    exact isLine_call legible (by decide) value (by simp)
  | step => exact (by decide : IsLine "  step(1)" ["step(1)"])

/-- The words on the lines of a module. -/
def Module.tokens (module : Module) : List (List String) :=
  [["import", "Chisel._"], [], ["class", module.name, "extends", "Module", openBrace],
    ["val", "io", "=", "new", "Bundle", openBrace]] ++
  module.inputs.map (pinTokens "INPUT") ++
  module.outputs.map (pinTokens "OUTPUT") ++
  [[closeBrace]] ++
  module.definitions.map Definition.tokens ++
  module.connections.map connectionTokens ++
  [[closeBrace]]

/-- The words on the lines of a tester. -/
def testerTokens (name : String) (commands : List Command) : List (List String) :=
  [[], ["class", name ++ "Tests(c:", name ++ ")", "extends", "Tester(c)", openBrace]] ++
  commands.map Command.tokens ++
  runnerTokens name

theorem areLines_module {module : Module} (legible : module.Legible) :
    AreLines module.lines module.tokens := by
  rw [Module.lines, Module.tokens]
  refine .append (.append (.append (.append (.append (.append ?opening ?inputs) ?outputs)
    ?bundle) ?definitions) ?connections) ?closing
  case opening =>
    have words : ∀ text ∈ ["extends", "Module", openBrace], IsWord text := by decide
    have start : IsLine "class" ["class"] := by decide
    have header : IsLine ("class " ++ module.name ++ " extends Module " ++ openBrace)
        ["class", module.name, "extends", "Module", openBrace] := by
      refine @IsLine.join _ _ _ start (module.name :: ["extends", "Module", openBrace]) ?_ (by simp)
      simpa [legible.name] using words
    exact .cons (by decide) (.cons (by decide) (.cons header
      (.cons (by decide) .nil)))
  case inputs =>
    exact .map fun pin member =>
      isLine_pin (legible.inputs pin member) (by decide) (by simp)
  case outputs =>
    exact .map fun pin member =>
      isLine_pin (legible.outputs pin member) (by decide) (by simp)
  case bundle => exact .cons (by decide) .nil
  case definitions =>
    exact .map fun definition member => isLine_definition (legible.definitions definition member)
  case connections =>
    exact .map fun connection member =>
      isLine_connection (legible.connections connection member).1
        (legible.connections connection member).2
  case closing => exact .cons (by decide) .nil

theorem areLines_runner {name : String} (word : IsWord name) :
    AreLines [closeBrace, "", "object " ++ name ++ " " ++ openBrace,
      "  def main(args: Array[String]): Unit = " ++ openBrace,
      "    chiselMainTest(args, () => Module(new " ++ name ++ "())) " ++ openBrace ++
        " c => new " ++ name ++ "Tests(c) " ++ closeBrace,
      "  " ++ closeBrace, closeBrace] (runnerTokens name) := by
  have object : IsLine ("object " ++ name ++ " " ++ openBrace) ["object", name, openBrace] := by
    have start : IsLine "object" ["object"] := by decide
    have brace : IsWord openBrace := by decide
    refine @IsLine.join _ _ _ start [name, openBrace] ?_ (by simp)
    simp [word, brace]
  have main : IsLine ("    chiselMainTest(args, () => Module(new " ++ name ++ "())) " ++ openBrace ++
      " c => new " ++ name ++ "Tests(c) " ++ closeBrace)
      ["chiselMainTest(args,", "()", "=>", "Module(new", name ++ "()))", openBrace, "c", "=>",
        "new", name ++ "Tests(c)", closeBrace] := by
    have start : IsLine "    chiselMainTest(args, () => Module(new"
        ["chiselMainTest(args,", "()", "=>", "Module(new"] := by decide
    have words : ∀ text ∈ [openBrace, "c", "=>", "new", closeBrace], IsWord text := by
      decide
    have made : IsWord (name ++ "()))") := word.concat (by decide)
    have tests : IsWord (name ++ "Tests(c)") := word.concat (by decide)
    refine @IsLine.join _ _ _ start [name ++ "()))", openBrace, "c", "=>", "new",
      name ++ "Tests(c)", closeBrace] ?_ (by simp)
    simp only [List.forall_mem_cons] at words ⊢
    grind
  exact .cons (by decide) (.cons (by decide) (.cons object
    (.cons (by decide) (.cons main (.cons (by decide) (.cons (by decide)
      .nil))))))

theorem areLines_tester {name : String} (word : IsWord name) {commands : List Command}
    (legible : ∀ command ∈ commands, command.Legible) :
    AreLines (testerLines name commands) (testerTokens name commands) := by
  rw [testerLines, testerTokens]
  refine .append (.append ?opening ?calls) (areLines_runner word)
  case opening =>
    have start : IsLine "class" ["class"] := by decide
    have words : ∀ text ∈ ["extends", "Tester(c)", openBrace], IsWord text := by decide
    have tests : IsWord (name ++ "Tests(c:") := word.concat (by decide)
    have bench : IsWord (name ++ ")") := word.concat (by decide)
    have header : IsLine ("class " ++ name ++ "Tests(c: " ++ name ++ ") extends Tester(c) " ++
        openBrace) ["class", name ++ "Tests(c:", name ++ ")", "extends", "Tester(c)",
          openBrace] := by
      refine @IsLine.join _ _ _ start ((name ++ "Tests(c:") :: (name ++ ")") ::
        ["extends", "Tester(c)", openBrace]) ?_ (by simp)
      simpa [tests, bench] using words
    exact .cons (by decide) (.cons header .nil)
  case calls =>
    exact .map fun command member => isLine_command (legible command member)

/-! ### Reading the words -/

theorem between?_of_toList {front back word : String} {middle : List Char}
    (text : word.toList = front.toList ++ middle ++ back.toList) :
    between? front back word = some middle := by
  have dropped : word.toList.dropPrefix? front.toList = some (middle ++ back.toList) := by
    rw [text, List.append_assoc, List.dropPrefix?_append_of_beq _ (beq_self_eq_true _)]
  have rest : (middle ++ back.toList).dropSuffix? back.toList = some middle :=
    List.dropSuffix?_eq_some_iff.mpr ⟨back.toList, rfl, beq_self_eq_true _⟩
  simp [between?, dropped, rest]

theorem readPin?_tokens (direction : String) (pin : Pin) :
    readPin? direction (pinTokens direction pin) = some pin := by
  have bits : between? "" ")" (toString pin.width.bits ++ ")") =
      some (toString pin.width.bits).toList :=
    between?_of_toList (by simp)
  have width : Width.ofNat? pin.width.bits = some pin.width := dif_pos pin.width.pos
  simp only [readPin?, pinTokens, bits, Text.natural?_toString, width, guard_true, bind,
    Option.bind, pure]

theorem Reference.Legible.ofWord_render {operand : Reference} (legible : operand.Legible) :
    Reference.ofWord operand.render = operand := by
  cases operand with
  | pin name =>
    have dropped : ("io." ++ name).toList.dropPrefix? "io.".toList = some name.toList := by
      rw [String.toList_append, List.dropPrefix?_append_of_beq _ (beq_self_eq_true _)]
    simp only [Reference.ofWord, Reference.render, dropped, String.ofList_toList]
  | value name => simp only [Reference.ofWord, Reference.render, legible.2]

theorem readOperands?_tokens {opcode : Opcode} {operands : List Reference}
    (some_operand : operands ≠ []) (legible : ∀ operand ∈ operands, operand.Legible) :
    readOperands? opcode (operandTokens opcode operands) = some operands := by
  fun_induction operandTokens opcode operands with
  | case1 => contradiction
  | case2 operand => simp [readOperands?, (legible operand List.mem_cons_self).ofWord_render]
  | case3 operand operands nonempty ih =>
    have first := (legible operand List.mem_cons_self).ofWord_render
    have rest := ih (fun none => nonempty none)
      fun other member => legible other (List.mem_cons_of_mem _ member)
    simp [readOperands?, first, rest]

theorem readDefinition?_tokens {definition : Definition} (legible : definition.Legible) :
    readDefinition? definition.tokens = some definition := by
  obtain ⟨first, second, others, operands⟩ := legible.several
  have symbol : Opcode.all.find? (·.symbol = definition.opcode.symbol) =
      some definition.opcode := by
    cases definition.opcode <;> decide
  have first_read := (legible.operands first (by simp [operands])).ofWord_render
  have others_read := @readOperands?_tokens definition.opcode (second :: others) (by simp)
    fun other member => legible.operands other (operands ▸ List.mem_cons_of_mem _ member)
  have tokens : definition.tokens = "val" :: definition.name :: "=" :: first.render ::
      definition.opcode.symbol :: operandTokens definition.opcode (second :: others) := by
    rw [Definition.tokens, operands, operandTokens]
    simp
  cases definition
  simp_all [readDefinition?]

theorem readConnection?_tokens {connection : String × Reference} (shown : connection.2.Legible) :
    readConnection? (connectionTokens connection) = some connection := by
  have pin : between? "io." "" ("io." ++ connection.1) = some connection.1.toList :=
    between?_of_toList (by simp)
  simp [readConnection?, connectionTokens, pin, shown.ofWord_render]

theorem readCommand?_tokens (command : Command) :
    readCommand? command.tokens = some command := by
  have digits (value : Nat) : between? "BigInt(\"" "\"," ("BigInt(\"" ++ Text.hex value ++ "\",") =
      some (Text.hex value).toList :=
    between?_of_toList (by simp)
  cases command with
  | poke pin value =>
    have call : between? "poke(c.io." "," ("poke(c.io." ++ pin ++ ",") = some pin.toList :=
      between?_of_toList (by simp)
    simp [readCommand?, Command.tokens, digits, Text.hex?_hex, call]
  | expect pin value =>
    have other : between? "poke(c.io." "," ("expect(c.io." ++ pin ++ ",") = none := by
      simp [between?, List.dropPrefix?]
    have call : between? "expect(c.io." "," ("expect(c.io." ++ pin ++ ",") = some pin.toList :=
      between?_of_toList (by simp)
    simp [readCommand?, Command.tokens, digits, Text.hex?_hex, other, call]
  | step => rfl

/-- Lines that spell items are read up to a line that spells none. -/
theorem readMany_map {Item : Type} {read? : List String → Option Item}
    {spell : Item → List String} {items : List Item}
    (inverse : ∀ item ∈ items, read? (spell item) = some item) {rest : List (List String)}
    (stop : ∀ line ∈ rest.head?, read? line = none) :
    readMany read? (items.map spell ++ rest) = (items, rest) := by
  induction items with
  | nil =>
    cases rest with
    | nil => rfl
    | cons line rest => simp [readMany, stop line rfl]
  | cons item items ih =>
    have later := ih fun other member => inverse other (List.mem_cons_of_mem _ member)
    simp [readMany, inverse item List.mem_cons_self, later]

theorem readModule?_tokens {module : Module} (legible : module.Legible)
    (lines : List (List String)) :
    readModule? (module.tokens ++ lines) = some (module, lines) := by
  have inputs (rest : List (List String)) :
      readMany (readPin? "INPUT") (module.inputs.map (pinTokens "INPUT") ++
        (module.outputs.map (pinTokens "OUTPUT") ++ [closeBrace] :: rest)) =
      (module.inputs, module.outputs.map (pinTokens "OUTPUT") ++ [closeBrace] :: rest) := by
    apply readMany_map fun pin _ => readPin?_tokens "INPUT" pin
    cases module.outputs with
    | nil => simp [readPin?]
    | cons pin outputs => simp [readPin?, pinTokens]
  have outputs (rest : List (List String)) :
      readMany (readPin? "OUTPUT") (module.outputs.map (pinTokens "OUTPUT") ++
        [closeBrace] :: rest) = (module.outputs, [closeBrace] :: rest) := by
    apply readMany_map fun pin _ => readPin?_tokens "OUTPUT" pin
    simp [readPin?]
  have definitions (rest : List (List String)) :
      readMany readDefinition? (module.definitions.map Definition.tokens ++
        (module.connections.map connectionTokens ++ [closeBrace] :: rest)) =
      (module.definitions, module.connections.map connectionTokens ++ [closeBrace] :: rest) := by
    apply readMany_map fun definition member =>
      readDefinition?_tokens (legible.definitions definition member)
    cases module.connections with
    | nil => simp [readDefinition?]
    | cons connection connections => simp [readDefinition?, connectionTokens]
  have connections (rest : List (List String)) :
      readMany readConnection? (module.connections.map connectionTokens ++ [closeBrace] :: rest) =
      (module.connections, [closeBrace] :: rest) := by
    apply readMany_map fun connection member =>
      readConnection?_tokens (legible.connections connection member).2
    simp [readConnection?]
  simp [Module.tokens, readModule?, inputs, outputs, definitions, connections,
    List.dropPrefix?]

theorem readTester?_tokens (name : String) (commands : List Command) :
    readTester? name (testerTokens name commands) = some commands := by
  have calls : readMany readCommand? (commands.map Command.tokens ++ runnerTokens name) =
      (commands, runnerTokens name) := by
    apply readMany_map fun command _ => readCommand?_tokens command
    simp [runnerTokens, readCommand?, closeBrace]
  simp [testerTokens, readTester?, calls]

/-- The file of a module and its tester reads back as both of them. -/
theorem read?_render {module : Module} (legible : module.Legible) {commands : List Command}
    (all_legible : ∀ command ∈ commands, command.Legible) :
    read? (module.render ++ renderTester module.name commands) = some { module, commands } := by
  have lines := (areLines_module legible).append (areLines_tester legible.name all_legible)
  have text : module.render ++ renderTester module.name commands =
      Text.unlines (module.lines ++ testerLines module.name commands) := by
    simp [Module.render, renderTester, Text.unlines]
  rw [text, read?, Text.wordLines?_unlines lines]
  simp [readModule?_tokens legible, readTester?_tokens]

end GoldenCircuit.Chisel
