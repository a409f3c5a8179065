import Mathlib.Data.List.Basic
import Mathlib.Data.Option.Basic
import GoldenCircuit.Chisel
import GoldenCircuit.Proofs.Text.Hexadecimal
import GoldenCircuit.Proofs.Text.Lines

/-! A reader of Chisel files that hold a module and its tester. It goes through the lines from top
to bottom and takes each for what it says, without knowing which circuit the file was made from. -/
namespace GoldenCircuit.Chisel

open Text (openBrace closeBrace)

/-- What a file holds: a module, and what its tester does with it. -/
structure Source where
  module : Module
  commands : List Command
deriving DecidableEq

/-- What stands between a front and a back. -/
def between? (front back word : String) : Option (List Char) := do
  let rest ← word.toList.dropPrefix? front.toList
  rest.dropSuffix? back.toList

def Reference.ofWord (word : String) : Reference :=
  match word.toList.dropPrefix? "io.".toList with
  | some name => .pin (String.ofList name)
  | none => .value word

/-- The declaration of a pin, with a word that tells inputs from outputs. -/
def readPin? (direction : String) : List String → Option Pin
  | ["val", name, "=", kind, bits] => do
    guard (kind = "UInt(" ++ direction ++ ",")
    let bits ← Text.natural? (← between? "" ")" bits)
    let width ← Width.ofNat? bits
    return { name, width }
  | _ => none

/-- Operands with one operator between each two of them. -/
def readOperands? (opcode : Opcode) : List String → Option (List Reference)
  | [] => none
  | [operand] => some [.ofWord operand]
  | operand :: symbol :: words => do
    guard (symbol = opcode.symbol)
    let operands ← readOperands? opcode words
    return .ofWord operand :: operands

/-- The definition of a value by an operator. -/
def readDefinition? : List String → Option Definition
  | "val" :: name :: "=" :: operand :: symbol :: words => do
    let opcode ← Opcode.all.find? (·.symbol = symbol)
    let operands ← readOperands? opcode words
    return { name, opcode, operands := .ofWord operand :: operands }
  | _ => none

def readConnection? : List String → Option (String × Reference)
  | [pin, ":=", shown] => do
    let name ← between? "io." "" pin
    return (String.ofList name, .ofWord shown)
  | _ => none

def readCommand? : List String → Option Command
  | ["step(1)"] => some .step
  | [call, digits, "16))"] => do
    let value ← Text.hex? (← between? "BigInt(\"" "\"," digits)
    match between? "poke(c.io." "," call, between? "expect(c.io." "," call with
    | some pin, _ => return .poke (String.ofList pin) value
    | none, some pin => return .expect (String.ofList pin) value
    | none, none => none
  | _ => none

/-- Reads items line by line, up to the first line that spells none. -/
def readMany {Item : Type} (read? : List String → Option Item) :
    List (List String) → List Item × List (List String)
  | [] => ([], [])
  | line :: lines =>
    match read? line with
    | some item =>
      let (items, rest) := readMany read? lines
      (item :: items, rest)
    | none => ([], line :: lines)

/-- What has to follow the tester of a module: the object that runs one on the other. -/
def runnerTokens (name : String) : List (List String) :=
  [[closeBrace], [], ["object", name, openBrace],
    ["def", "main(args:", "Array[String]):", "Unit", "=", openBrace],
    ["chiselMainTest(args,", "()", "=>", "Module(new", name ++ "()))", openBrace, "c", "=>", "new",
      name ++ "Tests(c)", closeBrace],
    [closeBrace], [closeBrace]]

/-- Reads a module, and answers with the lines after it. -/
def readModule? : List (List String) → Option (Module × List (List String))
  | ["import", "Chisel._"] :: [] :: ["class", name, "extends", "Module", opening] ::
      ["val", "io", "=", "new", "Bundle", pins] :: lines => do
    guard (opening = openBrace ∧ pins = openBrace)
    let (inputs, lines) := readMany (readPin? "INPUT") lines
    let (outputs, lines) := readMany (readPin? "OUTPUT") lines
    let lines ← lines.dropPrefix? [[closeBrace]]
    let (definitions, lines) := readMany readDefinition? lines
    let (connections, lines) := readMany readConnection? lines
    let lines ← lines.dropPrefix? [[closeBrace]]
    return ({ name, inputs, outputs, definitions, connections }, lines)
  | _ => none

/-- Reads the tester of a module and what runs it. -/
def readTester? (name : String) : List (List String) → Option (List Command)
  | [] :: ["class", tests, bench, "extends", "Tester(c)", opening] :: lines => do
    guard (tests = name ++ "Tests(c:" ∧ bench = name ++ ")" ∧ opening = openBrace)
    let (commands, lines) := readMany readCommand? lines
    guard (lines = runnerTokens name)
    return commands
  | _ => none

def read? (text : String) : Option Source := do
  let (module, lines) ← readModule? (← Text.wordLines? text)
  let commands ← readTester? module.name lines
  return { module, commands }

end GoldenCircuit.Chisel
