import GoldenCircuit.Proofs.ModuleDescription.Vectors

/-! A reader of whole modules from their JSON values. It asks for the lists that simulators load,
also those that circuits leave empty, and takes every pin, net and expression by the names of its
members. -/
namespace GoldenCircuit

/-- Which way values pass through a pin, seen from the module. -/
inductive Direction where
  | into
  | out
deriving DecidableEq

/-- The word for a direction in a description. -/
def Direction.word : Direction → String
  | .into => "in"
  | .out => "out"

namespace ModuleDescription

open Json (Value CodeUnit)

/-- A module as it is loaded. Nothing is known of what a process or a memory looks like. -/
structure Loaded where
  name : String
  pins : List (Direction × Pin)
  nets : List Net
  registers : List Net
  assignments : List Assignment
  processes : List Value
  memories : List Value
  vectors : List Vector

def readDirection? (value : Value) : Option Direction := do
  let word ← value.text?
  [Direction.into, .out].find? (·.word = word)

def readWidth? (value : Value) : Option Width := do
  Width.ofNat? (← value.natural?)

def readOpcode? (value : Value) : Option Opcode := do
  let symbol ← value.text?
  Opcode.all.find? (·.symbol = symbol)

def readPin? (value : Value) : Option (Direction × Pin) := do
  let members ← value.members?
  let name ← (← members.lookup "name").text?
  let direction ← readDirection? (← members.lookup "direction")
  let width ← readWidth? (← members.lookup "width")
  return (direction, { name, width })

def readNet? (value : Value) : Option Net := do
  let members ← value.members?
  let name ← (← members.lookup "name").text?
  let width ← readWidth? (← members.lookup "width")
  return { name, width }

mutual

/-- The expression of a value: its member `type` tells which other members it has. -/
def readExpression? : Value → Option Expression
  | .object members => do
    let parts ← (Value.object members).members?
    let width ← readWidth? (← parts.lookup "width")
    match ← (← parts.lookup "type").text? with
    | "signal" => return .signal (← (← parts.lookup "name").text?) width
    | "binary_op" =>
      let opcode ← readOpcode? (← parts.lookup "op")
      let operands := readOperands members
      let left ← ← operands.lookup (Json.units "left")
      let right ← ← operands.lookup (Json.units "right")
      return .binary opcode left right width
    | _ => none
  | _ => none

/-- Every member that is an expression, as one. -/
def readOperands : List (List CodeUnit × Value) → List (List CodeUnit × Option Expression)
  | [] => []
  | (name, value) :: members => (name, readExpression? value) :: readOperands members

end

def readAssignment? (value : Value) : Option Assignment := do
  let members ← value.members?
  let target ← (← members.lookup "target").text?
  let expression ← readExpression? (← members.lookup "expr")
  return { target, expression }

/-- Reads the items of a list that is a member of a module. -/
def readList? {Item : Type} (members : List (String × Value)) (name : String)
    (read : Value → Option Item) : Option (List Item) := do
  (← (← members.lookup name).items?).mapM read

def load? (value : Value) : Option Loaded := do
  let members ← value.members?
  return {
    name := ← (← members.lookup "name").text?
    pins := ← readList? members "ports" readPin?
    nets := ← readList? members "nets" readNet?
    registers := ← readList? members "regs" readNet?
    assignments := ← readList? members "assigns" readAssignment?
    processes := ← readList? members "processes" some
    memories := ← readList? members "memories" some
    vectors := ← readList? members "vectors" readVector? }

end ModuleDescription
end GoldenCircuit
