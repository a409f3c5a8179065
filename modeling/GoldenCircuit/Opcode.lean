/-! The bitwise operations a gate can compute, and how each is written. -/
namespace GoldenCircuit

/-- The kind of a gate. -/
inductive Opcode where
  | and
  | or
  | xor
deriving DecidableEq

namespace Opcode

/-- All kinds, in the order in which they are documented. -/
def all : List Opcode :=
  [.and, .or, .xor]

def mnemonic : Opcode → String
  | .and => "and"
  | .or => "or"
  | .xor => "xor"

def symbol : Opcode → String
  | .and => "&"
  | .or => "|"
  | .xor => "^"

def ofMnemonic? (word : String) : Option Opcode :=
  all.find? (·.mnemonic == word)

/-- Bitwise on unbounded values: nothing is cut here. -/
def apply : Opcode → Nat → Nat → Nat
  | .and => (· &&& ·)
  | .or => (· ||| ·)
  | .xor => (· ^^^ ·)

end Opcode
end GoldenCircuit
