import GoldenCircuit.Opcode
import GoldenCircuit.Proofs.Word

/-! Operators work bit by bit. So what they compute can be cut before it is computed or after. -/
namespace GoldenCircuit.Opcode

/-- What the operator makes of a bit of its operands. -/
def applyBit : Opcode → Bool → Bool → Bool
  | .and => (· && ·)
  | .or => (· || ·)
  | .xor => Bool.xor

theorem testBit_apply (opcode : Opcode) (left right bit : Nat) :
    (opcode.apply left right).testBit bit =
      opcode.applyBit (left.testBit bit) (right.testBit bit) := by
  cases opcode with
  | and => exact Nat.testBit_and left right bit
  | or => exact Nat.testBit_or left right bit
  | xor => exact Nat.testBit_xor left right bit

theorem applyBit_false (opcode : Opcode) : opcode.applyBit false false = false := by
  cases opcode <;> rfl

theorem truncate_apply (opcode : Opcode) (left right : Nat) (width : Width) :
    truncate (opcode.apply left right) width =
      opcode.apply (truncate left width) (truncate right width) := by
  apply Nat.eq_of_testBit_eq
  intro bit
  simp only [testBit_apply, testBit_truncate]
  by_cases inside : bit < width.bits
  · simp only [decide_eq_true inside, Bool.true_and]
  · simp only [decide_eq_false inside, Bool.false_and, applyBit_false]

end GoldenCircuit.Opcode
