import GoldenCircuit.Stimulus
import GoldenCircuit.Proofs.Word

/-! The values of a width that a source of stimulus gives one after the other, by their number. -/
namespace GoldenCircuit.Stimulus

/-- The source after so many values were drawn. -/
def skip (width : Width) : (count : Nat) → Stimulus → Stimulus
  | 0, stimulus => stimulus
  | count + 1, stimulus => skip width count (stimulus.next width).2

/-- The value with a number, counted from zero. -/
def value (stimulus : Stimulus) (width : Width) (number : Nat) : Nat :=
  ((stimulus.skip width number).next width).1

theorem skip_add (stimulus : Stimulus) (width : Width) (few more : Nat) :
    stimulus.skip width (few + more) = (stimulus.skip width few).skip width more := by
  induction few generalizing stimulus with
  | zero => rw [Nat.zero_add, skip]
  | succ few ih => rw [Nat.succ_add, skip, ih, skip]

theorem value_skip (stimulus : Stimulus) (width : Width) (few number : Nat) :
    (stimulus.skip width few).value width number = stimulus.value width (few + number) := by
  rw [value, value, skip_add]

theorem value_succ (stimulus : Stimulus) (width : Width) (number : Nat) :
    stimulus.value width (number + 1) = (stimulus.next width).2.value width number :=
  rfl

theorem next_lt (stimulus : Stimulus) (width : Width) :
    (stimulus.next width).1 < 2 ^ width.bits :=
  truncate_lt _ _

end GoldenCircuit.Stimulus
