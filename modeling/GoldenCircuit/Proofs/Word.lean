import Mathlib.Algebra.Group.Nat.Defs
import GoldenCircuit.Word

/-! Cutting a value to a width is arithmetic modulo a power of two, and of two cuts the narrower one
counts. The AND of some values fits every width that they fit, and an all-ones mask does not change
it. -/
namespace GoldenCircuit

theorem Width.mask_eq (width : Width) : width.mask = 2 ^ width.bits - 1 := by
  rw [Width.mask, Nat.shiftLeft_eq, Nat.one_mul]

theorem bitLength_le_iff (value bits : Nat) : bitLength value ≤ bits ↔ value < 2 ^ bits := by
  by_cases zero : value = 0
  · subst zero
    exact ⟨fun _ => Nat.two_pow_pos bits, fun _ => Nat.zero_le bits⟩
  · rw [bitLength, if_neg zero, ← Nat.log2_lt zero]
    omega

theorem truncate_eq_mod (value : Nat) (width : Width) :
    truncate value width = value % 2 ^ width.bits := by
  unfold truncate
  split
  next short =>
    exact (Nat.mod_eq_of_lt ((bitLength_le_iff value width.bits).mp short)).symm
  next => rw [Width.mask_eq, Nat.and_two_pow_sub_one_eq_mod]

theorem truncate_lt (value : Nat) (width : Width) : truncate value width < 2 ^ width.bits := by
  rw [truncate_eq_mod]
  exact Nat.mod_lt _ (Nat.two_pow_pos _)

theorem truncate_of_lt {value : Nat} {width : Width} (fits : value < 2 ^ width.bits) :
    truncate value width = value := by
  rw [truncate_eq_mod, Nat.mod_eq_of_lt fits]

theorem testBit_truncate (value : Nat) (width : Width) (bit : Nat) :
    (truncate value width).testBit bit = (decide (bit < width.bits) && value.testBit bit) := by
  rw [truncate_eq_mod, Nat.testBit_mod_two_pow]

instance : Min Width where
  min one other := ⟨min one.bits other.bits, Nat.lt_min.mpr ⟨one.pos, other.pos⟩⟩

theorem Width.bits_min (one other : Width) : (min one other).bits = min one.bits other.bits :=
  rfl

theorem Width.min_eq_right {one other : Width} (le : other.bits ≤ one.bits) :
    min one other = other :=
  (Width.mk.injEq _ (min one other).pos _ other.pos).mpr (Nat.min_eq_right le)

theorem truncate_truncate (value : Nat) (first second : Width) :
    truncate (truncate value first) second = truncate value (min first second) := by
  apply Nat.eq_of_testBit_eq
  intro bit
  simp only [testBit_truncate, Width.bits_min, Nat.lt_min, Bool.decide_and]
  rw [← Bool.and_assoc, Bool.and_comm (decide (bit < second.bits))]

theorem Width.mask_and_of_lt {value : Nat} {width : Width} (fits : value < 2 ^ width.bits) :
    width.mask &&& value = value := by
  rw [Nat.and_comm, Width.mask_eq, Nat.and_two_pow_sub_one_eq_mod, Nat.mod_eq_of_lt fits]

/-- The bitwise AND of values, of which there should be at least one. -/
def conjunction : List Nat → Nat
  | [] => 0
  | value :: values => values.foldl (· &&& ·) value

/-- A bit of the AND is set where it is set in every value, the one at the start included. -/
theorem testBit_foldl_and (values : List Nat) (start bit : Nat) :
    (values.foldl (· &&& ·) start).testBit bit =
      (start.testBit bit && values.all (·.testBit bit)) := by
  induction values generalizing start with
  | nil => simp
  | cons value values ih => rw [List.foldl_cons, ih, Nat.testBit_and, List.all_cons, Bool.and_assoc]

theorem conjunction_concat {values : List Nat} (nonempty : values ≠ []) (last : Nat) :
    conjunction (values ++ [last]) = conjunction values &&& last := by
  cases values with
  | nil => contradiction
  | cons value values =>
    simp only [List.cons_append, conjunction, List.foldl_append, List.foldl_cons, List.foldl_nil]

theorem conjunction_take_succ {values : List Nat} {count : Nat} (pos : 0 < count)
    (within : count < values.length) :
    conjunction (values.take (count + 1)) = conjunction (values.take count) &&& values[count] := by
  have nonempty : values.take count ≠ [] :=
    List.ne_nil_of_length_pos (by rw [List.length_take]; omega)
  rw [List.take_succ_eq_append_getElem within, conjunction_concat nonempty]

theorem foldl_and_le (values : List Nat) (start : Nat) : values.foldl (· &&& ·) start ≤ start := by
  induction values generalizing start with
  | nil => exact Nat.le_refl _
  | cons value values ih => exact Nat.le_trans (ih _) Nat.and_le_left

theorem conjunction_lt {values : List Nat} {bound : Nat} (pos : 0 < bound)
    (fits : ∀ value ∈ values, value < bound) : conjunction values < bound := by
  cases values with
  | nil => exact pos
  | cons value values =>
    exact Nat.lt_of_le_of_lt (foldl_and_le values value) (fits value List.mem_cons_self)

/-- Starting from all ones makes no difference to the AND of values that the ones cover. -/
theorem foldl_mask {values : List Nat} {width : Width} (nonempty : values ≠ [])
    (fits : ∀ value ∈ values, value < 2 ^ width.bits) :
    values.foldl (· &&& ·) width.mask = conjunction values := by
  cases values with
  | nil => contradiction
  | cons value values =>
    rw [List.foldl_cons, Width.mask_and_of_lt (fits value List.mem_cons_self), conjunction]

end GoldenCircuit
