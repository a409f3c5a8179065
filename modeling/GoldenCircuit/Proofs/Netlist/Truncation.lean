import GoldenCircuit.Proofs.Netlist
import GoldenCircuit.Proofs.Opcode

/-! What a gate computes depends on the low bits of its operands only, as many as its width has. So
it makes no difference where values are cut, as long as no cut is narrower than the gate: when they
are stored, when they are read, or only in the result. -/
namespace GoldenCircuit

/-- Answers that agree on the low bits: values that cannot be told apart once they are cut to the
width, or the same fault. -/
inductive AgreeOn (width : Width) : Except Fault Nat → Except Fault Nat → Prop
  | ok {one other : Nat} (same : truncate one width = truncate other width) :
    AgreeOn width (.ok one) (.ok other)
  | error (fault : Fault) : AgreeOn width (.error fault) (.error fault)

namespace AgreeOn

variable {width : Width} {one other : Except Fault Nat}

theorem refl (answer : Except Fault Nat) : AgreeOn width answer answer := by
  cases answer with
  | ok value => exact .ok rfl
  | error fault => exact .error fault

/-- A cut that is not narrower than the width leaves the low bits as they are. -/
theorem of_cut {wider : Width} (le : width.bits ≤ wider.bits) (answer : Except Fault Nat) :
    AgreeOn width ((truncate · wider) <$> answer) answer := by
  cases answer with
  | ok value => exact .ok (by rw [truncate_truncate, Width.min_eq_right le])
  | error fault => exact .error fault

theorem bind (agree : AgreeOn width one other) {next next' : Nat → Except Fault Nat}
    (later : ∀ {value value' : Nat}, truncate value width = truncate value' width →
      AgreeOn width (next value) (next' value')) :
    AgreeOn width (one >>= next) (other >>= next') := by
  cases agree with
  | ok same => exact later same
  | error fault => exact .error fault

/-- Totals that agree on the low bits go on doing so, source by source. -/
theorem foldlM {value value' : Nat → Except Fault Nat} {ids : List Nat}
    (agree : ∀ id ∈ ids, AgreeOn width (value id) (value' id)) (opcode : Opcode)
    {total total' : Nat} (same : truncate total width = truncate total' width) :
    AgreeOn width
      (ids.foldlM (fun total id => do return opcode.apply total (← value id)) total)
      (ids.foldlM (fun total id => do return opcode.apply total (← value' id)) total') := by
  induction ids generalizing total total' with
  | nil => exact .ok same
  | cons id ids ih =>
    obtain ⟨here, later⟩ := List.forall_mem_cons.mp agree
    rw [List.foldlM_cons, List.foldlM_cons]
    refine .bind (here.bind fun operand => .ok ?_) (ih later)
    rw [opcode.truncate_apply, opcode.truncate_apply, same, operand]

theorem truncate_eq (agree : AgreeOn width one other) :
    (truncate · width) <$> one = (truncate · width) <$> other := by
  cases agree with
  | ok same => exact congrArg Except.ok same
  | error fault => rfl

end AgreeOn

namespace Netlist

/-- A gate computes the same from sources that agree on as many bits as it has. -/
theorem evaluate_of_agreeOn {one other : Netlist} {gate : Gate}
    (agree : ∀ id ∈ gate.sources, AgreeOn gate.width (one.value id) (other.value id)) :
    one.evaluate gate = other.evaluate gate := by
  unfold evaluate
  cases sources : gate.sources with
  | nil => rfl
  | cons first rest =>
    rw [sources] at agree
    obtain ⟨here, later⟩ := List.forall_mem_cons.mp agree
    have totals := here.bind fun same => AgreeOn.foldlM later gate.opcode same
    simpa only [map_eq_pure_bind, bind_assoc] using totals.truncate_eq

theorem evaluate_congr {one other : Netlist} {gate : Gate}
    (same : ∀ id ∈ gate.sources, one.value id = other.value id) :
    one.evaluate gate = other.evaluate gate :=
  evaluate_of_agreeOn fun id read => same id read ▸ .refl _

/-- A cut is the remainder by a power of two, whether a short value is handed back as it is or a mask
is laid over it. Two cuts come to the narrower one, and operators commute with cuts. So a gate computes
the same, or meets the same fault, whether its sources hold their values in full or cut to widths of
their own, as long as none of these is narrower than the gate. -/
theorem evaluate_of_cut_sources :
    (∀ (value : Nat) (width : Width),
      truncate value width = value % 2 ^ width.bits ∧
      (bitLength value ≤ width.bits ↔ value % 2 ^ width.bits = value) ∧
      value &&& width.mask = value % 2 ^ width.bits) ∧
    (∀ (value : Nat) (first second : Width),
      truncate (truncate value first) second = truncate value (min first second) ∧
      (min first second).bits = min first.bits second.bits) ∧
    (∀ (opcode : Opcode) (left right : Nat) (width : Width),
      truncate (opcode.apply left right) width =
        opcode.apply (truncate left width) (truncate right width)) ∧
    ∀ (gate : Gate) (full stored : Netlist),
      (∀ id ∈ gate.sources, stored.value id = full.value id ∨
        ∃ width : Width, gate.width.bits ≤ width.bits ∧
          stored.value id = (truncate · width) <$> full.value id) →
      stored.evaluate gate = full.evaluate gate := by
  refine ⟨fun value width => ⟨truncate_eq_mod value width, ?short, ?masked⟩,
    fun value first second => ⟨truncate_truncate value first second, Width.bits_min first second⟩,
    Opcode.truncate_apply, fun gate full stored held => ?evaluated⟩
  case short =>
    rw [bitLength_le_iff, Nat.mod_eq_iff_lt (Nat.ne_of_gt (Nat.two_pow_pos width.bits))]
  case masked => rw [Width.mask_eq, Nat.and_two_pow_sub_one_eq_mod]
  case evaluated =>
    refine evaluate_of_agreeOn fun id read => ?_
    rcases held id read with whole | ⟨width, le, cut⟩
    · exact whole ▸ .refl _
    · exact cut ▸ .of_cut le _

/-- An input of some width, another one of 28 bits, and a gate of 26 bits that reads both. -/
def unequal (width : Width) : Netlist × Gate :=
  let inputs := (empty.add "a" (some width)).1.add "b" (some ⟨28, by decide⟩)
  let laid := inputs.1.connect .xor ⟨26, by decide⟩ 0 1
  ((laid.1.record 0 0xabcdef0123 0).record 1 0x5555 0, laid.2)

theorem evaluate_of_cut_sources_of_unequal :
    let full := (unequal ⟨40, by decide⟩).1
    let stored := (unequal ⟨34, by decide⟩).1
    let gate := (unequal ⟨40, by decide⟩).2
    gate.sources = [0, 1] ∧ gate.width.bits = 26 ∧
    full.value 0 = .ok 0xabcdef0123 ∧ stored.value 0 = .ok 0x3cdef0123 ∧
    full.value 1 = .ok 0x5555 ∧ stored.value 1 = .ok 0x5555 ∧
    full.evaluate gate = .ok 0x1ef5476 ∧ stored.evaluate gate = full.evaluate gate := by
  intro full stored gate
  obtain ⟨-, -, -, evaluated⟩ := evaluate_of_cut_sources
  have sources : gate.sources = [0, 1] := rfl
  have wide : full.value 0 = .ok 0xabcdef0123 := rfl
  have cut : stored.value 0 = .ok 0x3cdef0123 := rfl
  have other : full.value 1 = .ok 0x5555 := rfl
  have same : stored.value 1 = .ok 0x5555 := rfl
  have computed : truncate (gate.opcode.apply 0xabcdef0123 0x5555) gate.width = 0x1ef5476 := by decide
  refine ⟨sources, rfl, wide, cut, other, same,
    (evaluate_of_pair sources wide other).trans (congrArg Except.ok computed),
    evaluated gate full stored (List.forall_mem_cons.mpr ⟨?_, ?_⟩)⟩
  · refine .inr ⟨⟨34, by decide⟩, by decide, ?_⟩
    rw [cut, wide]
    rfl
  · refine List.forall_mem_singleton.mpr (.inl ?_)
    rw [same, other]

end Netlist
end GoldenCircuit
