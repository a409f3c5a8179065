import GoldenCircuit.Proofs.Specimen

/-! Steps without pokes in between. A step may read what the step before it wrote, since the output
can be an input of the circuit as well, and what was written may have been cut. Even so it finds the
same value again: the AND with its own result changes nothing, and the result is cut where it was
cut before. -/
namespace GoldenCircuit.Specimen

/-- So many steps, one after the other. -/
def steps : (count : Nat) → Action Specimen Unit
  | 0 => pure ()
  | count + 1 => do
    step
    steps count

/-- The reference expects the bits that are set in all inputs, as far as its width goes. -/
theorem testBit_expected_iff {specimen : Specimen} {all : Nat}
    (expected : specimen.expected = .ok all) (bit : Nat) :
    all.testBit bit = true ↔ specimen.width.mask.testBit bit = true ∧
      ∀ id ∈ specimen.circuit.inputs, ∀ value, specimen.circuit.netlist.value id = .ok value →
        value.testBit bit = true := by
  obtain ⟨inputs, looked, rfl⟩ := expected_eq_ok_iff.mp expected
  rw [testBit_foldl_and, Bool.and_eq_true, List.all_eq_true]
  refine and_congr_right fun _ => ⟨fun set id member value known => ?_, fun set value member => ?_⟩
  · obtain ⟨same, present, found⟩ := exists_mem_of_mapM looked (Array.mem_toList_iff.mpr member)
    cases found.symm.trans known
    exact set _ present
  · obtain ⟨id, member, known⟩ := exists_of_mem_mapM looked member
    exact set id (Array.mem_toList_iff.mp member) value known

/-- The next step succeeds, with this output, for which the reference expects this value. -/
structure Ready (specimen : Specimen) (shown all : Nat) : Prop where
  output : specimen.circuit.outputs[0]? = some shown
  upTo : (specimen.circuit.netlist.signal shown).history.UpTo specimen.circuit.cycle
  expected : specimen.expected = .ok all

/-- What a step leaves behind that records this value at this signal. -/
def following (specimen : Specimen) (shown all : Nat) : Specimen :=
  specimen.withCircuit (specimen.circuit.record shown all).advance

namespace Ready

variable {specimen : Specimen} {shown all : Nat}

theorem step_eq (ready : specimen.Ready shown all) :
    step specimen = .ok () (specimen.following shown all) :=
  step_of_upTo ready.expected ready.output ready.upTo

theorem signal_following (ready : specimen.Ready shown all) (id : Nat) :
    (specimen.following shown all).circuit.netlist.signal id =
      if id = shown then (specimen.circuit.netlist.signal shown).record all specimen.circuit.cycle
      else specimen.circuit.netlist.signal id :=
  Netlist.signal_record _ (Circuit.output_lt ready.output) _ _ id

theorem value_following (ready : specimen.Ready shown all) (id : Nat) :
    (specimen.following shown all).circuit.netlist.value id =
      if id = shown then .ok ((specimen.circuit.netlist.signal shown).fit all)
      else specimen.circuit.netlist.value id := by
  rw [Netlist.value, ready.signal_following]
  split
  · rw [Signal.value_eq_ok_iff, Signal.history_record, ready.upTo.value?_record]
  · rfl

theorem driven_following (ready : specimen.Ready shown all) :
    (specimen.following shown all).circuit.Driven := by
  obtain ⟨inputs, looked, _⟩ := expected_eq_ok_iff.mp ready.expected
  intro id member
  rw [← Signal.exists_value_iff]
  show ∃ held, (specimen.following shown all).circuit.netlist.value id = .ok held
  rw [ready.value_following]
  split
  · exact ⟨_, rfl⟩
  · exact Signal.exists_value_iff.mpr (Circuit.driven_of_inputValues looked id member)

/-- After a step the reference expects what it expected before, as far as the output can hold it. -/
theorem fit_again (ready : specimen.Ready shown all) {again : Nat}
    (expected : (specimen.following shown all).expected = .ok again) :
    (specimen.circuit.netlist.signal shown).fit again =
      (specimen.circuit.netlist.signal shown).fit all := by
  apply Nat.eq_of_testBit_eq
  intro bit
  have cut := (specimen.circuit.netlist.signal shown).testBit_fit all bit
  rw [Signal.testBit_fit, cut]
  -- A bit that the output cannot hold is clear on both sides.
  cases holds : (specimen.circuit.netlist.signal shown).width.all (bit < ·.bits) with
  | false => simp only [Bool.and_false]
  | true =>
    rw [holds, Bool.and_true] at cut
    rw [Bool.and_true, Bool.and_true, Bool.eq_iff_iff, testBit_expected_iff expected,
      testBit_expected_iff ready.expected]
    refine and_congr_right fun mask => ⟨fun set => ?_, fun set id member value known => ?_⟩
    · -- Where the output is an input as well, its own bit tells that all inputs had theirs set.
      by_cases fed : shown ∈ specimen.circuit.inputs
      · have own := set shown fed _ (by rw [ready.value_following, if_pos rfl])
        rw [cut] at own
        exact ((testBit_expected_iff ready.expected bit).mp own).2
      · intro id member value known
        have different : id ≠ shown := fun same => fed (same ▸ member)
        exact set id member value (by rw [ready.value_following, if_neg different, known])
    · rw [ready.value_following] at known
      split at known
      · cases known
        rw [cut]
        exact (testBit_expected_iff ready.expected bit).mpr ⟨mask, set⟩
      · exact set id member value known

/-- After a step the next one can be taken, and records the same value. -/
theorem next (ready : specimen.Ready shown all) :
    ∃ again, (specimen.following shown all).Ready shown again ∧
      ((specimen.following shown all).circuit.netlist.signal shown).fit again =
        (specimen.circuit.netlist.signal shown).fit all := by
  obtain ⟨inputs, looked⟩ := ready.driven_following.inputValues
  have expected := expected_eq_ok_iff.mpr ⟨inputs, looked, rfl⟩
  refine ⟨_, ⟨ready.output, ?_, expected⟩, ?_⟩
  · rw [ready.signal_following, if_pos rfl, Signal.history_record]
    exact (ready.upTo.record _).mono (Nat.le_succ _)
  · rw [ready.signal_following, if_pos rfl]
    exact ready.fit_again expected

end Ready

/-- What is left after so many steps that all recorded one value: the output holds an entry for each
of their cycles, and nothing else was recorded. -/
structure Repeats (before : Specimen) (shown value count : Nat) (after : Specimen) : Prop where
  entries : (after.circuit.netlist.signal shown).history.entries.toList =
    (before.circuit.netlist.signal shown).history.entries.toList.filter
        (·.cycle < before.circuit.cycle) ++
      (List.range' before.circuit.cycle count).map (⟨·, value⟩)
  others : ∀ id ≠ shown, after.circuit.netlist.signal id = before.circuit.netlist.signal id
  cycle : after.circuit.cycle = before.circuit.cycle + count

theorem Ready.repeats_following {specimen : Specimen} {shown all : Nat}
    (ready : specimen.Ready shown all) :
    specimen.Repeats shown ((specimen.circuit.netlist.signal shown).fit all) 1
      (specimen.following shown all) where
  entries := by
    rw [ready.signal_following, if_pos rfl, Signal.history_record,
      History.toList_record _ ready.upTo]
    rfl
  others id different := by rw [ready.signal_following, if_neg different]
  cycle := rfl

theorem Repeats.trans {before between after : Specimen} {shown value few more : Nat}
    (first : before.Repeats shown value few between)
    (second : between.Repeats shown value more after) :
    before.Repeats shown value (few + more) after where
  entries := by
    have earlier : (between.circuit.netlist.signal shown).history.entries.toList.filter
        (·.cycle < between.circuit.cycle) =
          (between.circuit.netlist.signal shown).history.entries.toList := by
      apply List.filter_eq_self.mpr
      intro entry member
      rw [first.entries, List.mem_append, List.mem_filter, List.mem_map] at member
      rw [first.cycle, decide_eq_true_eq]
      rcases member with ⟨_, old⟩ | ⟨cycle, new, rfl⟩
      · have := of_decide_eq_true old
        omega
      · exact (List.mem_range'_1.mp new).2
    rw [second.entries, earlier, first.entries, first.cycle, List.append_assoc, ← List.map_append,
      List.range'_append_1]
  others id different := (second.others id different).trans (first.others id different)
  cycle := by rw [second.cycle, first.cycle, Nat.add_assoc]

theorem Repeats.mem_entries {before after : Specimen} {shown value count : Nat}
    (repeats : before.Repeats shown value count after) {cycle : Nat}
    (reached : before.circuit.cycle ≤ cycle) (within : cycle < before.circuit.cycle + count) :
    ⟨cycle, value⟩ ∈ (after.circuit.netlist.signal shown).history.entries.toList := by
  rw [repeats.entries, List.mem_append]
  exact .inr (List.mem_map_of_mem (List.mem_range'_1.mpr ⟨reached, within⟩))

/-- Where one step can be taken, any number of further steps can, and they all record its value. -/
theorem Ready.steps_succ {specimen : Specimen} {shown all : Nat} (ready : specimen.Ready shown all)
    (count : Nat) : ∃ last, steps count (specimen.following shown all) = .ok () last ∧
      specimen.Repeats shown ((specimen.circuit.netlist.signal shown).fit all) (count + 1) last := by
  induction count generalizing specimen all with
  | zero => exact ⟨_, rfl, ready.repeats_following⟩
  | succ count ih =>
    obtain ⟨again, ready_again, same⟩ := ready.next
    obtain ⟨last, run, repeats⟩ := ih ready_again
    rw [same] at repeats
    refine ⟨last, (Action.bind_of_ok ready_again.step_eq _).trans run, ?_⟩
    rw [Nat.add_comm]
    exact ready.repeats_following.trans repeats

/-- Once a step has succeeded, all further steps do for as long as nothing is poked. The output has
the same value, recorded anew, at the cycle of the first step and at each cycle after it, and no
other signal changes. -/
theorem steps_repeat {specimen first : Specimen} (done : step specimen = .ok () first) :
    ∃ shown value, specimen.circuit.outputs[0]? = some shown ∧
      ∀ count, ∃ last, steps count first = .ok () last ∧
        last.circuit.cycle = specimen.circuit.cycle + count + 1 ∧
        (∀ cycle, specimen.circuit.cycle ≤ cycle → cycle ≤ specimen.circuit.cycle + count →
          ⟨cycle, value⟩ ∈ (last.circuit.netlist.signal shown).history.entries.toList ∧
          last.circuit.netlist.valueAt shown cycle = .ok value) ∧
        ∀ id ≠ shown, last.circuit.netlist.signal id = specimen.circuit.netlist.signal id := by
  rcases step_cases specimen with ⟨fault, stopped⟩ | ⟨all, shown, expected, output, upTo, stepped⟩
  · cases done.symm.trans stopped
  · have ready : specimen.Ready shown all := ⟨output, upTo, expected⟩
    cases done.symm.trans ready.step_eq
    refine ⟨shown, (specimen.circuit.netlist.signal shown).fit all, output, fun count => ?_⟩
    obtain ⟨last, run, repeats⟩ := ready.steps_succ count
    refine ⟨last, run, repeats.cycle, fun cycle reached within => ?_, repeats.others⟩
    have member := repeats.mem_entries reached (Nat.lt_succ_of_le within)
    exact ⟨member, Signal.valueAt_eq_ok_iff.mpr (History.valueAt?_of_mem member)⟩

/-- The output is listed twice among the inputs, and holds a value that is wider than it became when
a gate settled its width. -/
def fedBack : Specimen :=
  let signals := ((Netlist.empty.add "loop").1.record 0 0x1fd 0).add "wide"
  let joined := (signals.1.record 1 0xff 0).connect .and ⟨7, by decide⟩ 0 0
  { name := "fed_back"
    width := ⟨11, by decide⟩
    circuit :=
      { netlist := joined.1, inputs := #[0, 1, 0], gates := #[joined.2], outputs := #[0], cycle := 2
        inputs_lt := by decide, gates_within := by decide, outputs_lt := by decide } }

theorem steps_repeat_of_fedBack :
    ∃ first, step fedBack = .ok () first ∧
      ∃ shown value, fedBack.circuit.outputs[0]? = some shown ∧
        ∀ count, ∃ last, steps count first = .ok () last ∧
          last.circuit.cycle = fedBack.circuit.cycle + count + 1 ∧
          (∀ cycle, fedBack.circuit.cycle ≤ cycle → cycle ≤ fedBack.circuit.cycle + count →
            ⟨cycle, value⟩ ∈ (last.circuit.netlist.signal shown).history.entries.toList ∧
            last.circuit.netlist.valueAt shown cycle = .ok value) ∧
          ∀ id ≠ shown, last.circuit.netlist.signal id = fedBack.circuit.netlist.signal id :=
  ⟨_, rfl, steps_repeat rfl⟩

end GoldenCircuit.Specimen
