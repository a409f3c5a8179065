import Mathlib.Data.List.Induction
import GoldenCircuit.Proofs.Circuit

/-! Pokes at one cycle. Of the values that an input is poked with the last one stays, through
whatever index it comes, and a poke that fails leaves no trace. So it does not matter in which order
different inputs are poked, nor how often. -/
namespace GoldenCircuit

/-- The signal after a cycle in which it was poked with this value last, or not at all. -/
def Signal.poked (signal : Signal) (last? : Option Nat) (cycle : Nat) : Signal :=
  last?.elim signal (signal.record · cycle)

theorem Signal.record_poked (signal : Signal) (last? : Option Nat) (value cycle : Nat) :
    (signal.poked last? cycle).record value cycle = signal.record value cycle := by
  cases last? with
  | none => rfl
  | some last => exact signal.record_record last value cycle

/-- Where a signal takes no value for the cycle it does not matter what it is poked with. -/
theorem Signal.poked_congr {signal : Signal} {one other : Option Nat} {cycle : Nat}
    (same : signal.history.UpTo cycle → one.map signal.fit = other.map signal.fit) :
    signal.poked one cycle = signal.poked other cycle := by
  cases refused : signal.refusal? cycle with
  | some fault =>
    have unchanged (last? : Option Nat) : signal.poked last? cycle = signal := by
      cases last? with
      | none => rfl
      | some last => exact record_of_refused last refused
    rw [unchanged, unchanged]
  | none =>
    have fitting := same (refusal?_eq_none_iff.mp refused)
    cases one with
    | none => rw [Option.map_eq_none_iff.mp fitting.symm]
    | some value =>
      obtain ⟨value', rfl, fits⟩ := Option.map_eq_some_iff.mp fitting.symm
      exact record_congr fits.symm cycle

namespace Circuit

/-- The circuit that is left after pokes, each an index and a value, one after the other. A poke that
fails does not keep the later ones from being tried. -/
def poking (circuit : Circuit) (pokes : List (Nat × Nat)) : Circuit :=
  pokes.foldl (fun circuit (index, value) => (poke index value).after circuit) circuit

/-- The value that a signal is poked with last, through any of the indices that it is listed
under. -/
def lastPoke? (circuit : Circuit) (pokes : List (Nat × Nat)) (id : Nat) : Option Nat :=
  (pokes.filter (circuit.inputs[·.1]? = some id)).getLast?.map (·.2)

/-- Both drive the same inputs, and each of them to the same value in the end, as far as its signal
can hold it. A signal that was recorded for a cycle to come takes no value, and does not count. -/
def SamePokes (circuit : Circuit) (one other : List (Nat × Nat)) : Prop :=
  ∀ id ∈ circuit.inputs, (circuit.netlist.signal id).history.UpTo circuit.cycle →
    (circuit.lastPoke? one id).map (circuit.netlist.signal id).fit =
      (circuit.lastPoke? other id).map (circuit.netlist.signal id).fit

instance (circuit : Circuit) (one other : List (Nat × Nat)) :
    Decidable (circuit.SamePokes one other) :=
  inferInstanceAs (Decidable (∀ id ∈ circuit.inputs, _))

theorem poking_concat (circuit : Circuit) (pokes : List (Nat × Nat)) (index value : Nat) :
    circuit.poking (pokes ++ [(index, value)]) =
      (poke index value).after (circuit.poking pokes) := by
  rw [poking, List.foldl_concat, ← poking]

theorem lastPoke?_concat (circuit : Circuit) (pokes : List (Nat × Nat)) (last : Nat × Nat)
    (id : Nat) :
    circuit.lastPoke? (pokes ++ [last]) id =
      if circuit.inputs[last.1]? = some id then some last.2 else circuit.lastPoke? pokes id := by
  unfold lastPoke?
  rw [List.filter_append]
  split
  next found => simp [found]
  next other => simp [other]

theorem lastPoke?_cons_of_ne {circuit : Circuit} {first : Nat × Nat} {id : Nat}
    (other : circuit.inputs[first.1]? ≠ some id) (pokes : List (Nat × Nat)) :
    circuit.lastPoke? (first :: pokes) id = circuit.lastPoke? pokes id := by
  rw [lastPoke?, List.filter_cons_of_neg (by simpa using other), ← lastPoke?]

theorem lastPoke?_of_not_mem {circuit : Circuit} {id : Nat} (undriven : id ∉ circuit.inputs)
    (pokes : List (Nat × Nat)) : circuit.lastPoke? pokes id = none := by
  have none : pokes.filter (circuit.inputs[·.1]? = some id) = [] := by
    apply List.filter_eq_nil_iff.mpr
    intro poke _ found
    exact undriven (Array.mem_of_getElem? (of_decide_eq_true found))
  rw [lastPoke?, none]
  rfl

/-- The circuits differ in nothing but what was recorded. -/
structure SameButHistories (one other : Circuit) : Prop where
  alike : one.Alike other
  cycle : one.cycle = other.cycle
  index : one.netlist.index = other.netlist.index
  serial : one.netlist.serial = other.netlist.serial

theorem sameButHistories_poking (circuit : Circuit) (pokes : List (Nat × Nat)) :
    circuit.SameButHistories (circuit.poking pokes) := by
  induction pokes using List.reverseRecOn with
  | nil => exact ⟨.refl circuit, rfl, rfl, rfl⟩
  | append_singleton pokes last ih =>
    obtain ⟨index, value⟩ := last
    rw [poking_concat]
    cases found : (circuit.poking pokes).inputs[index]? with
    | none => rwa [after_poke_of_none found]
    | some id =>
      rw [after_poke_of_some found]
      exact ⟨ih.alike.trans (alike_record _ (input_lt found) value), ih.cycle, ih.index, ih.serial⟩

/-- Whatever pokes there were, a signal is left as if there had been only the last one of it. -/
theorem signal_poking (circuit : Circuit) (pokes : List (Nat × Nat)) (id : Nat) :
    (circuit.poking pokes).netlist.signal id =
      (circuit.netlist.signal id).poked (circuit.lastPoke? pokes id) circuit.cycle := by
  -- From the end, since it is the last poke of a signal that decides.
  induction pokes using List.reverseRecOn with
  | nil => rfl
  | append_singleton pokes last ih =>
    obtain ⟨index, value⟩ := last
    have same := circuit.sameButHistories_poking pokes
    rw [poking_concat, lastPoke?_concat, same.alike.inputs]
    cases found : (circuit.poking pokes).inputs[index]? with
    | none =>
      rw [after_poke_of_none found, if_neg (by simp)]
      exact ih
    | some driven =>
      rw [after_poke_of_some found, netlist_record, Netlist.signal_record _ (input_lt found),
        ← same.cycle]
      by_cases here : id = driven
      · subst here
        rw [if_pos rfl, if_pos rfl, ih]
        exact Signal.record_poked ..
      · rw [if_neg here, if_neg (by simpa using Ne.symm here)]
        exact ih

theorem SamePokes.poking_eq {circuit : Circuit} {one other : List (Nat × Nat)}
    (same : circuit.SamePokes one other) : circuit.poking one = circuit.poking other := by
  have first := circuit.sameButHistories_poking one
  have second := circuit.sameButHistories_poking other
  have alike := first.alike.symm.trans second.alike
  have signal : ∀ id, (circuit.poking one).netlist.signal id =
      (circuit.poking other).netlist.signal id := by
    intro id
    rw [signal_poking, signal_poking]
    by_cases driven : id ∈ circuit.inputs
    · exact Signal.poked_congr (same id driven)
    · rw [lastPoke?_of_not_mem driven, lastPoke?_of_not_mem driven]
  exact alike.ext_of_signal signal (first.index.symm.trans second.index)
    (first.serial.symm.trans second.serial) (first.cycle.symm.trans second.cycle)

theorem lastPoke?_pair (circuit : Circuit) (one other : Nat × Nat) (id : Nat) :
    circuit.lastPoke? [one, other] id =
      if circuit.inputs[other.1]? = some id then some other.2
      else if circuit.inputs[one.1]? = some id then some one.2 else none := by
  have first := circuit.lastPoke?_concat [] one id
  have second := circuit.lastPoke?_concat [one] other id
  rw [List.nil_append] at first
  rwa [first] at second

theorem samePokes_swap {circuit : Circuit} {one other : Nat × Nat}
    (different : circuit.inputs[one.1]? ≠ circuit.inputs[other.1]?) :
    circuit.SamePokes [one, other] [other, one] := by
  intro id _ _
  rw [lastPoke?_pair, lastPoke?_pair]
  by_cases here : circuit.inputs[other.1]? = some id
  · have apart : circuit.inputs[one.1]? ≠ some id := fun same => different (same.trans here.symm)
    rw [if_pos here, if_neg apart, if_pos here]
  · rw [if_neg here, if_neg here]

theorem samePokes_overwritten {circuit : Circuit} {one other : Nat × Nat}
    (same : circuit.inputs[one.1]? = circuit.inputs[other.1]?) (between : List (Nat × Nat)) :
    circuit.SamePokes (one :: between ++ [other]) (between ++ [other]) := by
  intro id _ _
  rw [lastPoke?_concat, lastPoke?_concat]
  by_cases here : circuit.inputs[other.1]? = some id
  · rw [if_pos here, if_pos here]
  · have apart : circuit.inputs[one.1]? ≠ some id := fun found => here (same.symm.trans found)
    rw [if_neg here, if_neg here, lastPoke?_cons_of_ne apart]

/-- Pokes at one cycle that drive the same inputs to the same values in the end leave the same
circuit. So pokes of different signals can change places, and a poke makes an earlier one of the
same signal as if it had never happened. -/
theorem poking_outcome (circuit : Circuit) :
    (∀ one other, circuit.SamePokes one other → circuit.poking one = circuit.poking other) ∧
    (∀ one other : Nat × Nat, circuit.inputs[one.1]? ≠ circuit.inputs[other.1]? →
      circuit.poking [one, other] = circuit.poking [other, one]) ∧
    (∀ (one other : Nat × Nat) (between : List (Nat × Nat)),
      circuit.inputs[one.1]? = circuit.inputs[other.1]? →
        circuit.poking (one :: between ++ [other]) = circuit.poking (between ++ [other])) := by
  refine ⟨fun one other same => same.poking_eq, fun one other different => ?_,
    fun one other between same => ?_⟩
  · exact (samePokes_swap different).poking_eq
  · exact (samePokes_overwritten same between).poking_eq

/-- A signal that is listed under two indices, one of unknown width, and one that was recorded for a
cycle to come. -/
def aliased : Circuit :=
  let signals := ((Netlist.empty.add "twice" (some ⟨3, by decide⟩)).1.add "plain").1.add "ahead"
  { netlist := (signals.1.record 0 5 1).record 2 1 9
    inputs := #[0, 1, 0, 2], gates := #[], outputs := #[], cycle := 1
    inputs_lt := by decide, gates_within := by decide, outputs_lt := by decide }

/-- The pokes differ in their order, in how often and through which index they come, in the values
of those that are overwritten or refused, and in bits that do not fit. -/
theorem poking_outcome_of_aliased :
    let one := [(0, 0x3), (3, 0x1), (1, 0x77), (2, 0x1a)]
    let other := [(2, 0xa), (1, 0x2), (4, 0x6), (1, 0x77), (0, 0xfa)]
    aliased.SamePokes one other ∧ aliased.poking one = aliased.poking other ∧
      aliased.inputs[1]? ≠ aliased.inputs[2]? ∧
      aliased.poking [(1, 0x2), (2, 0xa)] = aliased.poking [(2, 0xa), (1, 0x2)] ∧
      aliased.inputs[2]? = aliased.inputs[0]? ∧
      aliased.poking ([(2, 0xa), (1, 0x77)] ++ [(0, 0x6)]) =
        aliased.poking ([(1, 0x77)] ++ [(0, 0x6)]) := by
  intro one other
  have same : aliased.SamePokes one other := by decide
  have different : aliased.inputs[1]? ≠ aliased.inputs[2]? := by decide
  have again : aliased.inputs[2]? = aliased.inputs[0]? := by decide
  exact ⟨same, (poking_outcome aliased).1 one other same, different,
    (poking_outcome aliased).2.1 (1, 0x2) (2, 0xa) different, again,
    (poking_outcome aliased).2.2 (2, 0xa) (0, 0x6) [(1, 0x77)] again⟩

end Circuit
end GoldenCircuit
