import GoldenCircuit.Netlist
import GoldenCircuit.Proofs.Action
import GoldenCircuit.Proofs.History
import GoldenCircuit.Proofs.Word

/-! A netlist seen through the signals at its places. Each operation changes the signal at one
place, or adds one at the end, and leaves all others as they are. -/
namespace GoldenCircuit

theorem bind_eq_ok_iff {First Second : Type} {first : Except Fault First}
    {next : First → Except Fault Second} {answer : Second} :
    first >>= next = .ok answer ↔ ∃ value, first = .ok value ∧ next value = .ok answer := by
  cases first <;> simp [bind, Except.bind]

namespace Signal

theorem ext_of_entries {one other : Signal} (name : one.name = other.name)
    (width : one.width = other.width)
    (entries : one.history.entries.toList = other.history.entries.toList) : one = other := by
  have history := History.ext_of_entries entries
  cases one
  cases other
  simp_all only

/-- Every recorded value has at most the bits of a width. -/
def Fits (signal : Signal) (width : Width) : Prop :=
  ∀ entry ∈ signal.history.entries.toList, entry.value < 2 ^ width.bits

theorem fit_lt {signal : Signal} {width : Width} (known : signal.width = some width)
    (value : Nat) : signal.fit value < 2 ^ width.bits := by
  rw [fit, known]
  exact truncate_lt value width

theorem fit_eq (signal : Signal) (value : Nat) :
    signal.fit value = match signal.width with
      | some width => value % 2 ^ width.bits
      | none => value := by
  unfold fit
  cases signal.width with
  | none => rfl
  | some width => exact truncate_eq_mod value width

/-- A recorded bit is one of the value, unless the signal is too narrow for it. -/
theorem testBit_fit (signal : Signal) (value bit : Nat) :
    (signal.fit value).testBit bit = (value.testBit bit && signal.width.all (bit < ·.bits)) := by
  rw [fit_eq]
  cases signal.width with
  | none => simp
  | some width => simp [Nat.testBit_mod_two_pow, Bool.and_comm]

theorem fit_of_lt {signal : Signal} {width : Width} (known : signal.width = some width)
    {value : Nat} (fits : value < 2 ^ width.bits) : signal.fit value = value := by
  rw [fit, known]
  exact truncate_of_lt fits

theorem fit_of_lt_pinWidth {signal : Signal} {value : Nat}
    (fits : value < 2 ^ signal.pinWidth.bits) : signal.fit value = value := by
  cases known : signal.width with
  | none => simp [fit, known]
  | some width =>
    apply fit_of_lt known
    simpa [pinWidth, known] using fits

@[simp]
theorem name_record (signal : Signal) (value cycle : Nat) :
    (signal.record value cycle).name = signal.name :=
  rfl

@[simp]
theorem width_record (signal : Signal) (value cycle : Nat) :
    (signal.record value cycle).width = signal.width :=
  rfl

@[simp]
theorem history_record (signal : Signal) (value cycle : Nat) :
    (signal.record value cycle).history = signal.history.record cycle (signal.fit value) :=
  rfl

theorem refusal?_eq_none_iff {signal : Signal} {cycle : Nat} :
    signal.refusal? cycle = none ↔ signal.history.UpTo cycle := by
  rw [refusal?, Option.map_eq_none_iff, History.overtaken?_eq_none_iff]

theorem refusal?_eq_some_iff {signal : Signal} {cycle : Nat} {fault : Fault} :
    signal.refusal? cycle = some fault ↔ ∃ last, signal.history.latest? = some last ∧
      cycle < last.cycle ∧ fault = .cycleRegression signal.name cycle last.cycle := by
  simp only [refusal?, Option.map_eq_some_iff, History.overtaken?_eq_some_iff]
  constructor
  · rintro ⟨_, ⟨last, latest, rfl, ahead⟩, rfl⟩
    exact ⟨last, latest, ahead, rfl⟩
  · rintro ⟨last, latest, ahead, rfl⟩
    exact ⟨last.cycle, ⟨last, latest, rfl, ahead⟩, rfl⟩

theorem record_of_refused {signal : Signal} {cycle : Nat} (value : Nat) {fault : Fault}
    (refused : signal.refusal? cycle = some fault) : signal.record value cycle = signal := by
  obtain ⟨last, ahead, _⟩ := Option.map_eq_some_iff.mp refused
  have same : signal.history.record cycle (signal.fit value) = signal.history :=
    History.record_of_overtaken _ ahead
  exact congrArg (fun history => { signal with history }) same

/-- A recorded value matters as far as it fits. -/
theorem record_congr {signal : Signal} {one other : Nat} (same : signal.fit one = signal.fit other)
    (cycle : Nat) : signal.record one cycle = signal.record other cycle :=
  congrArg (fun value => { signal with history := signal.history.record cycle value }) same

theorem record_record (signal : Signal) (first last cycle : Nat) :
    (signal.record first cycle).record last cycle = signal.record last cycle :=
  congrArg (fun history => { signal with history })
    (signal.history.record_record cycle (signal.fit first) (signal.fit last))

/-- What held before a cycle is not changed by recording for that cycle. -/
theorem valueAt_record_of_lt (signal : Signal) {time cycle : Nat} (before : time < cycle)
    (value : Nat) : (signal.record value cycle).valueAt time = signal.valueAt time := by
  cases refused : signal.refusal? cycle with
  | some fault => rw [record_of_refused value refused]
  | none =>
    have upTo := refusal?_eq_none_iff.mp refused
    unfold valueAt
    rw [history_record, upTo.valueAt?_record, if_neg (by omega), name_record]

theorem Fits.record {signal : Signal} {width : Width} (fits : signal.Fits width)
    (known : signal.width = some width) (value cycle : Nat) :
    (signal.record value cycle).Fits width := by
  intro entry member
  rcases History.mem_record member with old | rfl
  · exact fits entry old
  · exact fit_lt known value

theorem Fits.valueAt?_lt {signal : Signal} {width : Width} (fits : signal.Fits width)
    {cycle value : Nat} (held : signal.history.valueAt? cycle = some value) :
    value < 2 ^ width.bits := by
  rw [History.valueAt?_eq] at held
  obtain ⟨entry, last, rfl⟩ := Option.map_eq_some_iff.mp held
  exact fits entry (List.mem_filter.mp (List.mem_of_getLast? last)).1

theorem value_eq_ok_iff {signal : Signal} {value : Nat} :
    signal.value = .ok value ↔ signal.history.value? = some value := by
  unfold Signal.value
  cases signal.history.value? <;> simp

theorem value_eq_error_iff {signal : Signal} {fault : Fault} :
    signal.value = .error fault ↔
      signal.history.entries = #[] ∧ fault = .uninitialized signal.name := by
  rw [← History.value?_eq_none_iff]
  unfold Signal.value
  cases signal.history.value? <;> simp [eq_comm]

theorem exists_value_iff {signal : Signal} :
    (∃ value, signal.value = .ok value) ↔ signal.history.entries ≠ #[] := by
  rw [ne_eq, ← History.value?_eq_none_iff, ← ne_eq, Option.ne_none_iff_exists']
  simp only [value_eq_ok_iff]

theorem valueAt_eq_ok_iff {signal : Signal} {cycle value : Nat} :
    signal.valueAt cycle = .ok value ↔ signal.history.valueAt? cycle = some value := by
  unfold Signal.valueAt
  cases signal.history.valueAt? cycle <;> simp

end Signal

namespace Netlist

theorem ext_of_signals {one other : Netlist} (signals : one.signals = other.signals)
    (index : one.index = other.index) (serial : one.serial = other.serial) : one = other := by
  cases one
  cases other
  simp_all only

/-- Netlists are equal if they have the same signals at the same places, and know the same names. -/
theorem ext_of_signal {one other : Netlist} (size : one.size = other.size)
    (signal : ∀ id, one.signal id = other.signal id) (index : one.index = other.index)
    (serial : one.serial = other.serial) : one = other := by
  refine ext_of_signals (Array.ext size fun id within within' => ?_) index serial
  have same := signal id
  unfold Netlist.signal at same
  rwa [Array.getElem?_eq_getElem within, Array.getElem?_eq_getElem within'] at same

theorem signal_push (netlist : Netlist) (signal : Signal) (id : Nat) :
    (netlist.push signal).signal id = if id = netlist.size then signal else netlist.signal id := by
  unfold Netlist.signal push size
  rw [Array.getElem?_push]
  split <;> rfl

theorem signal_alter (netlist : Netlist) {id : Nat} (within : id < netlist.size)
    (change : Signal → Signal) (keeps : ∀ signal, (change signal).name = signal.name)
    (other : Nat) :
    (netlist.alter id change keeps).signal other =
      if other = id then change (netlist.signal id) else netlist.signal other := by
  unfold Netlist.signal alter
  rw [Array.getElem?_modify]
  by_cases same : other = id
  · subst same
    rw [if_pos rfl, if_pos rfl, Array.getElem?_eq_getElem within]
    rfl
  · rw [if_neg same, if_neg (Ne.symm same)]

theorem signal_inferWidth (netlist : Netlist) {id : Nat} (within : id < netlist.size)
    (width : Width) (other : Nat) :
    (netlist.inferWidth id width).signal other =
      if other = id then (netlist.signal id).inferWidth width else netlist.signal other :=
  netlist.signal_alter within _ _ other

theorem getElem?_names (netlist : Netlist) {id : Nat} (within : id < netlist.size) :
    netlist.names[id]? = some (netlist.signal id).name := by
  unfold names Netlist.signal
  rw [List.getElem?_map, Array.getElem?_toList, Array.getElem?_eq_getElem within]
  rfl

theorem length_names (netlist : Netlist) : netlist.names.length = netlist.size := by
  rw [names, List.length_map, Array.length_toList, size]

theorem getElem_names (netlist : Netlist) {id : Nat} (inside : id < netlist.names.length) :
    netlist.names[id] = (netlist.signal id).name := by
  have within : id < netlist.size := by rwa [length_names] at inside
  exact Option.some.inj
    ((List.getElem?_eq_getElem inside).symm.trans (netlist.getElem?_names within))

/-- Where no name is repeated, every signal is found under its name. -/
theorem find?_of_nodup {netlist : Netlist} (distinct : netlist.names.Nodup) {id : Nat}
    (within : id < netlist.size) : netlist.find? (netlist.signal id).name = some id := by
  have inside : id < netlist.names.length := by rwa [length_names]
  rw [find?_eq, List.findIdx?_eq_some_iff_getElem, ← netlist.getElem_names inside]
  refine ⟨inside, beq_self_eq_true _, fun earlier before same => ?_⟩
  rw [beq_iff_eq, List.getElem_inj distinct] at same
  exact Nat.ne_of_lt before same

theorem mem_names_iff (netlist : Netlist) (name : String) :
    name ∈ netlist.names ↔ ∃ id < netlist.size, (netlist.signal id).name = name := by
  rw [List.mem_iff_getElem?]
  constructor
  · rintro ⟨id, found⟩
    have within := (List.getElem?_eq_some_iff.mp found).1
    rw [length_names] at within
    rw [netlist.getElem?_names within] at found
    exact ⟨id, within, Option.some.inj found⟩
  · rintro ⟨id, within, rfl⟩
    exact ⟨id, netlist.getElem?_names within⟩

theorem contains_index_iff (netlist : Netlist) (name : String) :
    netlist.index.contains name = true ↔ ∃ id < netlist.size, (netlist.signal id).name = name := by
  have known : netlist.index.contains name = (netlist.find? name).isSome :=
    Std.TreeMap.contains_eq_isSome_getElem?
  rw [known, find?_eq, List.findIdx?_isSome, List.any_beq', List.contains_iff_mem, mem_names_iff]

/-- The next automatic name is the one with the serial number, if no signal bears it. -/
theorem freshNumber_of_free {netlist : Netlist}
    (free : ∀ id < netlist.size, (netlist.signal id).name ≠ automaticName netlist.serial) :
    netlist.freshNumber = netlist.serial := by
  have untaken : ¬ netlist.index.contains (automaticName netlist.serial) = true := by
    rw [contains_index_iff]
    rintro ⟨id, within, named⟩
    exact free id within named
  unfold freshNumber
  cases netlist.size with
  | zero => rfl
  | succ size => rw [firstFree, if_neg untaken]

theorem signal_addFresh (netlist : Netlist) (id : Nat) :
    netlist.addFresh.1.signal id =
      if id = netlist.size then { name := automaticName netlist.freshNumber }
      else netlist.signal id :=
  netlist.signal_push _ id

/-- A gate adds its destination and settles the widths of its sources. -/
theorem signal_connect (netlist : Netlist) (opcode : Opcode) (width : Width) {lhs rhs : Nat}
    (lhs_lt : lhs < netlist.size) (rhs_lt : rhs < netlist.size) (id : Nat) :
    (netlist.connect opcode width lhs rhs).1.signal id =
      if id = netlist.size then
        { name := automaticName netlist.freshNumber, width := some width }
      else if id = lhs ∨ id = rhs then (netlist.signal id).inferWidth width
      else netlist.signal id := by
  have settled : ∀ signal : Signal, (signal.inferWidth width).inferWidth width =
      signal.inferWidth width := by
    rintro ⟨name, _ | known, history⟩ <;> rfl
  have lhs_grown : lhs < netlist.addFresh.1.size := by
    rw [size_addFresh]
    omega
  have rhs_grown : rhs < (netlist.addFresh.1.inferWidth lhs width).size := by
    rw [size_inferWidth, size_addFresh]
    omega
  have dest_grown :
      netlist.size < ((netlist.addFresh.1.inferWidth lhs width).inferWidth rhs width).size := by
    simp
  have after_lhs := signal_inferWidth _ lhs_grown width
  have after_rhs := signal_inferWidth _ rhs_grown width
  have after_dest := signal_inferWidth _ dest_grown width
  have lhs_ne : netlist.size ≠ lhs := Nat.ne_of_gt lhs_lt
  have rhs_ne : netlist.size ≠ rhs := Nat.ne_of_gt rhs_lt
  show (((netlist.addFresh.1.inferWidth lhs width).inferWidth rhs width).inferWidth
    netlist.size width).signal id = _
  rw [after_dest]
  by_cases dest : id = netlist.size
  · rw [if_pos dest, if_pos dest, after_rhs, if_neg rhs_ne, after_lhs, if_neg lhs_ne,
      signal_addFresh, if_pos rfl]
    rfl
  · have old : netlist.addFresh.1.signal id = netlist.signal id := by
      rw [signal_addFresh, if_neg dest]
    rw [if_neg dest, if_neg dest, after_rhs, after_lhs, after_lhs]
    by_cases right : id = rhs
    · by_cases left : rhs = lhs
      · rw [if_pos right, if_pos left, if_pos (.inr right), settled, ← left, ← right, old]
      · rw [if_pos right, if_neg left, if_pos (.inr right), ← right, old]
    · by_cases left : id = lhs
      · rw [if_neg right, if_pos left, if_pos (.inl left), ← left, old]
      · rw [if_neg right, if_neg left, if_neg (by simp [left, right]), old]

theorem gate_connect (netlist : Netlist) (opcode : Opcode) (width : Width) {lhs rhs : Nat}
    (lhs_lt : lhs < netlist.size) (rhs_lt : rhs < netlist.size) :
    (netlist.connect opcode width lhs rhs).2 =
      { name := automaticName netlist.freshNumber, dest := netlist.size, width, opcode,
        sources := [lhs, rhs] } := by
  have named := netlist.signal_connect opcode width lhs_lt rhs_lt netlist.size
  rw [if_pos rfl] at named
  show Gate.mk ((netlist.connect opcode width lhs rhs).1.signal netlist.size).name _ _ _ _ = _
  rw [named]

@[simp]
theorem serial_connect (netlist : Netlist) (opcode : Opcode) (width : Width) (lhs rhs : Nat) :
    (netlist.connect opcode width lhs rhs).1.serial = netlist.freshNumber + 1 :=
  rfl

theorem signal_record (netlist : Netlist) {id : Nat} (within : id < netlist.size)
    (value cycle other : Nat) :
    (netlist.record id value cycle).signal other =
      if other = id then (netlist.signal id).record value cycle else netlist.signal other :=
  netlist.signal_alter within _ _ other

theorem signal_record_self {netlist : Netlist} {id : Nat} (within : id < netlist.size)
    (value cycle : Nat) :
    (netlist.record id value cycle).signal id = (netlist.signal id).record value cycle := by
  rw [netlist.signal_record within, if_pos rfl]

theorem signal_record_of_ne {netlist : Netlist} {id other : Nat} (within : id < netlist.size)
    (different : other ≠ id) (value cycle : Nat) :
    (netlist.record id value cycle).signal other = netlist.signal other := by
  rw [netlist.signal_record within, if_neg different]

theorem valueAt_record_of_lt {netlist : Netlist} {id : Nat} (within : id < netlist.size)
    {time cycle : Nat} (before : time < cycle) (value other : Nat) :
    ((netlist.record id value cycle).signal other).valueAt time =
      (netlist.signal other).valueAt time := by
  rw [netlist.signal_record within]
  split
  next same => rw [Signal.valueAt_record_of_lt _ before, same]
  next => rfl

theorem signal_of_size_le {netlist : Netlist} {id : Nat} (beyond : netlist.size ≤ id) :
    netlist.signal id = default := by
  unfold Netlist.signal
  rw [Array.getElem?_eq_none beyond]
  rfl

/-- A refused value leaves the netlist as it is. -/
theorem record_of_refused {netlist : Netlist} {id cycle : Nat} (within : id < netlist.size)
    (value : Nat) {fault : Fault} (refused : netlist.refusal? id cycle = some fault) :
    netlist.record id value cycle = netlist := by
  have same : (netlist.record id value cycle).signals = netlist.signals := by
    have unchanged : (netlist.signal id).record value cycle = netlist.signal id :=
      Signal.record_of_refused value refused
    unfold Netlist.signal at unchanged
    rw [Array.getElem?_eq_getElem within] at unchanged
    unfold record alter
    apply Array.ext_getElem?
    intro place
    rw [Array.getElem?_modify]
    split
    next here =>
      subst here
      rw [Array.getElem?_eq_getElem within]
      exact congrArg some unchanged
    next => rfl
  exact ext_of_signals same rfl rfl

theorem after_update {netlist : Netlist} {id : Nat} (within : id < netlist.size)
    (value cycle : Nat) :
    (update id value cycle).after netlist = netlist.record id value cycle := by
  cases refused : netlist.refusal? id cycle with
  | none => simp only [update, Action.after, Action.attempt, refused]
  | some fault =>
    simp only [update, Action.after, Action.attempt, refused]
    exact (record_of_refused within value refused).symm

theorem update_of_upTo {netlist : Netlist} {id cycle : Nat} (value : Nat)
    (upTo : (netlist.signal id).history.UpTo cycle) :
    update id value cycle netlist = .ok () (netlist.record id value cycle) := by
  have accepted : netlist.refusal? id cycle = none := Signal.refusal?_eq_none_iff.mpr upTo
  simp only [update, Action.attempt, accepted]

theorem evaluate_of_pair {netlist : Netlist} {gate : Gate} {lhs rhs left right : Nat}
    (sources : gate.sources = [lhs, rhs]) (lhs_value : netlist.value lhs = .ok left)
    (rhs_value : netlist.value rhs = .ok right) :
    netlist.evaluate gate = .ok (truncate (gate.opcode.apply left right) gate.width) := by
  simp [evaluate, sources, lhs_value, rhs_value, bind, Except.bind, pure, Except.pure]

theorem evaluate_lt {netlist : Netlist} {gate : Gate} {value : Nat}
    (known : netlist.evaluate gate = .ok value) : value < 2 ^ gate.width.bits := by
  unfold evaluate at known
  split at known
  next => contradiction
  next first rest sources =>
    obtain ⟨start, _, later⟩ := bind_eq_ok_iff.mp known
    obtain ⟨total, _, cut⟩ := bind_eq_ok_iff.mp later
    cases cut
    exact truncate_lt total gate.width

end Netlist
end GoldenCircuit
