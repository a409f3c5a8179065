import Mathlib.Data.Option.Basic
import GoldenCircuit.Proofs.Netlist

/-! Updates of one signal, in any order of cycles. The plain log of the updates that were accepted
says what the signal holds at each cycle, and that no update for an earlier cycle is accepted. Its
history keeps one entry for each cycle of the log, which is enough to answer like the log. -/
namespace GoldenCircuit

/-- What a log of updates says about a cycle: of the updates for it or for an earlier cycle, the one
made last. -/
def lastThrough? (log : List Entry) (cycle : Nat) : Option Entry :=
  (log.filter (·.cycle ≤ cycle)).getLast?

theorem lastThrough?_concat (log : List Entry) (entry : Entry) (cycle : Nat) :
    lastThrough? (log ++ [entry]) cycle =
      if entry.cycle ≤ cycle then some entry else lastThrough? log cycle := by
  unfold lastThrough?
  rw [List.filter_append]
  split
  next reached => simp [reached]
  next ahead => simp [ahead]

namespace Signal

/-- An update as far as the signal can hold its value. -/
def cut (signal : Signal) (entry : Entry) : Entry :=
  { entry with value := signal.fit entry.value }

/-- The history answers like a log of updates. -/
structure Condenses (signal : Signal) (log : List Entry) : Prop where
  mem_cycles : ∀ cycle,
    cycle ∈ signal.history.entries.toList.map (·.cycle) ↔ cycle ∈ log.map (·.cycle)
  latest? : signal.history.latest? = log.getLast?.map signal.cut
  valueAt? : ∀ cycle, signal.history.valueAt? cycle =
    (lastThrough? log cycle).map fun entry => (signal.cut entry).value

namespace Condenses

variable {signal : Signal} {log : List Entry}

/-- A signal for which nothing was recorded answers like an empty log. -/
theorem fresh (name : String) (width : Option Width) : Condenses { name, width } [] where
  mem_cycles _ := Iff.rfl
  latest? := rfl
  valueAt? _ := rfl

theorem upTo_iff (condenses : signal.Condenses log) {cycle : Nat} :
    signal.history.UpTo cycle ↔ ∀ old ∈ log, old.cycle ≤ cycle := by
  have cycles := condenses.mem_cycles
  constructor
  · intro upTo old member
    obtain ⟨entry, recorded, same⟩ :=
      List.mem_map.mp ((cycles old.cycle).mpr (List.mem_map_of_mem member))
    exact same ▸ upTo entry recorded
  · intro reached entry recorded
    obtain ⟨old, member, same⟩ :=
      List.mem_map.mp ((cycles entry.cycle).mp (List.mem_map_of_mem recorded))
    exact same ▸ reached old member

/-- The next update goes to the end of the log. Entries of the history for the same cycle are
replaced, which the log does not forget, but never asks for again. -/
theorem record (condenses : signal.Condenses log) {cycle : Nat}
    (upTo : signal.history.UpTo cycle) (value : Nat) :
    (signal.record value cycle).Condenses (log ++ [⟨cycle, value⟩]) := by
  have entries := History.toList_record (signal.fit value) upTo
  constructor
  · intro time
    have old := condenses.mem_cycles time
    simp only [history_record, entries, List.map_append, List.mem_append, List.map_cons,
      List.map_nil, List.mem_singleton, ← old, List.mem_map, List.mem_filter, decide_eq_true_eq]
    constructor
    · rintro (⟨entry, ⟨recorded, -⟩, same⟩ | here)
      · exact .inl ⟨entry, recorded, same⟩
      · exact .inr here
    · rintro (⟨entry, recorded, same⟩ | here)
      · rcases Nat.lt_or_eq_of_le (upTo entry recorded) with before | now
        · exact .inl ⟨entry, ⟨recorded, before⟩, same⟩
        · exact .inr (same.symm.trans now)
      · exact .inr here
  · have last : (signal.history.record cycle (signal.fit value)).latest? =
        some ⟨cycle, signal.fit value⟩ := by
      rw [History.latest?, ← Array.getLast?_toList, entries, List.getLast?_concat]
    rw [history_record, last, List.getLast?_concat]
    rfl
  · intro time
    rw [history_record, upTo.valueAt?_record, lastThrough?_concat, condenses.valueAt?]
    split <;> rfl

end Condenses
end Signal

namespace Netlist

/-- The netlist that is left after updates of a signal, one after the other. An update that is
refused does not keep the later ones from being tried. -/
def updating (netlist : Netlist) (id : Nat) (updates : List Entry) : Netlist :=
  updates.foldl (fun netlist entry => (update id entry.value entry.cycle).after netlist) netlist

/-- The updates among them that are accepted, in their order. -/
def accepted (netlist : Netlist) (id : Nat) : List Entry → List Entry
  | [] => []
  | entry :: updates =>
    match update id entry.value entry.cycle netlist with
    | .ok _ left => entry :: left.accepted id updates
    | .error _ left => left.accepted id updates

/-- What a signal of a name and a width shows if an update is the one that counts: its value, cut to
the width, or that there is none. -/
def shown (name : String) (width : Option Width) : Option Entry → Except Fault Nat
  | some entry => .ok (width.elim entry.value (entry.value % 2 ^ ·.bits))
  | none => .error (.uninitialized name)

/-- The signal at a place has a name and a width, and its history answers like a log of updates. -/
structure Logged (netlist : Netlist) (id : Nat) (name : String) (width : Option Width)
    (log : List Entry) : Prop where
  lt_size : id < netlist.size
  name : (netlist.signal id).name = name
  width : (netlist.signal id).width = width
  condenses : (netlist.signal id).Condenses log

theorem logged_add (netlist : Netlist) (name : String) (width : Option Width) :
    (netlist.add name width).1.Logged netlist.size name width [] := by
  have signal : (netlist.add name width).1.signal netlist.size = { name, width } := by
    rw [add, signal_push, if_pos rfl]
  constructor
  · simp
  · rw [signal]
  · rw [signal]
  · rw [signal]
    exact .fresh name width

namespace Logged

variable {netlist : Netlist} {id : Nat} {name : String} {width : Option Width} {log : List Entry}

theorem update_of_reached (logged : netlist.Logged id name width log) {cycle : Nat}
    (reached : ∀ old ∈ log, old.cycle ≤ cycle) (value : Nat) :
    update id value cycle netlist = .ok () (netlist.record id value cycle) :=
  update_of_upTo value (logged.condenses.upTo_iff.mpr reached)

/-- An update for an earlier cycle than that of some accepted one is refused, with the cycle of the
last one. -/
theorem update_of_passed (logged : netlist.Logged id name width log) {cycle : Nat}
    (passed : ¬ ∀ old ∈ log, old.cycle ≤ cycle) (value : Nat) :
    ∃ last, log.getLast? = some last ∧
      update id value cycle netlist = .error (.cycleRegression name cycle last.cycle) netlist := by
  have ahead : ¬ (netlist.signal id).history.UpTo cycle :=
    fun upTo => passed (logged.condenses.upTo_iff.mp upTo)
  rw [← Signal.refusal?_eq_none_iff, ← ne_eq, Option.ne_none_iff_exists'] at ahead
  obtain ⟨fault, refused⟩ := ahead
  obtain ⟨entry, latest, -, rfl⟩ := Signal.refusal?_eq_some_iff.mp refused
  obtain ⟨last, logLast, same⟩ :=
    Option.map_eq_some_iff.mp (logged.condenses.latest?.symm.trans latest)
  have cycle_eq : entry.cycle = last.cycle := same ▸ rfl
  refine ⟨last, logLast, ?_⟩
  simp only [update, Action.attempt, refusal?, refused, logged.name, cycle_eq]

theorem record (logged : netlist.Logged id name width log) {cycle : Nat}
    (reached : ∀ old ∈ log, old.cycle ≤ cycle) (value : Nat) :
    (netlist.record id value cycle).Logged id name width (log ++ [⟨cycle, value⟩]) := by
  have signal := signal_record_self logged.lt_size value cycle
  constructor
  · rw [size_record]
    exact logged.lt_size
  · rw [signal]
    exact logged.name
  · rw [signal]
    exact logged.width
  · rw [signal]
    exact logged.condenses.record (logged.condenses.upTo_iff.mpr reached) value

/-- What is accepted of further updates goes to the end of the log, in its order. -/
theorem updating (logged : netlist.Logged id name width log) (updates : List Entry) :
    (netlist.updating id updates).Logged id name width (log ++ netlist.accepted id updates) := by
  induction updates generalizing netlist log with
  | nil =>
    rw [accepted, List.append_nil]
    exact logged
  | cons entry updates ih =>
    rw [Netlist.updating, List.foldl_cons, accepted]
    by_cases reached : ∀ old ∈ log, old.cycle ≤ entry.cycle
    · have run := logged.update_of_reached reached entry.value
      rw [Action.after_of_ok run, run]
      have later := ih (logged.record reached entry.value)
      rwa [List.append_assoc] at later
    · obtain ⟨last, -, run⟩ := logged.update_of_passed reached entry.value
      rw [Action.after_of_error run, run]
      exact ih logged

theorem shown_cut (logged : netlist.Logged id name width log) (counting : Option Entry) :
    (counting.map fun entry => ((netlist.signal id).cut entry).value).elim
      (.error (.uninitialized (netlist.signal id).name)) .ok = shown name width counting := by
  cases counting with
  | none => rw [shown, Option.map_none, Option.elim_none, logged.name]
  | some entry =>
    rw [shown, Option.map_some, Option.elim_some, Signal.cut, Signal.fit_eq, logged.width]
    cases width <;> rfl

theorem value_eq (logged : netlist.Logged id name width log) :
    netlist.value id = shown name width log.getLast? := by
  rw [← logged.shown_cut, Netlist.value, Signal.value, History.value?, logged.condenses.latest?,
    Option.map_map]
  cases log.getLast? <;> rfl

theorem valueAt_eq (logged : netlist.Logged id name width log) (cycle : Nat) :
    netlist.valueAt id cycle = shown name width (lastThrough? log cycle) := by
  rw [← logged.shown_cut, Netlist.valueAt, Signal.valueAt, logged.condenses.valueAt?]
  cases lastThrough? log cycle <;> rfl

end Logged

/-- Whatever a signal is updated with, an update is accepted exactly if it is not for an earlier cycle
than some update that was accepted. Otherwise it is refused with the cycle of the last accepted one,
and changes nothing. The history has one entry for each cycle of accepted updates, in strictly
increasing order. The value of the signal is that of the last accepted update, and what it held at a
cycle that of the last one, in the order of the calls, for the cycle or an earlier one. -/
theorem updating_outcome (netlist : Netlist) (name : String) (width : Option Width)
    (updates : List Entry) :
    let (start, id) := netlist.add name width
    let log := start.accepted id updates
    let left := start.updating id updates
    (∀ value cycle,
      ((∃ next, update id value cycle left = .ok () next) ↔ ∀ old ∈ log, old.cycle ≤ cycle) ∧
      ((¬ ∀ old ∈ log, old.cycle ≤ cycle) → ∃ last, log.getLast? = some last ∧
        update id value cycle left = .error (.cycleRegression name cycle last.cycle) left)) ∧
    (left.signal id).history.entries.toList.Pairwise (·.cycle < ·.cycle) ∧
    (∀ cycle, cycle ∈ (left.signal id).history.entries.toList.map (·.cycle) ↔
      cycle ∈ log.map (·.cycle)) ∧
    left.value id = shown name width log.getLast? ∧
    ∀ cycle, left.valueAt id cycle = shown name width (lastThrough? log cycle) := by
  have logged := (netlist.logged_add name width).updating updates
  rw [List.nil_append] at logged
  refine ⟨fun value cycle => ⟨⟨?_, ?_⟩, fun passed => logged.update_of_passed passed value⟩,
    History.ordered _, logged.condenses.mem_cycles, logged.value_eq, logged.valueAt_eq⟩
  · rintro ⟨next, run⟩
    by_contra passed
    obtain ⟨last, -, refused⟩ := logged.update_of_passed passed value
    cases run.symm.trans refused
  · intro reached
    exact ⟨_, logged.update_of_reached reached value⟩

end Netlist
end GoldenCircuit
