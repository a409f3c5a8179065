import GoldenCircuit.Proofs.Netlist

/-! How netlists grow. Signals are added and gates laid over them, values may be recorded in
between, and each of these steps leaves what stands already in its place and under its name. So a
gate is known by its destination, and keeps describing it whatever is built later. -/
namespace GoldenCircuit

namespace Netlist

/-- Signals that were there before keep their places, names and known widths. -/
structure Extends (small large : Netlist) : Prop where
  size_le : small.size ≤ large.size
  name : ∀ id < small.size, (large.signal id).name = (small.signal id).name
  width : ∀ id < small.size, ∀ width, (small.signal id).width = some width →
    (large.signal id).width = some width

theorem Extends.refl (netlist : Netlist) : netlist.Extends netlist where
  size_le := Nat.le_refl _
  name _ _ := rfl
  width _ _ _ known := known

theorem Extends.trans {small middle large : Netlist} (first : small.Extends middle)
    (second : middle.Extends large) : small.Extends large := by
  have within {id : Nat} (id_lt : id < small.size) : id < middle.size :=
    Nat.lt_of_lt_of_le id_lt first.size_le
  constructor
  · exact Nat.le_trans first.size_le second.size_le
  · intro id id_lt
    exact (second.name id (within id_lt)).trans (first.name id id_lt)
  · intro id id_lt width known
    exact second.width id (within id_lt) width (first.width id id_lt width known)

theorem extends_push (netlist : Netlist) (signal : Signal) :
    netlist.Extends (netlist.push signal) := by
  have kept : ∀ id < netlist.size, (netlist.push signal).signal id = netlist.signal id := by
    intro id within
    rw [signal_push, if_neg (Nat.ne_of_lt within)]
  constructor
  · simp
  · intro id within
    rw [kept id within]
  · intro id within width known
    rw [kept id within, known]

theorem extends_addFresh (netlist : Netlist) : netlist.Extends netlist.addFresh.1 := by
  have grown := netlist.extends_push { name := automaticName netlist.freshNumber }
  exact ⟨grown.size_le, grown.name, grown.width⟩

theorem extends_connect (netlist : Netlist) (opcode : Opcode) (width : Width) {lhs rhs : Nat}
    (lhs_lt : lhs < netlist.size) (rhs_lt : rhs < netlist.size) :
    netlist.Extends (netlist.connect opcode width lhs rhs).1 := by
  have signal := netlist.signal_connect opcode width lhs_lt rhs_lt
  constructor
  · simp
  · intro id within
    rw [signal, if_neg (Nat.ne_of_lt within)]
    split <;> rfl
  · intro id within width known
    rw [signal, if_neg (Nat.ne_of_lt within)]
    split
    next => simp [Signal.inferWidth, known]
    next => exact known

theorem extends_record (netlist : Netlist) {id : Nat} (within : id < netlist.size)
    (value cycle : Nat) : netlist.Extends (netlist.record id value cycle) := by
  have signal := netlist.signal_record within value cycle
  constructor
  · simp
  · intro other _
    rw [signal]
    split
    next same => rw [same, Signal.name_record]
    next => rfl
  · intro other _ width known
    rw [signal]
    split
    next same => rw [Signal.width_record, ← same, known]
    next => exact known

end Netlist

/-- The gate describes the signal at its destination, and joins two signals that were there. -/
structure Gate.Laid (netlist : Netlist) (gate : Gate) : Prop where
  dest_lt : gate.dest < netlist.size
  name : (netlist.signal gate.dest).name = gate.name
  width : (netlist.signal gate.dest).width = some gate.width
  sources : ∃ lhs rhs, gate.sources = [lhs, rhs] ∧ lhs < netlist.size ∧ rhs < netlist.size

theorem Gate.Laid.mono {small large : Netlist} {gate : Gate} (laid : gate.Laid small)
    (grown : small.Extends large) : gate.Laid large := by
  obtain ⟨lhs, rhs, sources, lhs_lt, rhs_lt⟩ := laid.sources
  constructor
  · exact Nat.lt_of_lt_of_le laid.dest_lt grown.size_le
  · rw [grown.name _ laid.dest_lt, laid.name]
  · exact grown.width _ laid.dest_lt _ laid.width
  · exact ⟨lhs, rhs, sources, Nat.lt_of_lt_of_le lhs_lt grown.size_le,
      Nat.lt_of_lt_of_le rhs_lt grown.size_le⟩

namespace Netlist

theorem laid_connect (netlist : Netlist) (opcode : Opcode) (width : Width) {lhs rhs : Nat}
    (lhs_lt : lhs < netlist.size) (rhs_lt : rhs < netlist.size) :
    (netlist.connect opcode width lhs rhs).2.Laid (netlist.connect opcode width lhs rhs).1 := by
  have gate := netlist.gate_connect opcode width lhs_lt rhs_lt
  have signal := netlist.signal_connect opcode width lhs_lt rhs_lt netlist.size
  rw [if_pos rfl] at signal
  have size := netlist.size_connect opcode width lhs rhs
  constructor
  · rw [gate, size]
    exact Nat.lt_succ_self _
  · simp only [gate, signal]
  · simp only [gate, signal]
  · refine ⟨lhs, rhs, by rw [gate], ?_, ?_⟩ <;> omega

/-- A netlist that was built step by step, and the gates that were laid over it, the last one
first. -/
inductive Built : Netlist → List Gate → Prop
  | empty : Built .empty []
  | add {netlist : Netlist} {gates : List Gate} (built : Built netlist gates) (name : String)
      (width : Option Width) : Built (netlist.add name width).1 gates
  | addFresh {netlist : Netlist} {gates : List Gate} (built : Built netlist gates) :
      Built netlist.addFresh.1 gates
  | connect {netlist : Netlist} {gates : List Gate} (built : Built netlist gates)
      (opcode : Opcode) (width : Width) {lhs rhs : Nat} (lhs_lt : lhs < netlist.size)
      (rhs_lt : rhs < netlist.size) :
      Built (netlist.connect opcode width lhs rhs).1
        ((netlist.connect opcode width lhs rhs).2 :: gates)
  | extend {netlist : Netlist} {gates : List Gate} (built : Built netlist gates) {gate : Gate}
      (laid : gate ∈ gates) {id : Nat} (id_lt : id < netlist.size) :
      Built (netlist.extend gate id).1 ((netlist.extend gate id).2 :: gates)
  | record {netlist : Netlist} {gates : List Gate} (built : Built netlist gates) {id : Nat}
      (id_lt : id < netlist.size) (value cycle : Nat) :
      Built (netlist.record id value cycle) gates

namespace Built

variable {netlist : Netlist} {gates : List Gate}

theorem laid_cons (ih : ∀ gate ∈ gates, gate.Laid netlist) (opcode : Opcode) (width : Width)
    {lhs rhs : Nat} (lhs_lt : lhs < netlist.size) (rhs_lt : rhs < netlist.size) :
    ∀ gate ∈ (netlist.connect opcode width lhs rhs).2 :: gates,
      gate.Laid (netlist.connect opcode width lhs rhs).1 := by
  intro gate member
  rcases List.mem_cons.mp member with rfl | old
  · exact netlist.laid_connect opcode width lhs_lt rhs_lt
  · exact (ih gate old).mono (netlist.extends_connect opcode width lhs_lt rhs_lt)

/-- Every gate describes its destination, however much was built after it. -/
theorem laid (built : Built netlist gates) : ∀ gate ∈ gates, gate.Laid netlist := by
  induction built with
  | empty => simp
  | add built name width ih => exact fun gate member => (ih gate member).mono (extends_push _ _)
  | addFresh built ih => exact fun gate member => (ih gate member).mono (extends_addFresh _)
  | connect built opcode width lhs_lt rhs_lt ih => exact laid_cons ih opcode width lhs_lt rhs_lt
  | extend built member id_lt ih => exact laid_cons ih _ _ (ih _ member).dest_lt id_lt
  | record built id_lt value cycle ih =>
    exact fun gate member => (ih gate member).mono (extends_record _ id_lt value cycle)

/-- Every gate has an automatic name. -/
theorem automatic (built : Built netlist gates) :
    ∀ gate ∈ gates, ∃ number, gate.name = automaticName number := by
  have named {netlist : Netlist} (opcode : Opcode) (width : Width) {lhs rhs : Nat}
      (lhs_lt : lhs < netlist.size) (rhs_lt : rhs < netlist.size) :
      ∃ number, (netlist.connect opcode width lhs rhs).2.name = automaticName number :=
    ⟨_, congrArg Gate.name (netlist.gate_connect opcode width lhs_lt rhs_lt)⟩
  induction built with
  | empty => simp
  | add built name width ih => exact ih
  | addFresh built ih => exact ih
  | connect built opcode width lhs_lt rhs_lt ih =>
    exact List.forall_mem_cons.mpr ⟨named opcode width lhs_lt rhs_lt, ih⟩
  | extend built member id_lt ih =>
    exact List.forall_mem_cons.mpr ⟨named _ _ (built.laid _ member).dest_lt id_lt, ih⟩
  | record built id_lt value cycle ih => exact ih

theorem nodup_cons (laid : ∀ gate ∈ gates, gate.Laid netlist) (opcode : Opcode) (width : Width)
    (lhs rhs : Nat) (ih : (gates.map (·.dest)).Nodup) :
    (((netlist.connect opcode width lhs rhs).2 :: gates).map (·.dest)).Nodup := by
  rw [List.map_cons, List.nodup_cons]
  refine ⟨fun member => ?_, ih⟩
  obtain ⟨gate, old, same⟩ := List.mem_map.mp member
  exact Nat.ne_of_lt (laid gate old).dest_lt same

/-- No two gates have one destination. -/
theorem nodup_dest (built : Built netlist gates) : (gates.map (·.dest)).Nodup := by
  induction built with
  | empty => simp
  | add built name width ih => exact ih
  | addFresh built ih => exact ih
  | connect built opcode width lhs_lt rhs_lt ih => exact nodup_cons built.laid opcode width _ _ ih
  | extend built member id_lt ih => exact nodup_cons built.laid _ _ _ _ ih
  | record built id_lt value cycle ih => exact ih

end Built
end Netlist
end GoldenCircuit
