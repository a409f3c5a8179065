import Mathlib.Data.List.Perm.Basic
import GoldenCircuit.Proofs.Execution
import GoldenCircuit.Proofs.Netlist.Truncation

/-! Settling gates in any order. Every destination is written by one gate only, so that gates which
do not read one another can change places, and all orders in which each gate comes after those that
it reads give the same values and the same netlist. -/
namespace GoldenCircuit.Netlist

/-- No gate reads the destination of a gate that comes after it. -/
def Topological (gates : List Gate) : Prop :=
  gates.Pairwise fun earlier later => later.dest ∉ earlier.sources

instance (gates : List Gate) : Decidable (Topological gates) :=
  inferInstanceAs (Decidable (gates.Pairwise _))

/-- Whatever the gates read, other than from one another, has a value. -/
def Supplied (netlist : Netlist) (gates : List Gate) : Prop :=
  ∀ gate ∈ gates, ∀ id ∈ gate.sources, id ∉ gates.map (·.dest) →
    ∃ value, netlist.value id = .ok value

theorem Built.source_lt_dest {netlist : Netlist} {gates : List Gate} (built : Built netlist gates) :
    ∀ gate ∈ gates, ∀ id ∈ gate.sources, id < gate.dest := by
  have joined {netlist : Netlist} (opcode : Opcode) (width : Width) {lhs rhs : Nat}
      (lhs_lt : lhs < netlist.size) (rhs_lt : rhs < netlist.size) :
      ∀ id ∈ (netlist.connect opcode width lhs rhs).2.sources,
        id < (netlist.connect opcode width lhs rhs).2.dest := by
    rw [sources_connect, dest_connect]
    simp [lhs_lt, rhs_lt]
  induction built with
  | empty => simp
  | add built name width ih => exact ih
  | addFresh built ih => exact ih
  | connect built opcode width lhs_lt rhs_lt ih =>
    exact List.forall_mem_cons.mpr ⟨joined opcode width lhs_lt rhs_lt, ih⟩
  | extend built member id_lt ih =>
    exact List.forall_mem_cons.mpr ⟨joined _ _ (built.laid _ member).dest_lt id_lt, ih⟩
  | record built id_lt value cycle ih => exact ih

/-! ### What a gate computes -/

theorem evaluate_of_supplied {netlist : Netlist} {gate : Gate} {built : Netlist}
    (laid : gate.Laid built)
    (supplied : ∀ id ∈ gate.sources, ∃ value, netlist.value id = .ok value) :
    ∃ value, netlist.evaluate gate = .ok value := by
  obtain ⟨lhs, rhs, sources, _, _⟩ := laid.sources
  obtain ⟨left, lhs_value⟩ := supplied lhs (by simp [sources])
  obtain ⟨right, rhs_value⟩ := supplied rhs (by simp [sources])
  exact ⟨_, evaluate_of_pair sources lhs_value rhs_value⟩

/-! ### Recording a result for every gate -/

theorem record_comm (netlist : Netlist) {one other : Nat} (different : one ≠ other)
    (value value' cycle : Nat) :
    (netlist.record one value cycle).record other value' cycle =
      (netlist.record other value' cycle).record one value cycle := by
  refine ext_of_signals ?_ rfl rfl
  unfold record alter
  apply Array.ext_getElem?
  intro place
  simp only [Array.getElem?_modify]
  by_cases first : one = place
  · have second : other ≠ place := fun same => different (first.trans same.symm)
    simp [first, second]
  · simp [first]

/-- Records a result at the destination of every gate. -/
def recordAll (netlist : Netlist) (gates : List Gate) (result : Gate → Nat) (cycle : Nat) :
    Netlist :=
  gates.foldl (fun netlist gate => netlist.record gate.dest (result gate) cycle) netlist

/-- The results of gates can be recorded in any order. -/
theorem recordAll_perm {netlist : Netlist} {one other : List Gate} (same : one.Perm other)
    (once : (one.map (·.dest)).Nodup) (result : Gate → Nat) (cycle : Nat) :
    netlist.recordAll one result cycle = netlist.recordAll other result cycle := by
  refine same.foldl_eq' (fun gate member gate' member' netlist => ?_) netlist
  by_cases equal : gate = gate'
  · rw [equal]
  · refine record_comm netlist (fun dest => equal ?_) _ _ _
    exact List.inj_on_of_nodup_map once member member' dest

/-- Destinations of gates that can be settled at a cycle, in some order: they are distinct signals
of the netlist, each takes a value for the cycle, and no gate reads its own. -/
structure Settleable (netlist : Netlist) (cycle : Nat) (gates : List Gate) : Prop where
  once : (gates.map (·.dest)).Nodup
  dest_lt : ∀ gate ∈ gates, gate.dest < netlist.size
  upTo : ∀ gate ∈ gates, (netlist.signal gate.dest).history.UpTo cycle
  apart : ∀ gate ∈ gates, gate.dest ∉ gate.sources

namespace Settleable

variable {netlist : Netlist} {cycle : Nat} {gate : Gate} {gates : List Gate}

theorem perm {other : List Gate} (settleable : Settleable netlist cycle gates)
    (same : gates.Perm other) : Settleable netlist cycle other where
  once := (same.map (·.dest)).nodup_iff.mp settleable.once
  dest_lt gate member := settleable.dest_lt gate (same.mem_iff.mpr member)
  upTo gate member := settleable.upTo gate (same.mem_iff.mpr member)
  apart gate member := settleable.apart gate (same.mem_iff.mpr member)

/-- The gates after the first one can be settled once the first one has been. -/
theorem tail (settleable : Settleable netlist cycle (gate :: gates)) (value : Nat) :
    Settleable (netlist.record gate.dest value cycle) cycle gates := by
  obtain ⟨unused, once⟩ := List.nodup_cons.mp settleable.once
  refine ⟨once, fun later member => ?_, fun later member => ?_, fun later member => ?_⟩
  · rw [size_record]
    exact settleable.dest_lt later (List.mem_cons_of_mem _ member)
  · have different : later.dest ≠ gate.dest := fun same =>
      unused (List.mem_map.mpr ⟨later, member, same⟩)
    rw [signal_record_of_ne (settleable.dest_lt gate List.mem_cons_self) different]
    exact settleable.upTo later (List.mem_cons_of_mem _ member)
  · exact settleable.apart later (List.mem_cons_of_mem _ member)

/-- The first gate reads no destination, if no gate reads that of a gate after it. -/
theorem unread (settleable : Settleable netlist cycle (gate :: gates))
    (topological : Topological (gate :: gates)) :
    ∀ id ∈ gate.sources, id ∉ (gate :: gates).map (·.dest) := by
  intro id read member
  rcases List.mem_cons.mp member with rfl | later
  · exact settleable.apart gate List.mem_cons_self read
  · obtain ⟨reader, among, rfl⟩ := List.mem_map.mp later
    exact (List.pairwise_cons.mp topological).1 reader among read

/-- Once the first gate has a value, the gates after it have values for whatever they read. -/
theorem supplied_tail (settleable : Settleable netlist cycle (gate :: gates))
    (supplied : netlist.Supplied (gate :: gates)) (value : Nat) :
    (netlist.record gate.dest value cycle).Supplied gates := by
  have dest_lt := settleable.dest_lt gate List.mem_cons_self
  intro later member id read other
  by_cases here : id = gate.dest
  · subst here
    refine ⟨(netlist.signal gate.dest).fit value, Signal.value_eq_ok_iff.mpr ?_⟩
    rw [signal_record_self dest_lt, Signal.history_record,
      (settleable.upTo gate List.mem_cons_self).value?_record]
  · have old : id ∉ (gate :: gates).map (·.dest) := by
      rw [List.map_cons, List.mem_cons, not_or]
      exact ⟨here, other⟩
    unfold Netlist.value
    rw [signal_record_of_ne dest_lt here]
    exact supplied later (List.mem_cons_of_mem _ member) id read old

/-- Results change nothing but the destinations. -/
theorem value_recordAll (settleable : Settleable netlist cycle gates) {id : Nat}
    (other : id ∉ gates.map (·.dest)) (result : Gate → Nat) :
    (netlist.recordAll gates result cycle).value id = netlist.value id := by
  induction gates generalizing netlist with
  | nil => rfl
  | cons gate gates ih =>
    rw [List.map_cons, List.mem_cons, not_or] at other
    have later := ih (settleable.tail (result gate)) other.2
    have here := signal_record_of_ne (settleable.dest_lt gate List.mem_cons_self) other.1
      (result gate) cycle
    rw [recordAll, List.foldl_cons, ← recordAll, later]
    unfold Netlist.value
    rw [here]

/-- Every destination keeps the result that was recorded for it. -/
theorem value_recordAll_dest (settleable : Settleable netlist cycle gates) (result : Gate → Nat)
    {gate : Gate} (member : gate ∈ gates) :
    (netlist.recordAll gates result cycle).value gate.dest =
      .ok ((netlist.signal gate.dest).fit (result gate)) := by
  induction gates generalizing netlist with
  | nil => contradiction
  | cons first gates ih =>
    have later := settleable.tail (result first)
    have first_lt := settleable.dest_lt first List.mem_cons_self
    obtain ⟨once_here, -⟩ := List.nodup_cons.mp settleable.once
    rw [recordAll, List.foldl_cons, ← recordAll]
    rcases List.mem_cons.mp member with rfl | among
    · rw [later.value_recordAll once_here]
      apply Signal.value_eq_ok_iff.mpr
      rw [signal_record_self first_lt, Signal.history_record,
        (settleable.upTo gate List.mem_cons_self).value?_record]
    · have different : gate.dest ≠ first.dest := fun same =>
        once_here (List.mem_map.mpr ⟨gate, among, same⟩)
      rw [ih later among, signal_record_of_ne first_lt different]

/-- What the first gate reads is not changed by any of the results. -/
theorem evaluate_recordAll (settleable : Settleable netlist cycle (gate :: gates))
    (topological : Topological (gate :: gates)) (result : Gate → Nat) :
    (netlist.recordAll (gate :: gates) result cycle).evaluate gate = netlist.evaluate gate := by
  apply evaluate_congr
  intro id read
  exact settleable.value_recordAll (settleable.unread topological id read) result

end Settleable

/-- Gates that were laid over a netlist can be settled on any netlist of its size. -/
theorem Built.settleable {start netlist : Netlist} {laid gates : List Gate} {cycle : Nat}
    (built : Built start laid) (among : ∀ gate ∈ gates, gate ∈ laid)
    (once : (gates.map (·.dest)).Nodup) (size : netlist.size = start.size)
    (upTo : ∀ gate ∈ gates, (netlist.signal gate.dest).history.UpTo cycle) :
    Settleable netlist cycle gates where
  once := once
  dest_lt gate member := size ▸ (built.laid gate (among gate member)).dest_lt
  upTo := upTo
  apart gate member read :=
    Nat.lt_irrefl _ (built.source_lt_dest gate (among gate member) _ read)

/-! ### Solutions -/

/-- With all results recorded, each gate computes its own. -/
def Solves (netlist : Netlist) (cycle : Nat) (gates : List Gate) (result : Gate → Nat) : Prop :=
  ∀ gate ∈ gates, (netlist.recordAll gates result cycle).evaluate gate = .ok (result gate)

variable {netlist : Netlist} {cycle : Nat} {gates : List Gate} {result : Gate → Nat}

theorem Solves.perm {other : List Gate} (solves : Solves netlist cycle gates result)
    (same : gates.Perm other) (once : (gates.map (·.dest)).Nodup) :
    Solves netlist cycle other result := by
  intro gate member
  rw [← recordAll_perm same once]
  exact solves gate (same.mem_iff.mpr member)

/-- Where there is a solution, settling the gates in order comes to recording it. -/
theorem Solves.propagate_eq (solves : Solves netlist cycle gates result)
    (settleable : Settleable netlist cycle gates) (topological : Topological gates) :
    propagate gates cycle netlist =
      .ok (gates.map result) (netlist.recordAll gates result cycle) := by
  induction gates generalizing netlist with
  | nil => rfl
  | cons gate gates ih =>
    have evaluated : netlist.evaluate gate = .ok (result gate) := by
      rw [← settleable.evaluate_recordAll topological result]
      exact solves gate List.mem_cons_self
    have first := settle_of_known evaluated (settleable.upTo gate List.mem_cons_self)
    have solves_later : Solves (netlist.record gate.dest (result gate) cycle) cycle gates result :=
      fun later member => solves later (List.mem_cons_of_mem _ member)
    have rest := ih solves_later (settleable.tail _) topological.of_cons
    rw [propagate, List.mapM_cons]
    exact (Action.bind_of_ok first _).trans (Action.bind_of_ok rest _)

/-- Gates that come after those that they read, and have values for whatever else they read, have a
solution. -/
theorem exists_solves {built : Netlist} (laid : ∀ gate ∈ gates, gate.Laid built)
    (settleable : Settleable netlist cycle gates) (topological : Topological gates)
    (supplied : netlist.Supplied gates) : ∃ result, Solves netlist cycle gates result := by
  induction gates generalizing netlist with
  | nil => exact ⟨fun _ => 0, by simp [Solves]⟩
  | cons gate gates ih =>
    obtain ⟨laid_here, laid_later⟩ := List.forall_mem_cons.mp laid
    obtain ⟨value, evaluated⟩ := evaluate_of_supplied laid_here fun id read =>
      supplied gate List.mem_cons_self id read (settleable.unread topological id read)
    obtain ⟨result, solves⟩ := ih laid_later (settleable.tail value) topological.of_cons
      (settleable.supplied_tail supplied value)
    -- The first gate takes its own value, and the gates after it keep theirs.
    have absent : gate ∉ gates := fun member =>
      (List.nodup_cons.mp settleable.once).1 (List.mem_map_of_mem member)
    let whole := Function.update result gate value
    have whole_here : whole gate = value := Function.update_self ..
    have whole_later : ∀ later ∈ gates, whole later = result later := by
      intro later member
      exact Function.update_of_ne (ne_of_mem_of_not_mem member absent) ..
    have recorded : netlist.recordAll (gate :: gates) whole cycle =
        (netlist.record gate.dest value cycle).recordAll gates result cycle := by
      rw [recordAll, List.foldl_cons, whole_here]
      exact List.foldl_ext _ _ _ fun netlist later member => by rw [whole_later later member]
    refine ⟨whole, List.forall_mem_cons.mpr ⟨?_, fun later member => ?_⟩⟩
    · rw [settleable.evaluate_recordAll topological, evaluated, whole_here]
    · rw [recorded, whole_later later member]
      exact solves later member

/-- Gates of a netlist, each of which may be listed after all those that it reads in more than one
way. If whatever else they read has a value, and no destination is ahead of the cycle, then settling
them succeeds in every such order, gives each gate the same value, and leaves the same netlist. -/
theorem Built.propagate_perm {netlist : Netlist} {laid : List Gate} (built : Built netlist laid)
    {one other : List Gate} (among : ∀ gate ∈ one, gate ∈ laid) (once : one.Nodup)
    (same : one.Perm other) (one_topological : Topological one)
    (other_topological : Topological other) {cycle : Nat}
    (upTo : ∀ gate ∈ one, (netlist.signal gate.dest).history.UpTo cycle)
    (supplied : netlist.Supplied one) :
    ∃ (result : Gate → Nat) (final : Netlist),
      propagate one cycle netlist = .ok (one.map result) final ∧
      propagate other cycle netlist = .ok (other.map result) final := by
  have settleable : Settleable netlist cycle one := by
    refine ⟨List.Nodup.map_on ?_ once, fun gate member => ?_, upTo, fun gate member read => ?_⟩
    · intro gate member gate' member' dest
      exact List.inj_on_of_nodup_map built.nodup_dest (among gate member) (among gate' member') dest
    · exact (built.laid gate (among gate member)).dest_lt
    · exact Nat.lt_irrefl _ (built.source_lt_dest gate (among gate member) _ read)
  obtain ⟨result, solves⟩ := exists_solves (fun gate member => built.laid gate (among gate member))
    settleable one_topological supplied
  refine ⟨result, netlist.recordAll one result cycle,
    solves.propagate_eq settleable one_topological, ?_⟩
  rw [recordAll_perm same settleable.once]
  exact (solves.perm same settleable.once).propagate_eq (settleable.perm same) other_topological

/-- Two inputs of one name, one of which holds a value, two gates that read them both or one of
them twice, and a gate that joins these two. The first gate has a value from an earlier cycle. -/
def diamond : Netlist × List Gate :=
  let inputs := ((empty.add "a" (some ⟨9, by decide⟩)).1.record 0 0xa5 0).add "a"
  let left := inputs.1.connect .and ⟨5, by decide⟩ 0 0
  let right := (left.1.record 2 3 1).connect .xor ⟨9, by decide⟩ 0 0
  let joined := right.1.extend left.2 3
  (joined.1, [joined.2, right.2, left.2])

theorem built_diamond : Built diamond.1 diamond.2 := by
  refine .extend (.connect (.record (.connect (.add (.record (.add .empty _ _) ?_ _ _) _ _)
    _ _ ?_ ?_) ?_ _ _) _ _ ?_ ?_) (.tail _ List.mem_cons_self) ?_
  all_goals decide

theorem propagate_perm_of_diamond :
    let joined := diamond.2[0]
    let right := diamond.2[1]
    let left := diamond.2[2]
    ∃ (result : Gate → Nat) (final : Netlist),
      propagate [left, right, joined] 2 diamond.1 =
        .ok ([left, right, joined].map result) final ∧
      propagate [right, left, joined] 2 diamond.1 =
        .ok ([right, left, joined].map result) final := by
  intro joined right left
  have supplied : diamond.1.Supplied [left, right, joined] := by
    have first : ∀ gate ∈ [left, right, joined], ∀ id ∈ gate.sources,
        id ∉ [left, right, joined].map (·.dest) → id = 0 := by
      decide
    intro gate member id read other
    cases first gate member id read other
    exact ⟨0xa5, by rfl⟩
  exact built_diamond.propagate_perm (by decide) (by decide) (by decide) (by decide) (by decide)
    (by decide) supplied

end GoldenCircuit.Netlist
