import Mathlib.Data.List.Find
import GoldenCircuit.Proofs.Netlist.Confluence

/-! Settling all gates of a netlist in the order of their construction. A gate reads signals that
were there before its destination, so each gate comes after those that it reads, and nothing can be
missing but the value of a signal that is no destination. -/
namespace GoldenCircuit.Netlist

/-- No value of the signal was recorded. -/
def Unknown (netlist : Netlist) (id : Nat) : Prop :=
  (netlist.signal id).history.value? = none

instance (netlist : Netlist) (id : Nat) : Decidable (netlist.Unknown id) :=
  inferInstanceAs (Decidable (_ = _))

/-- The signal has no value, and none of the gates computes one for it. -/
def Lacks (netlist : Netlist) (gates : List Gate) (id : Nat) : Prop :=
  id ∉ gates.map (·.dest) ∧ netlist.Unknown id

instance (netlist : Netlist) (gates : List Gate) (id : Nat) : Decidable (netlist.Lacks gates id) :=
  inferInstanceAs (Decidable (_ ∧ _))

/-- The first source that lacks a value, in the order of the gates and of their operands. -/
def firstLacking? (netlist : Netlist) (gates : List Gate) : Option Nat :=
  (gates.flatMap (·.sources)).find? (netlist.Lacks gates ·)

theorem exists_value_iff {netlist : Netlist} {id : Nat} :
    (∃ value, netlist.value id = .ok value) ↔ ¬ netlist.Unknown id := by
  simp only [Netlist.value, Signal.value_eq_ok_iff, Unknown, ← ne_eq, Option.ne_none_iff_exists']

theorem supplied_iff {netlist : Netlist} {gates : List Gate} :
    netlist.Supplied gates ↔ netlist.firstLacking? gates = none := by
  rw [firstLacking?, List.find?_eq_none]
  constructor
  · intro supplied id listed lacks
    obtain ⟨gate, member, read⟩ := List.mem_flatMap.mp listed
    obtain ⟨other, unknown⟩ := of_decide_eq_true lacks
    exact exists_value_iff.mp (supplied gate member id read other) unknown
  · intro none gate member id read other
    refine exists_value_iff.mpr fun unknown => ?_
    exact none id (List.mem_flatMap.mpr ⟨gate, member, read⟩) (decide_eq_true ⟨other, unknown⟩)

theorem supplied_reverse {netlist : Netlist} {gates : List Gate} :
    netlist.Supplied gates.reverse ↔ netlist.Supplied gates := by
  simp only [Supplied, List.map_reverse, List.mem_reverse]

/-! ### A gate that lacks a value -/

theorem value_of_unknown {netlist : Netlist} {id : Nat} (unknown : netlist.Unknown id) :
    netlist.value id = .error (.uninitialized (netlist.signal id).name) :=
  Signal.value_eq_error_iff.mpr ⟨History.value?_eq_none_iff.mp unknown, rfl⟩

/-- A gate reads its operands in order, so the first one without a value is reported. -/
theorem evaluate_of_lacking {netlist built : Netlist} {gate : Gate} (laid : gate.Laid built)
    {id : Nat} (lacking : gate.sources.find? (netlist.Unknown ·) = some id) :
    netlist.evaluate gate = .error (.uninitialized (netlist.signal id).name) := by
  obtain ⟨lhs, rhs, sources, -, -⟩ := laid.sources
  rw [sources, List.find?_cons] at lacking
  unfold evaluate
  rw [sources]
  split at lacking
  next unknown =>
    cases lacking
    simp only [value_of_unknown (of_decide_eq_true unknown)]
    rfl
  next known =>
    obtain ⟨left, known⟩ := exists_value_iff.mpr (of_decide_eq_false known)
    have unknown : netlist.Unknown id := by simpa using List.find?_some lacking
    have second : id = rhs := List.mem_singleton.mp (List.mem_of_find?_eq_some lacking)
    subst second
    simp only [known, List.foldlM_cons, value_of_unknown unknown]
    rfl

theorem settle_of_error {netlist : Netlist} {gate : Gate} {fault : Fault}
    (failed : netlist.evaluate gate = .error fault) (cycle : Nat) :
    settle gate cycle netlist = .error fault netlist := by
  have looked : Action.read (·.evaluate gate) netlist = .error fault netlist := by
    simp only [Action.read, failed]
  exact Action.bind_of_error looked _

theorem propagate_cons_of_ok {gate : Gate} {gates : List Gate} {cycle value : Nat}
    {netlist left : Netlist} (first : settle gate cycle netlist = .ok value left) :
    propagate (gate :: gates) cycle netlist =
      (return value :: (← propagate gates cycle) : Action Netlist (List Nat)) left := by
  rw [propagate, List.mapM_cons]
  exact Action.bind_of_ok first _

/-! ### The first gate that lacks a value -/

variable {netlist : Netlist} {cycle : Nat} {gate : Gate} {gates : List Gate}

/-- Once the first gate has its value, the gates after it lack what they lacked before. -/
theorem Settleable.lacks_record (settleable : Settleable netlist cycle (gate :: gates))
    (value id : Nat) :
    (netlist.record gate.dest value cycle).Lacks gates id ↔ netlist.Lacks (gate :: gates) id := by
  have dest_lt := settleable.dest_lt gate List.mem_cons_self
  by_cases here : id = gate.dest
  · subst here
    have known : ¬ (netlist.record gate.dest value cycle).Unknown gate.dest := by
      rw [Unknown, signal_record_self dest_lt, Signal.history_record,
        (settleable.upTo gate List.mem_cons_self).value?_record]
      exact Option.some_ne_none _
    exact iff_of_false (fun lacks => known lacks.2) fun lacks => lacks.1 List.mem_cons_self
  · simp only [Lacks, Unknown, signal_record_of_ne dest_lt here, List.map_cons, List.mem_cons, here,
      false_or]

theorem Settleable.firstLacking?_cons (settleable : Settleable netlist cycle (gate :: gates))
    (topological : Topological (gate :: gates)) (value : Nat) :
    netlist.firstLacking? (gate :: gates) =
      (gate.sources.find? (netlist.Unknown ·)).or
        ((netlist.record gate.dest value cycle).firstLacking? gates) := by
  have here : gate.sources.find? (netlist.Lacks (gate :: gates) ·) =
      gate.sources.find? (netlist.Unknown ·) := by
    apply List.find?_congr
    intro id read
    exact decide_eq_decide.mpr (and_iff_right (settleable.unread topological id read))
  have later : (fun id => decide (netlist.Lacks (gate :: gates) id)) =
      fun id => decide ((netlist.record gate.dest value cycle).Lacks gates id) :=
    funext fun id => decide_eq_decide.mpr (settleable.lacks_record value id).symm
  unfold firstLacking?
  rw [List.flatMap_cons, List.find?_append, here, later]

/-- Settling stops at the gate that reads the first lacking signal, with everything before it
settled. -/
theorem propagate_of_lacking {built : Netlist} (laid : ∀ gate ∈ gates, gate.Laid built)
    (settleable : Settleable netlist cycle gates) (topological : Topological gates) {id : Nat}
    (lacking : netlist.firstLacking? gates = some id) :
    ∃ done gate rest values left, gates = done ++ gate :: rest ∧ id ∈ gate.sources ∧
      propagate done cycle netlist = .ok values left ∧
      propagate gates cycle netlist = .error (.uninitialized (netlist.signal id).name) left := by
  induction gates generalizing netlist with
  | nil => contradiction
  | cons gate gates ih =>
    obtain ⟨laid_here, laid_later⟩ := List.forall_mem_cons.mp laid
    cases first : gate.sources.find? (netlist.Unknown ·) with
    | some source =>
      rw [settleable.firstLacking?_cons topological 0, first] at lacking
      cases lacking
      refine ⟨[], gate, gates, [], netlist, rfl, List.mem_of_find?_eq_some first, rfl, ?_⟩
      rw [propagate, List.mapM_cons]
      exact Action.bind_of_error (settle_of_error (evaluate_of_lacking laid_here first) cycle) _
    | none =>
      obtain ⟨value, evaluated⟩ := evaluate_of_supplied laid_here fun source read =>
        exists_value_iff.mpr fun unknown =>
          List.find?_eq_none.mp first source read (decide_eq_true unknown)
      have settled := settle_of_known evaluated (settleable.upTo gate List.mem_cons_self)
      rw [settleable.firstLacking?_cons topological value, first, Option.none_or] at lacking
      obtain ⟨done, stopped, rest, values, left, split, read, before, whole⟩ :=
        ih laid_later (settleable.tail value) topological.of_cons lacking
      have name : ((netlist.record gate.dest value cycle).signal id).name =
          (netlist.signal id).name := by
        rw [signal_record _ (settleable.dest_lt gate List.mem_cons_self)]
        split
        next same => rw [same, Signal.name_record]
        next => rfl
      refine ⟨gate :: done, stopped, rest, value :: values, left, by rw [split, List.cons_append],
        read, ?_, ?_⟩
      · rw [propagate_cons_of_ok settled]
        exact Action.bind_of_ok before _
      · rw [propagate_cons_of_ok settled, ← name]
        exact Action.bind_of_error whole _

/-! ### All gates that were laid -/

namespace Built

/-- A gate that was laid later has its destination further on. -/
theorem dest_lt_dest (built : Built netlist gates) :
    gates.Pairwise fun later earlier => earlier.dest < later.dest := by
  have newest {netlist : Netlist} {gates : List Gate} (built : Built netlist gates)
      (opcode : Opcode) (width : Width) (lhs rhs : Nat) :
      ∀ earlier ∈ gates, earlier.dest < (netlist.connect opcode width lhs rhs).2.dest :=
    fun earlier member => (built.laid earlier member).dest_lt
  induction built with
  | empty => exact List.Pairwise.nil
  | add built name width ih => exact ih
  | addFresh built ih => exact ih
  | connect built opcode width lhs_lt rhs_lt ih => exact ih.cons (newest built opcode width _ _)
  | extend built member id_lt ih => exact ih.cons (newest built _ _ _ _)
  | record built id_lt value cycle ih => exact ih

theorem topological (built : Built netlist gates) : Topological gates.reverse := by
  rw [Topological, List.pairwise_reverse]
  refine built.dest_lt_dest.imp_of_mem fun {later earlier} _ member before read => ?_
  have := built.source_lt_dest earlier member _ read
  omega

/-- However a netlist was built, its gates read signals before their destinations, have destinations
of their own, and describe them. So settling all of them in the order of their construction, at a
cycle that no destination is ahead of, succeeds exactly if whatever they read other than from one
another has a value. Otherwise it reports the first signal that lacks one, when the gates before the
one that reads it are settled. -/
theorem propagate_outcome (built : Built netlist gates) :
    (∀ gate ∈ gates, (∀ id ∈ gate.sources, id < gate.dest) ∧ gate.dest < netlist.size ∧
      (netlist.signal gate.dest).name = gate.name ∧
      (netlist.signal gate.dest).width = some gate.width) ∧
    (gates.map (·.dest)).Nodup ∧
    ∀ cycle, (∀ gate ∈ gates, (netlist.signal gate.dest).history.UpTo cycle) →
      ((∃ values final, propagate gates.reverse cycle netlist = .ok values final) ↔
        netlist.Supplied gates) ∧
      (¬ netlist.Supplied gates → ∃ id done gate rest values left,
        netlist.firstLacking? gates.reverse = some id ∧
        gates.reverse = done ++ gate :: rest ∧ id ∈ gate.sources ∧
        propagate done cycle netlist = .ok values left ∧
        propagate gates.reverse cycle netlist =
          .error (.uninitialized (netlist.signal id).name) left) := by
  have described : ∀ gate ∈ gates, (∀ id ∈ gate.sources, id < gate.dest) ∧
      gate.dest < netlist.size ∧ (netlist.signal gate.dest).name = gate.name ∧
      (netlist.signal gate.dest).width = some gate.width := by
    intro gate member
    have laid := built.laid gate member
    exact ⟨built.source_lt_dest gate member, laid.dest_lt, laid.name, laid.width⟩
  refine ⟨described, built.nodup_dest, fun cycle upTo => ?_⟩
  have settleable := (built.settleable (fun _ member => member) built.nodup_dest rfl upTo).perm
    gates.reverse_perm.symm
  have laid : ∀ gate ∈ gates.reverse, gate.Laid netlist := fun gate member =>
    built.laid gate (List.mem_reverse.mp member)
  have stops : ¬ netlist.Supplied gates → ∃ id done gate rest values left,
      netlist.firstLacking? gates.reverse = some id ∧
      gates.reverse = done ++ gate :: rest ∧ id ∈ gate.sources ∧
      propagate done cycle netlist = .ok values left ∧
      propagate gates.reverse cycle netlist =
        .error (.uninitialized (netlist.signal id).name) left := by
    intro unsupplied
    rw [← supplied_reverse, supplied_iff, ← ne_eq, Option.ne_none_iff_exists'] at unsupplied
    obtain ⟨id, lacking⟩ := unsupplied
    obtain ⟨done, gate, rest, values, left, stopped⟩ :=
      propagate_of_lacking laid settleable built.topological lacking
    exact ⟨id, done, gate, rest, values, left, lacking, stopped⟩
  refine ⟨⟨?_, ?_⟩, stops⟩
  · rintro ⟨values, final, settled⟩
    by_contra unsupplied
    obtain ⟨_, _, _, _, _, _, _, _, _, _, failed⟩ := stops unsupplied
    rw [settled] at failed
    contradiction
  · intro supplied
    obtain ⟨result, solves⟩ := exists_solves laid settleable built.topological
      (supplied_reverse.mpr supplied)
    exact ⟨_, _, solves.propagate_eq settleable built.topological⟩

end Built

/-- An input that holds a value and one that does not. The first gate reads the first input only,
the others read both. -/
def starved : Netlist × List Gate :=
  let inputs := ((empty.add "a" (some ⟨14, by decide⟩)).1.record 0 6 4).add "b"
  let fed := inputs.1.connect .or ⟨13, by decide⟩ 0 0
  let waiting := fed.1.extend fed.2 1
  let last := (waiting.1.add "T2").1.connect .xor ⟨14, by decide⟩ 1 0
  (last.1, [last.2, waiting.2, fed.2])

theorem built_starved : Built starved.1 starved.2 := by
  refine .connect (.add (.extend (.connect (.add (.record (.add .empty _ _) ?_ _ _) _ _)
    _ _ ?_ ?_) List.mem_cons_self ?_) _ _) _ _ ?_ ?_
  all_goals decide

theorem propagate_outcome_of_starved : ¬ starved.1.Supplied starved.2 ∧
    ∃ left, propagate starved.2.reverse 7 starved.1 = .error (.uninitialized "b") left := by
  have lacking : starved.1.firstLacking? starved.2.reverse = some 1 := by decide
  have unsupplied : ¬ starved.1.Supplied starved.2 := by
    rw [← supplied_reverse, supplied_iff, lacking]
    exact Option.some_ne_none 1
  obtain ⟨-, -, settling⟩ := built_starved.propagate_outcome
  obtain ⟨-, stops⟩ := settling 7 (by decide)
  obtain ⟨id, _, _, _, _, left, found, _, _, _, failed⟩ := stops unsupplied
  cases Option.some.inj (lacking.symm.trans found)
  exact ⟨unsupplied, left, failed⟩

end GoldenCircuit.Netlist
