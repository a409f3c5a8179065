import Mathlib.Data.List.Nodup
import GoldenCircuit.Proofs.AndTree.Propagation
import GoldenCircuit.Proofs.Naming
import GoldenCircuit.Proofs.Netlist.Growth
import GoldenCircuit.Proofs.Text.Words

/-! Simulating a circuit by its gates, and by equations between the names of its signals. Where
every equation says of names what its gate says of signals, both give each signal one value. -/
namespace GoldenCircuit

namespace Netlist

/-- Each gate reads what is known when its turn comes: signals that were known at the start, and
destinations of gates before it. -/
def Ordered : (known : List Nat) → List Gate → Prop
  | _, [] => True
  | known, gate :: gates =>
    (∀ id ∈ gate.sources, id ∈ known) ∧ Ordered (gate.dest :: known) gates

instance decidableOrdered : (known : List Nat) → (gates : List Gate) →
    Decidable (Ordered known gates)
  | _, [] => isTrue trivial
  | known, gate :: gates =>
    have := decidableOrdered (gate.dest :: known) gates
    inferInstanceAs (Decidable (_ ∧ _))

/-- Destinations that are known neither at the start nor twice are not known once the first of them
is. -/
theorem fresh_tail {known : List Nat} {gate : Gate} {gates : List Gate}
    (fresh : ∀ later ∈ gate :: gates, later.dest ∉ known)
    (once : ((gate :: gates).map (·.dest)).Nodup) :
    ∀ later ∈ gates, later.dest ∉ gate.dest :: known := by
  intro later member among
  rcases List.mem_cons.mp among with same | old
  · exact (List.nodup_cons.mp once).1 (List.mem_map.mpr ⟨later, member, same⟩)
  · exact fresh later (List.mem_cons_of_mem _ member) old

/-- The netlist is built like another one, and every signal takes a value for the cycle. -/
structure Recordable (start : Netlist) (cycle : Nat) (netlist : Netlist) : Prop where
  size : netlist.size = start.size
  width : ∀ id, (netlist.signal id).width = (start.signal id).width
  upTo : ∀ id, (netlist.signal id).history.UpTo cycle

theorem upTo_of_lt_size {netlist : Netlist} {cycle : Nat}
    (upTo : ∀ id < netlist.size, (netlist.signal id).history.UpTo cycle) (id : Nat) :
    (netlist.signal id).history.UpTo cycle := by
  by_cases within : id < netlist.size
  · exact upTo id within
  · rw [signal_of_size_le (Nat.le_of_not_lt within)]
    intro entry member
    contradiction

namespace Recordable

variable {start netlist : Netlist} {cycle id : Nat}

theorem record (recordable : Recordable start cycle netlist) (within : id < start.size)
    (value : Nat) : Recordable start cycle (netlist.record id value cycle) := by
  have signal := netlist.signal_record (recordable.size ▸ within) value cycle
  constructor
  · rw [size_record, recordable.size]
  · intro other
    rw [signal]
    split
    next same => rw [Signal.width_record, same, recordable.width]
    next => exact recordable.width other
  · intro other
    rw [signal]
    split
    next same => exact (recordable.upTo id).record _
    next => exact recordable.upTo other

/-- A signal takes a value that fits it, and no other signal changes. -/
theorem value_record (recordable : Recordable start cycle netlist) (within : id < start.size)
    {value : Nat} (fits : (start.signal id).fit value = value) (other : Nat) :
    (netlist.record id value cycle).value other =
      if other = id then .ok value else netlist.value other := by
  have same_fit : (netlist.signal id).fit value = value := by
    rw [Signal.fit, recordable.width, ← Signal.fit, fits]
  unfold Netlist.value
  rw [netlist.signal_record (recordable.size ▸ within)]
  split
  next =>
    apply Signal.value_eq_ok_iff.mpr
    rw [Signal.history_record, same_fit, (recordable.upTo id).value?_record]
  next => rfl

/-- Writing values to signals gives these signals their values, however often they are listed. -/
theorem write (recordable : Recordable start cycle netlist) {values : Nat → Nat} {ids : List Nat}
    (within : ∀ id ∈ ids, id < start.size)
    (fits : ∀ id ∈ ids, (start.signal id).fit (values id) = values id) :
    ∃ written, (ids.forM fun id => update id (values id) cycle) netlist = .ok () written ∧
      Recordable start cycle written ∧
      ∀ id, written.value id = if id ∈ ids then .ok (values id) else netlist.value id := by
  induction ids generalizing netlist with
  | nil => exact ⟨netlist, rfl, recordable, fun id => by simp⟩
  | cons first ids ih =>
    have updated := update_of_upTo (values first) (recordable.upTo first)
    have held := recordable.value_record (within first List.mem_cons_self)
      (fits first List.mem_cons_self)
    obtain ⟨written, rest, recordable, values_rest⟩ :=
      ih (recordable.record (within first List.mem_cons_self) (values first))
        (fun id member => within id (List.mem_cons_of_mem _ member))
        (fun id member => fits id (List.mem_cons_of_mem _ member))
    refine ⟨written, (Action.bind_of_ok updated _).trans rest, recordable, fun id => ?_⟩
    rw [values_rest, held]
    by_cases here : id = first <;> simp [here]

end Recordable

variable {start : Netlist}

/-- On these signals the names say what the netlist says, and no value is too wide for its
signal. -/
def Agrees (start netlist : Netlist) (known : Naming String) (ids : List Nat) : Prop :=
  ∀ id ∈ ids, ∃ value, netlist.value id = .ok value ∧
    known.lookup (start.signal id).name = some value ∧
    value < 2 ^ (start.signal id).pinWidth.bits

/-- The equation says of names what the gate says of signals. -/
structure Mirrors (start : Netlist) (gate : Gate) (equation : Equation String) : Prop where
  name : equation.name = gate.name
  value : ∀ netlist known, Agrees start netlist known gate.sources →
    ∃ value, netlist.evaluate gate = .ok value ∧ equation.value? known = some value

theorem Agrees.mono {netlist : Netlist} {known : Naming String} {ids fewer : List Nat}
    (agrees : Agrees start netlist known ids) (among : ∀ id ∈ fewer, id ∈ ids) :
    Agrees start netlist known fewer :=
  fun id member => agrees id (among id member)

section Propagate

variable {cycle : Nat} {define : Gate → Equation String}
  (distinct : ∀ one < start.size, ∀ other < start.size,
    (start.signal one).name = (start.signal other).name → one = other)

include distinct

/-- Settling a gate and solving its equation. -/
theorem Agrees.settle {netlist : Netlist} {known : Naming String} {ids : List Nat}
    (agrees : Agrees start netlist known ids) (ids_lt : ∀ id ∈ ids, id < start.size)
    (recordable : Recordable start cycle netlist) {gate : Gate} (laid : gate.Laid start)
    {equation : Equation String} (mirrors : Mirrors start gate equation)
    (read : ∀ id ∈ gate.sources, id ∈ ids) :
    ∃ value settled, Netlist.settle gate cycle netlist = .ok value settled ∧
      equation.value? known = some value ∧ Recordable start cycle settled ∧
      Agrees start settled ((equation.name, value) :: known) (gate.dest :: ids) ∧
      settled.value gate.dest = .ok value ∧
      ∀ id, id ≠ gate.dest → settled.value id = netlist.value id := by
  obtain ⟨value, evaluated, has⟩ := mirrors.value netlist known (agrees.mono read)
  have narrow : value < 2 ^ gate.width.bits := evaluate_lt evaluated
  have held := recordable.value_record laid.dest_lt (Signal.fit_of_lt laid.width narrow)
  have settled := settle_of_known evaluated (recordable.upTo gate.dest)
  have dest_value : (netlist.record gate.dest value cycle).value gate.dest = .ok value := by
    rw [held, if_pos rfl]
  refine ⟨value, _, settled, has, recordable.record laid.dest_lt value, ?_, dest_value, ?_⟩
  · intro id member
    by_cases here : id = gate.dest
    · subst here
      refine ⟨value, dest_value, ?_, ?_⟩
      · rw [mirrors.name, laid.name, List.lookup_cons_self]
      · simpa [Signal.pinWidth, laid.width] using narrow
    · have old : id ∈ ids := by simpa [here] using member
      obtain ⟨before, looked, named, fits⟩ := agrees id old
      refine ⟨before, ?_, ?_, fits⟩
      · rw [held, if_neg here, looked]
      · rw [mirrors.name, ← laid.name, Naming.lookup_cons_of_ne, named]
        intro same
        exact here (distinct id (ids_lt id old) _ laid.dest_lt same)
  · intro id other
    rw [held, if_neg other]

/-- Settling gates and solving their equations, one after the other. -/
theorem Agrees.propagate {gates : List Gate} {netlist : Netlist} {known : Naming String}
    {ids : List Nat} (agrees : Agrees start netlist known ids)
    (ids_lt : ∀ id ∈ ids, id < start.size) (recordable : Recordable start cycle netlist)
    (laid : ∀ gate ∈ gates, gate.Laid start)
    (mirrors : ∀ gate ∈ gates, Mirrors start gate (define gate)) (ordered : Ordered ids gates)
    (fresh : ∀ gate ∈ gates, gate.dest ∉ ids) (once : (gates.map (·.dest)).Nodup) :
    ∃ values final all, Netlist.propagate gates cycle netlist = .ok values final ∧
      Naming.solve (gates.map define) known = some all ∧
      Agrees start final all (gates.map (·.dest) ++ ids) ∧
      gates.mapM (final.value ·.dest) = .ok values ∧
      ∀ id ∈ ids, final.value id = netlist.value id := by
  induction gates generalizing netlist known ids with
  | nil => exact ⟨[], netlist, known, rfl, rfl, agrees, rfl, fun _ _ => rfl⟩
  | cons gate gates ih =>
    obtain ⟨read, ordered⟩ := ordered
    have later_fresh := fresh_tail fresh once
    obtain ⟨value, settled, ran, has, recordable, agrees, dest_value, others⟩ :=
      agrees.settle distinct ids_lt recordable (laid gate List.mem_cons_self)
        (mirrors gate List.mem_cons_self) read
    have later_lt : ∀ id ∈ gate.dest :: ids, id < start.size := by
      simpa [(laid gate List.mem_cons_self).dest_lt] using ids_lt
    obtain ⟨values, final, all, rest, solved, agree, looked, kept⟩ := ih agrees later_lt recordable
      (fun later member => laid later (List.mem_cons_of_mem _ member))
      (fun later member => mirrors later (List.mem_cons_of_mem _ member)) ordered later_fresh
      once.of_cons
    refine ⟨value :: values, final, all, ?_, ?_, ?_, ?_, ?_⟩
    · rw [Netlist.propagate, List.mapM_cons]
      exact (Action.bind_of_ok ran _).trans (Action.bind_of_ok rest _)
    · rw [List.map_cons, Naming.solve_cons has, solved]
    · apply agree.mono
      intro id member
      simp only [List.map_cons, List.cons_append, List.mem_cons, List.mem_append] at member ⊢
      grind
    · rw [mapM_eq_ok_iff, List.map_cons, kept gate.dest List.mem_cons_self, dest_value,
        mapM_eq_ok_iff.mp looked, List.map_cons]
    · intro id member
      rw [kept id (List.mem_cons_of_mem _ member)]
      apply others
      rintro rfl
      exact fresh gate List.mem_cons_self member

end Propagate

end Netlist

namespace Circuit

/-- Writes a value to each input, by its name, and settles all gates, at one cycle. The answer is
what the gates computed. -/
def simulate (circuit : Circuit) (assignment : String → Nat) (cycle : Nat) :
    Action Netlist (List Nat) := do
  circuit.inputs.toList.forM fun id =>
    Netlist.update id (assignment (circuit.netlist.signal id).name) cycle
  Netlist.propagate circuit.gates.toList cycle

/-- The gates of the circuit were laid over its netlist and are listed once, in an order in which
each can be settled, all signals have words as names and no two of them the same, and whatever is
observed is driven or settled. -/
structure Orderly (circuit : Circuit) : Prop where
  built : ∃ laid, Netlist.Built circuit.netlist laid ∧ ∀ gate ∈ circuit.gates, gate ∈ laid
  words : ∀ name ∈ circuit.netlist.names, Text.IsWord name
  distinct : circuit.netlist.names.Nodup
  once : circuit.gates.toList.Nodup
  driven : ∀ gate ∈ circuit.gates, gate.dest ∉ circuit.inputs
  ordered : Netlist.Ordered circuit.inputs.toList circuit.gates.toList
  observed : ∀ id ∈ circuit.outputs, id ∈ circuit.inputs ∨ ∃ gate ∈ circuit.gates, gate.dest = id

namespace Orderly

variable {circuit : Circuit}

theorem laid (orderly : circuit.Orderly) :
    ∀ gate ∈ circuit.gates.toList, gate.Laid circuit.netlist := by
  obtain ⟨laid, built, among⟩ := orderly.built
  exact fun gate member => built.laid gate (among gate (Array.mem_toList_iff.mp member))

theorem nodup_dest (orderly : circuit.Orderly) : (circuit.gates.toList.map (·.dest)).Nodup := by
  obtain ⟨laid, built, among⟩ := orderly.built
  refine List.Nodup.map_on (fun one one_mem other other_mem same => ?_) orderly.once
  have one_laid := among one (Array.mem_toList_iff.mp one_mem)
  have other_laid := among other (Array.mem_toList_iff.mp other_mem)
  exact List.inj_on_of_nodup_map built.nodup_dest one_laid other_laid same

theorem name_inj (orderly : circuit.Orderly) : ∀ one < circuit.netlist.size,
    ∀ other < circuit.netlist.size,
    (circuit.netlist.signal one).name = (circuit.netlist.signal other).name → one = other := by
  intro one one_lt other other_lt same
  have one_place := circuit.netlist.getElem?_names one_lt
  have other_place := circuit.netlist.getElem?_names other_lt
  refine (List.getElem?_inj (circuit.netlist.length_names ▸ one_lt) orderly.distinct).mp ?_
  rw [one_place, other_place, same]

theorem isWord_name (orderly : circuit.Orderly) {id : Nat} (within : id < circuit.netlist.size) :
    Text.IsWord (circuit.netlist.signal id).name :=
  orderly.words _ (List.mem_of_getElem? (circuit.netlist.getElem?_names within))

/-- No gate settles an input. -/
theorem unlisted (orderly : circuit.Orderly) :
    ∀ gate ∈ circuit.gates.toList, gate.dest ∉ circuit.inputs.toList :=
  fun gate member input =>
    orderly.driven gate (Array.mem_toList_iff.mp member) (Array.mem_toList_iff.mp input)

end Orderly

/-- The circuit is one that texts can describe by names: its gates were laid over its netlist and
are listed once, in an order in which each can be settled, all signals and output pins have words
as names and no two of them the same, and whatever is observed is driven or settled. -/
structure Wired (circuit : Circuit) : Prop where
  built : ∃ laid, Netlist.Built circuit.netlist laid ∧ ∀ gate ∈ circuit.gates, gate ∈ laid
  words : ∀ name ∈ circuit.netlist.names, Text.IsWord name
  distinct : (circuit.netlist.names ++ circuit.outputPins.map (·.name)).Nodup
  once : circuit.gates.toList.Nodup
  driven : ∀ gate ∈ circuit.gates, gate.dest ∉ circuit.inputs
  ordered : Netlist.Ordered circuit.inputs.toList circuit.gates.toList
  observed : ∀ id ∈ circuit.outputs, id ∈ circuit.inputs ∨ ∃ gate ∈ circuit.gates, gate.dest = id

/-- The outputs by the names of their pins. -/
def shows (circuit : Circuit) : List (String × Nat) :=
  circuit.outputs.toList.mapIdx fun index id => (outputName index, id)

theorem mem_shows {circuit : Circuit} {index id : Nat} (found : circuit.outputs[index]? = some id) :
    (outputName index, id) ∈ circuit.shows := by
  have place : circuit.shows[index]? = some (outputName index, id) := by
    rw [shows, List.getElem?_mapIdx, Array.getElem?_toList, found, Option.map_some]
  exact List.mem_of_getElem? place

theorem output_of_mem_shows {circuit : Circuit} {shown : String × Nat}
    (member : shown ∈ circuit.shows) : shown.2 ∈ circuit.outputs := by
  obtain ⟨index, within, rfl⟩ := List.mem_mapIdx.mp member
  exact Array.mem_toList_iff.mp (List.getElem_mem within)

namespace Wired

variable {circuit : Circuit}

/-- Nothing but the names of output pins is asked for beyond what makes a circuit orderly. -/
theorem orderly (wired : circuit.Wired) : circuit.Orderly where
  built := wired.built
  words := wired.words
  distinct := (List.nodup_append.mp wired.distinct).1
  once := wired.once
  driven := wired.driven
  ordered := wired.ordered
  observed := wired.observed

theorem laid (wired : circuit.Wired) : ∀ gate ∈ circuit.gates.toList, gate.Laid circuit.netlist :=
  wired.orderly.laid

theorem nodup_dest (wired : circuit.Wired) : (circuit.gates.toList.map (·.dest)).Nodup :=
  wired.orderly.nodup_dest

theorem name_inj (wired : circuit.Wired) : ∀ one < circuit.netlist.size,
    ∀ other < circuit.netlist.size,
    (circuit.netlist.signal one).name = (circuit.netlist.signal other).name → one = other :=
  wired.orderly.name_inj

theorem input_lt_size {id : Nat} (input : id ∈ circuit.inputs.toList) : id < circuit.netlist.size :=
  circuit.inputs_lt id (Array.mem_toList_iff.mp input)

theorem names_shows (circuit : Circuit) :
    circuit.shows.map (·.1) = circuit.outputPins.map (·.name) := by
  simp only [shows, outputPins, List.mapIdx_eq_zipIdx_map, List.map_map]
  rfl

end Wired
end Circuit
end GoldenCircuit
