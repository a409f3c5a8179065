import GoldenCircuit.Proofs.Netlist.Confluence

/-! What simulating a circuit comes to. The inputs hold what was written to them, and every gate's
destination holds what the gate computes from the values that its sources hold in the end. -/
namespace GoldenCircuit

namespace Netlist

/-- Gates that come after those that they read do not read destinations of later gates. -/
theorem Ordered.topological {known : List Nat} {gates : List Gate} (ordered : Ordered known gates)
    (fresh : ∀ gate ∈ gates, gate.dest ∉ known) (once : (gates.map (·.dest)).Nodup) :
    Topological gates := by
  induction gates generalizing known with
  | nil => exact List.Pairwise.nil
  | cons gate gates ih =>
    obtain ⟨read, ordered⟩ := ordered
    refine List.Pairwise.cons (fun later member reads => ?_)
      (ih ordered (fresh_tail fresh once) once.of_cons)
    exact fresh later (List.mem_cons_of_mem _ member) (read _ reads)

theorem Ordered.known_or_dest {known : List Nat} {gates : List Gate} (ordered : Ordered known gates) :
    ∀ gate ∈ gates, ∀ id ∈ gate.sources, id ∈ known ∨ id ∈ gates.map (·.dest) := by
  induction gates generalizing known with
  | nil => simp
  | cons gate gates ih =>
    obtain ⟨read, ordered⟩ := ordered
    intro reader member id reads
    rcases List.mem_cons.mp member with rfl | later
    · exact .inl (read id reads)
    · rcases ih ordered reader later id reads with among | dest
      · rcases List.mem_cons.mp among with rfl | old
        · exact .inr List.mem_cons_self
        · exact .inl old
      · exact .inr (List.mem_cons_of_mem _ dest)

end Netlist

namespace Circuit

/-- The inputs hold what is assigned to their names, and every gate has settled. -/
structure Stable (circuit : Circuit) (assignment : String → Nat) (netlist : Netlist) : Prop where
  input : ∀ id ∈ circuit.inputs.toList,
    netlist.value id = .ok (assignment (circuit.netlist.signal id).name)
  gate : ∀ gate ∈ circuit.gates.toList, ∃ value,
    netlist.evaluate gate = .ok value ∧ netlist.value gate.dest = .ok value

/-- What inputs and gates hold fits their signals. -/
theorem Stable.lt_pinWidth {circuit : Circuit} {assignment : String → Nat} {netlist : Netlist}
    (stable : circuit.Stable assignment netlist) (orderly : circuit.Orderly)
    (fits : ∀ id ∈ circuit.inputs.toList, assignment (circuit.netlist.signal id).name <
      2 ^ (circuit.netlist.signal id).pinWidth.bits) {id value : Nat}
    (known : id ∈ circuit.inputs.toList ∨ id ∈ circuit.gates.toList.map (·.dest))
    (held : netlist.value id = .ok value) :
    value < 2 ^ (circuit.netlist.signal id).pinWidth.bits := by
  rcases known with input | dest
  · have same := Except.ok.inj ((stable.input id input).symm.trans held)
    exact same ▸ fits id input
  · obtain ⟨gate, member, rfl⟩ := List.mem_map.mp dest
    obtain ⟨result, computed, settled⟩ := stable.gate gate member
    have same := Except.ok.inj (settled.symm.trans held)
    have narrow := Netlist.evaluate_lt computed
    simpa [Signal.pinWidth, (orderly.laid gate member).width, same] using narrow

theorem Orderly.simulate_stable {circuit : Circuit} (orderly : circuit.Orderly)
    {assignment : String → Nat}
    (fits : ∀ pin ∈ circuit.inputPins, assignment pin.name < 2 ^ pin.width.bits) {cycle : Nat}
    (upTo : ∀ id < circuit.netlist.size, (circuit.netlist.signal id).history.UpTo cycle) :
    ∃ values final, circuit.simulate assignment cycle circuit.netlist = .ok values final ∧
      circuit.Stable assignment final := by
  have start : Netlist.Recordable circuit.netlist cycle circuit.netlist :=
    ⟨rfl, fun _ => rfl, Netlist.upTo_of_lt_size upTo⟩
  obtain ⟨written, wrote, recordable, held⟩ := start.write (fun id => Wired.input_lt_size)
    (fun id member => Signal.fit_of_lt_pinWidth (fits _ (List.mem_map_of_mem member)))
  have topological := orderly.ordered.topological orderly.unlisted orderly.nodup_dest
  obtain ⟨laid, built, among⟩ := orderly.built
  have settleable : written.Settleable cycle circuit.gates.toList :=
    built.settleable (fun gate member => among gate (Array.mem_toList_iff.mp member))
      orderly.nodup_dest recordable.size (fun gate _ => recordable.upTo gate.dest)
  have supplied : written.Supplied circuit.gates.toList := by
    intro gate member id read other
    have input := (orderly.ordered.known_or_dest gate member id read).resolve_right other
    exact ⟨_, by rw [held, if_pos input]⟩
  obtain ⟨result, solves⟩ :=
    Netlist.exists_solves orderly.laid settleable topological supplied
  refine ⟨_, _, (Action.bind_of_ok wrote _).trans (solves.propagate_eq settleable topological), ?_⟩
  constructor
  case input =>
    intro id member
    have other : id ∉ circuit.gates.toList.map (·.dest) := by
      intro dest
      obtain ⟨gate, among, rfl⟩ := List.mem_map.mp dest
      exact orderly.unlisted gate among member
    rw [settleable.value_recordAll other, held, if_pos member]
  case gate =>
    intro gate member
    have computed := solves gate member
    have narrow := Netlist.evaluate_lt computed
    have width : (written.signal gate.dest).width = some gate.width := by
      rw [recordable.width, (orderly.laid gate member).width]
    refine ⟨result gate, computed, ?_⟩
    rw [settleable.value_recordAll_dest result member, Signal.fit_of_lt width narrow]

end Circuit
end GoldenCircuit
