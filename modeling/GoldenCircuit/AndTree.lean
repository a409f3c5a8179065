import GoldenCircuit.Specimen
import GoldenCircuit.Text.Blank
import GoldenCircuit.Text.Numeral

/-! The one-sided AND tree: a chain of AND gates in which every stage joins one more input to the
result of the stage before it. The first gate joins the first input with itself, so that a tree of
depth `d` has `d + 1` inputs, `d + 1` gates and one output. -/
namespace GoldenCircuit

/-- The widest gate of a tree, in bits. -/
def AndTree.maxWidth : Nat :=
  65536

/-- The longest chain of a tree, in stages after the first gate. -/
def AndTree.maxDepth : Nat :=
  1048576

/-- The dimensions of a tree. -/
structure AndTree where
  width : Width
  /-- The number of stages after the first gate. -/
  depth : Nat
  width_le : width.bits ≤ AndTree.maxWidth := by decide
  depth_le : depth ≤ AndTree.maxDepth := by decide
deriving DecidableEq

namespace AndTree

def familyName : String :=
  "one_sided_and_tree"

/-- The tree that is built when nothing else is asked for. -/
def standard : AndTree where
  width := ⟨32, by decide⟩
  depth := 128

instance : Inhabited AndTree := ⟨standard⟩

/-- Argument strings that regression runs should exercise. -/
def examples : List String :=
  ["64-4", "64-8", "32-128", "64-128"]

/-- The tree of these dimensions, if they are within bounds. -/
def ofDimensions (width depth : Nat) : Except Fault AndTree :=
  if pos : 0 < width then
    if width_le : width ≤ maxWidth then
      if depth_le : depth ≤ maxDepth then
        .ok { width := ⟨width, pos⟩, depth, width_le, depth_le }
      else
        .error (.badParameter familyName (.exceeds "depth" depth maxDepth))
    else
      .error (.badParameter familyName (.exceeds "width" width maxWidth))
  else
    .error (.badParameter familyName (.notPositive "width"))

/-! ### Construction -/

/-- A chain of gates under construction. -/
structure Chain where
  netlist : Netlist
  inputs : Array Nat
  gates : Array Gate
  /-- The gate that the next stage goes on from. -/
  last : Gate
  inputs_lt : ∀ id ∈ inputs, id < netlist.size
  gates_within : ∀ gate ∈ gates, gate.Within netlist.size
  last_within : last.Within netlist.size

def inputName (index : Nat) : String :=
  "in" ++ toString index

/-- The first gate: the first input, joined with itself. -/
def Chain.start (width : Width) : Chain :=
  let input := Netlist.empty.add (inputName 0)
  let joined := input.1.connect .and width input.2 input.2
  have within : joined.2.Within joined.1.size :=
    Netlist.within_connect _ _ _ (by simp [input, Netlist.add]) (by simp [input, Netlist.add])
  { netlist := joined.1
    inputs := #[input.2]
    gates := #[joined.2]
    last := joined.2
    inputs_lt := by
      simp only [input, joined, Netlist.add, List.mem_toArray, List.mem_singleton, forall_eq,
        Netlist.size_connect, Netlist.size_push]
      omega
    gates_within := by simpa using within
    last_within := within }

/-- One more stage: an input of that name, joined to the result so far. -/
def Chain.lengthen (chain : Chain) (name : String) : Chain :=
  let { netlist, inputs, gates, last, inputs_lt, gates_within, last_within } := chain
  let input := netlist.add name
  let joined := input.1.extend last input.2
  have grown : joined.1.size = netlist.size + 2 := by
    simp [joined, input, Netlist.extend]
  have within : joined.2.Within joined.1.size :=
    Netlist.within_connect _ _ _
      (by have := last_within.1; simp only [input, Netlist.size_add]; omega)
      (by simp [input, Netlist.add])
  { netlist := joined.1
    inputs := inputs.push input.2
    gates := gates.push joined.2
    last := joined.2
    inputs_lt := by
      intro id member
      rw [grown]
      rcases Array.mem_push.mp member with old | new
      · have := inputs_lt id old
        omega
      · rw [new]
        show netlist.size < _
        omega
    gates_within := by
      intro gate member
      rcases Array.mem_push.mp member with old | new
      · exact Gate.Within.mono (gates_within gate old) (by omega)
      · exact new ▸ within
    last_within := within }

/-- The finished chain, observed at its last gate. -/
def Chain.circuit (chain : Chain) : Circuit where
  netlist := chain.netlist
  inputs := chain.inputs
  gates := chain.gates
  outputs := #[chain.last.dest]
  inputs_lt := chain.inputs_lt
  gates_within := chain.gates_within
  outputs_lt := by
    intro id member
    rw [Array.mem_singleton.mp member]
    exact chain.last_within.1

/-- The chain of a width with so many stages after the first gate. -/
def chain (width : Width) (depth : Nat) : Chain :=
  depth.fold (fun stage _ chain => chain.lengthen (inputName (stage + 1))) (.start width)

def circuit (tree : AndTree) : Circuit :=
  (chain tree.width tree.depth).circuit

/-- A tree under test, before its first cycle. -/
def specimen (tree : AndTree) : Specimen where
  name := familyName
  width := tree.width
  circuit := tree.circuit

/-! ### Argument strings -/

/-- The shape of an argument string, as a report shows it. -/
def argsShape : String :=
  "<width>-<depth>"

/-- Reads an argument string: two numerals joined by a hyphen, white space around them. The
numbers need not be dimensions of a tree. -/
def readArgs (args : String) : Except Fault (Nat × Nat) :=
  let text := Text.trim args.toList
  let width := text.takeWhile (· != '-')
  let depth := (text.dropWhile (· != '-')).drop 1
  match Text.word? width, Text.word? depth with
  | some width, some depth => .ok (width, depth)
  | _, _ => .error (.unreadableArgs familyName args argsShape)

def ofArgs (args : String) : Except Fault AndTree := do
  let (width, depth) ← readArgs args
  ofDimensions width depth

end AndTree
end GoldenCircuit
