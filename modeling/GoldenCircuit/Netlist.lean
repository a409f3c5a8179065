import GoldenCircuit.Action
import GoldenCircuit.Opcode
import GoldenCircuit.Signal
import Std.Data.TreeMap

/-! A netlist: the signals of a circuit in the order of their creation, an index of their names,
and the gates that can be laid over them. Signals are added and updated, never removed, so that a
signal keeps its place and its name, and a place is what gates and circuits refer to it by. -/
namespace GoldenCircuit

/-- A computation of fixed width that reduces its sources, in order, to one signal. A source may
be listed more than once. -/
structure Gate where
  /-- The name of the destination. -/
  name : String
  /-- The place of the signal that takes the result. -/
  dest : Nat
  width : Width
  opcode : Opcode
  /-- The places of the operands. -/
  sources : List Nat
deriving DecidableEq

/-- The signals of a circuit. Names may be repeated; the index knows the first signal of each
name. -/
structure Netlist where
  signals : Array Signal
  /-- The first signal of each name. -/
  index : Std.TreeMap String Nat
  /-- The number that the next automatic name tries first. -/
  serial : Nat
  index_eq : ∀ name, index[name]? = (signals.toList.map (·.name)).findIdx? (· == name)

namespace Netlist

/-- No signals. -/
def empty : Netlist where
  signals := #[]
  index := ∅
  serial := 0
  index_eq _ := by simp

def size (netlist : Netlist) : Nat :=
  netlist.signals.size

/-- The names of the signals, in order. -/
def names (netlist : Netlist) : List String :=
  netlist.signals.toList.map (·.name)

/-- The signal at a place. Where there is none stands a nameless signal without a value. -/
def signal (netlist : Netlist) (id : Nat) : Signal :=
  netlist.signals[id]?.getD default

/-- The first signal of a name. -/
def find? (netlist : Netlist) (name : String) : Option Nat :=
  netlist.index[name]?

theorem find?_eq (netlist : Netlist) (name : String) :
    netlist.find? name = netlist.names.findIdx? (· == name) :=
  netlist.index_eq name

/-- Adds a signal at the place that is `size` before. The index keeps an earlier signal of the
same name. -/
def push (netlist : Netlist) (signal : Signal) : Netlist :=
  let index := netlist.index.insertIfNew signal.name netlist.signals.size
  { signals := netlist.signals.push signal
    index
    serial := netlist.serial
    index_eq := fun name => by
      have known : signal.name ∈ netlist.index ↔
          ((netlist.signals.toList.map (·.name)).findIdx? (· == signal.name)).isSome := by
        rw [← netlist.index_eq]
        exact Std.TreeMap.isSome_getElem?_iff_mem.symm
      simp only [index, Std.TreeMap.getElem?_insertIfNew, known, netlist.index_eq name,
        Std.LawfulEqCmp.compare_eq_iff_eq, Array.toList_push, List.map_append,
        List.map_cons, List.map_nil, List.findIdx?_append, List.length_map, Array.length_toList]
      by_cases same : signal.name = name
      · subst same
        cases (netlist.signals.toList.map (·.name)).findIdx? (· == signal.name) <;> simp
      · cases (netlist.signals.toList.map (·.name)).findIdx? (· == name) <;> simp [same] }

theorem names_modify (signals : Array Signal) (id : Nat) {change : Signal → Signal}
    (keeps : ∀ signal, (change signal).name = signal.name) :
    (signals.modify id change).toList.map (·.name) = signals.toList.map (·.name) := by
  apply List.ext_getElem?
  intro place
  simp only [List.getElem?_map, Array.getElem?_toList, Array.getElem?_modify]
  split
  · cases signals[place]? <;> simp [keeps]
  · rfl

/-- Changes the state of the signal at a place, under the same name. -/
def alter (netlist : Netlist) (id : Nat) (change : Signal → Signal)
    (keeps : ∀ signal, (change signal).name = signal.name) : Netlist :=
  let { signals, index, serial, index_eq } := netlist
  { signals := signals.modify id change
    index
    serial
    index_eq := fun name => by rw [index_eq name, names_modify signals id keeps] }

@[simp]
theorem size_push (netlist : Netlist) (signal : Signal) :
    (netlist.push signal).size = netlist.size + 1 :=
  Array.size_push _

@[simp]
theorem size_alter (netlist : Netlist) (id : Nat) (change : Signal → Signal)
    (keeps : ∀ signal, (change signal).name = signal.name) :
    (netlist.alter id change keeps).size = netlist.size :=
  Array.size_modify

/-! ### Growing a netlist -/

/-- Adds a signal, of known width or not; the answer's second part is its place. -/
def add (netlist : Netlist) (name : String) (width : Option Width := none) :
    Netlist × Nat :=
  let id := netlist.size
  (netlist.push { name, width }, id)

def automaticName (number : Nat) : String :=
  "T" ++ toString number

/-- The first number, from `number` on, whose automatic name is not taken. At most `fuel` names
are tried. -/
def firstFree (taken : String → Bool) : (fuel number : Nat) → Nat
  | 0, number => number
  | fuel + 1, number =>
    if taken (automaticName number) then firstFree taken fuel (number + 1) else number

/-- The number of the next automatic name. A netlist of so many signals cannot take more than so
many names, so the number after as many tries is free. -/
def freshNumber (netlist : Netlist) : Nat :=
  firstFree netlist.index.contains netlist.size netlist.serial

/-- Adds a signal under an automatic name. Numbers that were tried are not tried again. -/
def addFresh (netlist : Netlist) : Netlist × Nat :=
  let id := netlist.size
  let number := netlist.freshNumber
  let grown := netlist.push { name := automaticName number }
  ({ grown with serial := number + 1 }, id)

/-- Gives a signal of unknown width the width of a gate at it. -/
def inferWidth (netlist : Netlist) (id : Nat) (width : Width) : Netlist :=
  netlist.alter id (·.inferWidth width) fun _ => rfl

/-- Lays a gate over two signals. Its destination is a fresh signal, and of the three signals
those of unknown width take the width of the gate. -/
def connect (netlist : Netlist) (opcode : Opcode) (width : Width) (lhs rhs : Nat) :
    Netlist × Gate :=
  let (grown, dest) := netlist.addFresh
  let settled := ((grown.inferWidth lhs width).inferWidth rhs width).inferWidth dest width
  (settled, { name := (settled.signal dest).name, dest, width, opcode, sources := [lhs, rhs] })

/-- Chains a signal to a gate: one more gate of the same kind and width, from the gate's
destination and the signal. -/
def extend (netlist : Netlist) (gate : Gate) (id : Nat) : Netlist × Gate :=
  netlist.connect gate.opcode gate.width gate.dest id

@[simp]
theorem size_add (netlist : Netlist) (name : String) (width : Option Width) :
    (netlist.add name width).1.size = netlist.size + 1 :=
  size_push ..

@[simp]
theorem size_addFresh (netlist : Netlist) : netlist.addFresh.1.size = netlist.size + 1 :=
  size_push ..

@[simp]
theorem size_inferWidth (netlist : Netlist) (id : Nat) (width : Width) :
    (netlist.inferWidth id width).size = netlist.size :=
  size_alter ..

@[simp]
theorem size_connect (netlist : Netlist) (opcode : Opcode) (width : Width) (lhs rhs : Nat) :
    (netlist.connect opcode width lhs rhs).1.size = netlist.size + 1 := by
  simp [connect]

@[simp]
theorem dest_connect (netlist : Netlist) (opcode : Opcode) (width : Width) (lhs rhs : Nat) :
    (netlist.connect opcode width lhs rhs).2.dest = netlist.size :=
  rfl

@[simp]
theorem sources_connect (netlist : Netlist) (opcode : Opcode) (width : Width)
    (lhs rhs : Nat) :
    (netlist.connect opcode width lhs rhs).2.sources = [lhs, rhs] :=
  rfl

/-! ### Values -/

/-- Why no value of a signal can be recorded for a cycle, if it cannot. -/
def refusal? (netlist : Netlist) (id cycle : Nat) : Option Fault :=
  (netlist.signal id).refusal? cycle

/-- Records a value of a signal for a cycle. If that is refused, nothing changes. -/
def record (netlist : Netlist) (id value cycle : Nat) : Netlist :=
  netlist.alter id (·.record value cycle) fun _ => rfl

/-- Records a value of a signal for a cycle, or reports why that is refused. -/
def update (id value cycle : Nat) : Action Netlist Unit :=
  .attempt (·.refusal? id cycle) (·.record id value cycle)

/-- The value of a signal recorded last. -/
def value (netlist : Netlist) (id : Nat) : Except Fault Nat :=
  (netlist.signal id).value

def valueAt (netlist : Netlist) (id : Nat) (cycle : Nat) : Except Fault Nat :=
  (netlist.signal id).valueAt cycle

/-- What a gate computes from the values its sources have now, cut to its width. A gate without
sources has no value. -/
def evaluate (netlist : Netlist) (gate : Gate) : Except Fault Nat :=
  match gate.sources with
  | [] => .error (.uninitialized gate.name)
  | first :: rest => do
    let start ← netlist.value first
    let total ← rest.foldlM
      (fun total id => do return gate.opcode.apply total (← netlist.value id)) start
    return truncate total gate.width

/-- Evaluates a gate and records the result at its destination. -/
def settle (gate : Gate) (cycle : Nat) : Action Netlist Nat := do
  let value ← Action.read (·.evaluate gate)
  update gate.dest value cycle
  return value

/-- Settles gates one after the other, at one cycle, and answers with what each of them
computed. -/
def propagate (gates : List Gate) (cycle : Nat) : Action Netlist (List Nat) :=
  gates.mapM (settle · cycle)

@[simp]
theorem size_record (netlist : Netlist) (id value cycle : Nat) :
    (netlist.record id value cycle).size = netlist.size :=
  size_alter ..

end Netlist
end GoldenCircuit
