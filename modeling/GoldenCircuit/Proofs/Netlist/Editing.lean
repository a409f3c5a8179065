import Mathlib.Data.List.Induction
import GoldenCircuit.Proofs.Netlist.Growth

/-! Building a netlist by edits, in any order and number. Whatever the edits are, each of them adds a
signal, lays a gate, or records a value or refuses it, so that what these three keep is kept by every
sequence of edits. -/
namespace GoldenCircuit

/-- A netlist that is being built, with what was handed out in the course of it. -/
structure Schematic where
  netlist : Netlist
  /-- The signals with automatic names: those that were asked for without a name and the destinations
  of the gates, the last one first. -/
  automatic : List Nat
  /-- The gates, the last one first. -/
  gates : List Gate

/-- Something to do with a netlist that is being built. -/
inductive Edit where
  | add (name : String) (width : Option Width)
  | addFresh
  | connect (opcode : Opcode) (width : Width) (lhs rhs : Nat)
  /-- Chains a signal to the gate with a number, counted from zero in the order of the gates. -/
  | extend (number id : Nat)
  | update (id value cycle : Nat)

namespace Schematic

/-- Nothing is there yet. -/
def empty : Schematic :=
  ⟨.empty, [], []⟩

/-- The schematic after a gate was laid: the netlist with the gate, and the gate. -/
def lay (schematic : Schematic) (laid : Netlist × Gate) : Schematic where
  netlist := laid.1
  automatic := laid.2.dest :: schematic.automatic
  gates := laid.2 :: schematic.gates

/-- The gate with a number, counted from zero in the order of the gates. -/
def gate? (schematic : Schematic) (number : Nat) : Option Gate :=
  schematic.gates.reverse[number]?

end Schematic

namespace Edit

/-- The schematic that is left after an edit, whether it succeeded or not. -/
def perform : Edit → Schematic → Schematic
  | .add name width, schematic =>
    { schematic with netlist := (schematic.netlist.add name width).1 }
  | .addFresh, schematic =>
    let (grown, id) := schematic.netlist.addFresh
    { schematic with netlist := grown, automatic := id :: schematic.automatic }
  | .connect opcode width lhs rhs, schematic =>
    schematic.lay (schematic.netlist.connect opcode width lhs rhs)
  | .extend number id, schematic =>
    match schematic.gate? number with
    | some gate => schematic.lay (schematic.netlist.extend gate id)
    | none => schematic
  | .update id value cycle, schematic =>
    { schematic with netlist := (Netlist.update id value cycle).after schematic.netlist }

/-- The signals and the gate that the edit refers to are there. -/
def Applies (schematic : Schematic) : Edit → Prop
  | .add _ _ | .addFresh => True
  | .connect _ _ lhs rhs => lhs < schematic.netlist.size ∧ rhs < schematic.netlist.size
  | .extend number id => number < schematic.gates.length ∧ id < schematic.netlist.size
  | .update id _ _ => id < schematic.netlist.size

instance (schematic : Schematic) : (edit : Edit) → Decidable (edit.Applies schematic)
  | .add _ _ | .addFresh => .isTrue trivial
  | .connect _ _ _ _ | .extend _ _ => inferInstanceAs (Decidable (_ ∧ _))
  | .update _ _ _ => inferInstanceAs (Decidable (_ < _))

/-- The edit records a value of the signal, or tries to. -/
def Updates (id : Nat) : Edit → Prop
  | .update target _ _ => target = id
  | _ => False

instance (id : Nat) : (edit : Edit) → Decidable (edit.Updates id)
  | .update _ _ _ => inferInstanceAs (Decidable (_ = _))
  | .add _ _ | .addFresh | .connect _ _ _ _ | .extend _ _ => .isFalse fun updates => updates

/-- The width that a signal is declared with by the edit that adds it. The signals that are not added
under a name are declared without one. -/
def declares? : Edit → Option (Option Width)
  | .add _ width => some width
  | .addFresh | .connect _ _ _ _ | .extend _ _ => some none
  | .update _ _ _ => none

theorem not_updates_of_declares {edit : Edit} {width : Option Width}
    (declares : edit.declares? = some width) (id : Nat) : ¬ edit.Updates id := by
  cases edit with
  | update target value cycle => contradiction
  | _ => exact fun updates => updates

end Edit

namespace Schematic

/-- The schematic that is left after edits, one after the other. -/
def editing (schematic : Schematic) (edits : List Edit) : Schematic :=
  edits.foldl (fun schematic edit => edit.perform schematic) schematic

/-- Each of the edits refers to what is there when it is its turn. -/
def Admits (schematic : Schematic) : List Edit → Prop
  | [] => True
  | edit :: edits => edit.Applies schematic ∧ (edit.perform schematic).Admits edits

instance decidableAdmits (schematic : Schematic) : (edits : List Edit) →
    Decidable (schematic.Admits edits)
  | [] => .isTrue trivial
  | edit :: edits =>
    have := decidableAdmits (edit.perform schematic) edits
    inferInstanceAs (Decidable (_ ∧ _))

theorem editing_append (schematic : Schematic) (edits more : List Edit) :
    schematic.editing (edits ++ more) = (schematic.editing edits).editing more :=
  List.foldl_append

theorem admits_append {schematic : Schematic} {edits more : List Edit} :
    schematic.Admits (edits ++ more) ↔
      schematic.Admits edits ∧ (schematic.editing edits).Admits more := by
  induction edits generalizing schematic with
  | nil => exact (and_iff_right trivial).symm
  | cons edit edits ih =>
    simp only [List.cons_append, Admits, ih, editing, List.foldl_cons, and_assoc]

/-- The gates were laid over the signals of the netlist while it was built. -/
def Built (schematic : Schematic) : Prop :=
  Netlist.Built schematic.netlist schematic.gates

end Schematic

/-- What an edit does. Chaining a signal to a gate is laying one more gate. -/
inductive Edit.Does (before : Schematic) : Edit → Schematic → Prop
  | add (name : String) (width : Option Width) :
      Does before (.add name width)
        { before with netlist := (before.netlist.add name width).1 }
  | addFresh :
      Does before .addFresh
        { before with
          netlist := before.netlist.addFresh.1
          automatic := before.netlist.size :: before.automatic }
  | lay {edit : Edit} (declares : edit.declares? = some none) (opcode : Opcode) (width : Width)
      {lhs rhs : Nat} (lhs_lt : lhs < before.netlist.size) (rhs_lt : rhs < before.netlist.size) :
      Does before edit (before.lay (before.netlist.connect opcode width lhs rhs))
  | record {id : Nat} (id_lt : id < before.netlist.size) (value cycle : Nat) :
      Does before (.update id value cycle)
        { before with netlist := before.netlist.record id value cycle }

namespace Schematic

variable {schematic : Schematic}

theorem mem_gates_of_gate? {number : Nat} {gate : Gate} (found : schematic.gate? number = some gate) :
    gate ∈ schematic.gates :=
  List.mem_reverse.mp (List.mem_of_getElem? found)

theorem exists_gate {number : Nat} (within : number < schematic.gates.length) :
    ∃ gate, schematic.gate? number = some gate :=
  ⟨_, List.getElem?_eq_getElem (by rwa [List.length_reverse])⟩

theorem Built.does (built : schematic.Built) {edit : Edit} (applies : edit.Applies schematic) :
    edit.Does schematic (edit.perform schematic) := by
  cases edit with
  | add name width => exact .add name width
  | addFresh => exact .addFresh
  | connect opcode width lhs rhs => exact .lay rfl opcode width applies.1 applies.2
  | extend number id =>
    obtain ⟨gate, found⟩ := exists_gate applies.1
    have laid := Netlist.Built.laid built gate (mem_gates_of_gate? found)
    simp only [Edit.perform, found]
    exact .lay rfl gate.opcode gate.width laid.dest_lt applies.2
  | update id value cycle =>
    simp only [Edit.perform, Netlist.after_update applies]
    exact .record applies value cycle

theorem Built.of_does (built : schematic.Built) {edit : Edit} {after : Schematic}
    (does : edit.Does schematic after) : after.Built := by
  cases does with
  | add name width => exact Netlist.Built.add built name width
  | addFresh => exact Netlist.Built.addFresh built
  | lay _ opcode width lhs_lt rhs_lt => exact Netlist.Built.connect built opcode width lhs_lt rhs_lt
  | record id_lt value cycle => exact Netlist.Built.record built id_lt value cycle

theorem built_empty : Built empty :=
  Netlist.Built.empty

/-- What holds of a schematic before any edits, and is kept by all that an edit can do, holds after
every sequence of edits. -/
theorem Built.editing_keeps {start : Schematic} (built : start.Built)
    (invariant : List Edit → Schematic → Prop) (initial : invariant [] start)
    (step : ∀ {edits before edit after}, before = start.editing edits → before.Built →
      edit.Does before after → invariant edits before → invariant (edits ++ [edit]) after)
    {edits : List Edit} (admits : start.Admits edits) :
    (start.editing edits).Built ∧ invariant edits (start.editing edits) := by
  induction edits using List.reverseRecOn with
  | nil => exact ⟨built, initial⟩
  | append_singleton edits edit ih =>
    obtain ⟨earlier, applies, -⟩ := admits_append.mp admits
    obtain ⟨built, holds⟩ := ih earlier
    rw [editing_append]
    have does := built.does applies
    exact ⟨built.of_does does, step rfl built does holds⟩

theorem built_editing {edits : List Edit} (admits : empty.Admits edits) :
    (empty.editing edits).Built :=
  (built_empty.editing_keeps (fun _ _ => True) trivial (fun _ _ _ _ => trivial)
    admits).1

end Schematic

theorem Edit.Does.extends {edit : Edit} {before after : Schematic} (does : edit.Does before after) :
    before.netlist.Extends after.netlist := by
  cases does with
  | add name width => exact Netlist.extends_push _ _
  | addFresh => exact Netlist.extends_addFresh _
  | lay _ opcode width lhs_lt rhs_lt => exact Netlist.extends_connect _ opcode width lhs_lt rhs_lt
  | record id_lt value cycle => exact Netlist.extends_record _ id_lt value cycle

namespace Schematic

/-- Signals that were there before some edits keep their places, names and known widths. -/
theorem Built.extends_editing {start : Schematic} (built : start.Built) {edits : List Edit}
    (admits : start.Admits edits) : start.netlist.Extends (start.editing edits).netlist :=
  (built.editing_keeps (fun _ left => start.netlist.Extends left.netlist) (.refl _)
    (fun _ _ does grown => grown.trans does.extends) admits).2

end Schematic
end GoldenCircuit
