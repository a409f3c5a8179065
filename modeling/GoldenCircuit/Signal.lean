import GoldenCircuit.Fault
import GoldenCircuit.History
import GoldenCircuit.Word

/-! A named wire of a circuit: its width, as far as it is known, and its history. -/
namespace GoldenCircuit

/-- A wire. Its width is unknown until it is declared or some gate fixes it. -/
structure Signal where
  name : String
  width : Option Width := none
  history : History := .empty

namespace Signal

instance : Inhabited Signal := ⟨⟨"", none, .empty⟩⟩

/-- A value as the signal can hold it: all of it while the width is unknown. -/
def fit (signal : Signal) (value : Nat) : Nat :=
  match signal.width with
  | some width => truncate value width
  | none => value

/-- Why no value can be recorded for a cycle, if it cannot: the past cannot be written. -/
def refusal? (signal : Signal) (cycle : Nat) : Option Fault :=
  (signal.history.overtaken? cycle).map (.cycleRegression signal.name cycle)

/-- Records a value for a cycle, as far as it fits. If that is refused, nothing changes. -/
def record (signal : Signal) (value cycle : Nat) : Signal :=
  let fitting := signal.fit value
  let { name, width, history } := signal
  { name, width, history := history.record cycle fitting }

/-- The value recorded last. -/
def value (signal : Signal) : Except Fault Nat :=
  match signal.history.value? with
  | some value => .ok value
  | none => .error (.uninitialized signal.name)

def valueAt (signal : Signal) (cycle : Nat) : Except Fault Nat :=
  match signal.history.valueAt? cycle with
  | some value => .ok value
  | none => .error (.uninitialized signal.name)

/-- Takes over the width of a gate at the signal, unless the width is known already. -/
def inferWidth (signal : Signal) (width : Width) : Signal :=
  { signal with width := signal.width <|> some width }

/-- The width with which the signal is declared in a text. A signal that no gate constrains is
declared with one bit. -/
def pinWidth (signal : Signal) : Width :=
  signal.width.getD .bit

end Signal
end GoldenCircuit
