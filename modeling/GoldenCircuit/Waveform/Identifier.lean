/-! The short names that a value change dump gives to its signals: the strings of printable
characters, shortest first and then by character. They are the numerals of a notation without a
zero, to the base of the number of printable characters. -/
namespace GoldenCircuit.Waveform

/-- The number of printable ASCII characters other than the blank. -/
def symbolCount : Nat := 94

/-- The printable characters, in order from the exclamation mark. -/
def symbol (digit : Nat) : Char :=
  Char.ofNat ('!'.toNat + digit)

/-- The numeral of an index, found from its last digit on. Its length is at most `fuel`. -/
def numeral : (fuel index : Nat) → List Char
  | 0, _ => []
  | fuel + 1, index =>
    let higher := index / symbolCount
    (if higher = 0 then [] else numeral fuel (higher - 1)) ++ [symbol (index % symbolCount)]

/-- The identifier of the signal at an index. The first ones are single characters. -/
def identifier (index : Nat) : String :=
  if index < symbolCount then
    String.singleton (symbol index)
  else
    String.ofList (numeral (index + 1) index)

end GoldenCircuit.Waveform
