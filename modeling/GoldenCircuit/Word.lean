/-! Signal values are natural numbers read as bit vectors. This module holds widths and the two
operations that tie a value to a width: the all-ones mask and the cut to the low bits. -/
namespace GoldenCircuit

/-- A number of bits that some hardware can carry: at least one. -/
structure Width where
  bits : Nat
  pos : 0 < bits := by decide
deriving DecidableEq

namespace Width

/-- The width of that many bits, unless there are none. -/
def ofNat? (bits : Nat) : Option Width :=
  if pos : 0 < bits then some ⟨bits, pos⟩ else none

/-- A single bit, the width of a signal about which nothing is known. -/
def bit : Width := ⟨1, by decide⟩

/-- The value whose bits are ones up to the width and zeros from there on. -/
def mask (width : Width) : Nat :=
  (1 <<< width.bits) - 1

end Width

/-- The number of bits needed to write a value without leading zeros. -/
def bitLength (value : Nat) : Nat :=
  if value = 0 then 0 else value.log2 + 1

/-- The low bits of a value, as many as the width has. A value that is short enough already is
handed back as it is, so that no mask is built for it. -/
def truncate (value : Nat) (width : Width) : Nat :=
  if bitLength value ≤ width.bits then value else value &&& width.mask

end GoldenCircuit
