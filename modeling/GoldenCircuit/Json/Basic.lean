/-! JSON values. A string is a sequence of code units, because an escape can name half of a
surrogate pair without the other half; such a string is JSON, though no text. -/
namespace GoldenCircuit.Json

/-- A unit of a JSON string. -/
inductive CodeUnit where
  | char (char : Char)
  /-- The first half of a surrogate pair, with the ten bits it carries. -/
  | high (bits : Fin 1024)
  /-- The second half of a surrogate pair, with the ten bits it carries. -/
  | low (bits : Fin 1024)
deriving DecidableEq

/-- A number as it is written. Nothing is rounded: an integer differs from the same number with a
fraction or an exponent. -/
structure Number where
  negative : Bool := false
  whole : Nat
  /-- The digits after the point; none if there is no point. -/
  fraction : List (Fin 10) := []
  exponent : Option Int := none
deriving DecidableEq

/-- A JSON value. The members of an object stand in order, and a name may be repeated. -/
inductive Value where
  | null
  | bool (value : Bool)
  | number (value : Number)
  | string (units : List CodeUnit)
  | array (items : List Value)
  | object (members : List (List CodeUnit × Value))

/-- The character that the two halves of a surrogate pair stand for. -/
def joinHalves (high low : Fin 1024) : Char :=
  Char.ofNat (0x10000 + 1024 * high.val + low.val)

/-- The text that code units stand for, unless some half of a surrogate pair stands alone. -/
def text? : List CodeUnit → Option (List Char)
  | [] => some []
  | .char char :: rest => (text? rest).map (char :: ·)
  | .high high :: .low low :: rest => (text? rest).map (joinHalves high low :: ·)
  | .high _ :: _ => none
  | .low _ :: _ => none

def units (text : String) : List CodeUnit :=
  text.toList.map .char

/-- The number, if it is written as a natural number: without sign, fraction and exponent. -/
def Number.natural? (number : Number) : Option Nat :=
  if number.negative || !number.fraction.isEmpty || number.exponent.isSome then none
  else some number.whole

namespace Value

def text (text : String) : Value :=
  .string (units text)

def natural (value : Nat) : Value :=
  .number { whole := value }

def ofMembers (members : List (String × Value)) : Value :=
  .object (members.map fun (name, value) => (units name, value))

end Value
end GoldenCircuit.Json
