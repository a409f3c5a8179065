import GoldenCircuit.Word

/-! Numbers as text: decimal numerals as they are read, binary and hexadecimal ones as they are
written. -/
namespace GoldenCircuit.Text

/-- The number that decimal digits denote, the most significant first, after digits that denote
`high`. -/
def digitsFrom (high : Nat) (digits : List Char) : Nat :=
  digits.foldl (fun value digit => 10 * value + (digit.toNat - '0'.toNat)) high

/-- The number that a numeral denotes: one or more ASCII digits, leading zeros allowed. -/
def natural? (text : List Char) : Option Nat :=
  if !text.isEmpty && text.all Char.isDigit then some (digitsFrom 0 text) else none

/-- The number that a numeral denotes, if 64 bits hold it. -/
def word? (text : List Char) : Option Nat :=
  (natural? text).filter (· < UInt64.size)

/-- A base and its repeated squares, as far as they do not exceed a number, each before those it
is greater than. At most `fuel` of them are added to those given. -/
def squares (value : Nat) : (fuel base : Nat) → (smaller : List Nat) → List Nat
  | 0, _, smaller => smaller
  | fuel + 1, base, smaller =>
    if value < base then smaller else squares value fuel (base * base) (base :: smaller)

/-- The digits of a number, the most significant first, before the digits that follow them. The
first modulus splits the number into two of half the length, and the other moduli split these. -/
def splitDigits : (moduli : List Nat) → (value : Nat) → (following : List Char) → List Char
  | [], value, following => Nat.digitChar value :: following
  | modulus :: moduli, value, following =>
    splitDigits moduli (value / modulus) (splitDigits moduli (value % modulus) following)

/-- Digits without leading zeros; the last digit stays even if it is zero. -/
def significant : List Char → List Char
  | '0' :: next :: digits => significant (next :: digits)
  | digits => digits

/-- The digits of a number to a base between 2 and 16, without leading zeros. Splitting in the
middle keeps the work small for long numbers. -/
def digits (base value : Nat) : List Char :=
  significant (splitDigits (squares value (bitLength value) base []) value [])

/-- A number in hexadecimal, in lower case and without leading zeros. -/
def hex (value : Nat) : String :=
  String.ofList (digits 16 value)

/-- A number in binary, with as many leading zeros as it takes to fill a width. -/
def binary (width value : Nat) : String :=
  let digits := digits 2 value
  String.ofList (List.replicate (width - digits.length) '0' ++ digits)

end GoldenCircuit.Text
