import GoldenCircuit.Json.Basic
import GoldenCircuit.Text.Numeral

/-! The literals of JSON, written and read: strings between quotes and numbers. A reader answers
with what it read and the text after it. -/
namespace GoldenCircuit.Json

/-! ### Strings -/

/-- A number below sixteen as a hexadecimal digit. -/
def hexDigit (value : Nat) : Char :=
  Nat.digitChar value

/-- The value of a hexadecimal digit, in either case. -/
def hexValue? (digit : Char) : Option Nat :=
  if '0' ≤ digit ∧ digit ≤ '9' then some (digit.toNat - '0'.toNat)
  else if 'a' ≤ digit ∧ digit ≤ 'f' then some (digit.toNat - 'a'.toNat + 10)
  else if 'A' ≤ digit ∧ digit ≤ 'F' then some (digit.toNat - 'A'.toNat + 10)
  else none

/-- The escape that names a 16-bit number by four hexadecimal digits. -/
def hexEscape (code : Nat) : List Char :=
  ['\\', 'u', hexDigit (code / 4096 % 16), hexDigit (code / 256 % 16), hexDigit (code / 16 % 16),
    hexDigit (code % 16)]

/-- A code unit inside quotes. Only what cannot stand there itself is escaped: the quote, the
backslash, control characters, and halves of surrogate pairs. -/
def escape : CodeUnit → List Char
  | .char '"' => ['\\', '"']
  | .char '\\' => ['\\', '\\']
  | .char '\x08' => ['\\', 'b']
  | .char '\t' => ['\\', 't']
  | .char '\n' => ['\\', 'n']
  | .char '\x0c' => ['\\', 'f']
  | .char '\r' => ['\\', 'r']
  | .char char => if char.toNat < 0x20 then hexEscape char.toNat else [char]
  | .high bits => hexEscape (0xD800 + bits.val)
  | .low bits => hexEscape (0xDC00 + bits.val)

def quote (units : List CodeUnit) : List Char :=
  '"' :: (units.flatMap escape ++ ['"'])

/-- The code unit with a 16-bit number. -/
def unitOfCode (code : Nat) : CodeUnit :=
  if 0xD800 ≤ code ∧ code < 0xDC00 then .high (Fin.ofNat 1024 (code - 0xD800))
  else if 0xDC00 ≤ code ∧ code < 0xE000 then .low (Fin.ofNat 1024 (code - 0xDC00))
  else .char (Char.ofNat code)

/-- The number that four hexadecimal digits name. -/
def hexCode? (first second third fourth : Char) : Option Nat := do
  return ((← hexValue? first) * 16 + (← hexValue? second)) * 256 +
    ((← hexValue? third) * 16 + (← hexValue? fourth))

/-- What a backslash before a single character stands for. -/
def shortEscape? : Char → Option Char
  | '"' => some '"'
  | '\\' => some '\\'
  | '/' => some '/'
  | 'b' => some '\x08'
  | 'f' => some '\x0c'
  | 'n' => some '\n'
  | 'r' => some '\r'
  | 't' => some '\t'
  | _ => none

/-- Reads a string from behind its opening quote up to its closing quote. -/
def readUnits : List Char → Option (List CodeUnit × List Char)
  | [] => none
  | '"' :: rest => some ([], rest)
  | '\\' :: 'u' :: first :: second :: third :: fourth :: rest => do
    let code ← hexCode? first second third fourth
    let (units, rest) ← readUnits rest
    return (unitOfCode code :: units, rest)
  | '\\' :: letter :: rest => do
    let char ← shortEscape? letter
    let (units, rest) ← readUnits rest
    return (.char char :: units, rest)
  | char :: rest =>
    if char.toNat < 0x20 ∨ char = '\\' then none
    else do
      let (units, rest) ← readUnits rest
      return (.char char :: units, rest)

/-! ### Numbers -/

def digits (value : Nat) : List Char :=
  Nat.toDigits 10 value

def Number.render (number : Number) : List Char :=
  (if number.negative then ['-'] else []) ++ digits number.whole ++
  (if number.fraction.isEmpty then []
    else '.' :: number.fraction.map fun digit => Nat.digitChar digit.val) ++
  match number.exponent with
  | none => []
  | some (.ofNat size) => 'e' :: digits size
  | some (.negSucc size) => 'e' :: '-' :: digits (size + 1)

def readDigits (text : List Char) : Option (List Char × List Char) :=
  let digits := text.takeWhile Char.isDigit
  if digits.isEmpty then none else some (digits, text.dropWhile Char.isDigit)

/-- Reads the digits of a whole number, of which the first is no zero unless it is the only
one. -/
def readWhole (text : List Char) : Option (Nat × List Char) := do
  let (digits, rest) ← readDigits text
  if digits.head? = some '0' ∧ digits ≠ ['0'] then none
  else return (Text.digitsFrom 0 digits, rest)

/-- Reads a point and the digits after it, if there is a point. -/
def readFraction : List Char → Option (List (Fin 10) × List Char)
  | '.' :: text => do
    let (digits, rest) ← readDigits text
    return (digits.map fun digit => Fin.ofNat 10 (digit.toNat - '0'.toNat), rest)
  | text => some ([], text)

/-- Reads the digits of an exponent, a sign before them or not. -/
def readSigned : List Char → Option (Int × List Char)
  | '-' :: text => do
    let (digits, rest) ← readDigits text
    return (-(Text.digitsFrom 0 digits : Int), rest)
  | '+' :: text => do
    let (digits, rest) ← readDigits text
    return (Text.digitsFrom 0 digits, rest)
  | text => do
    let (digits, rest) ← readDigits text
    return (Text.digitsFrom 0 digits, rest)

/-- Reads an exponent, if there is one. -/
def readExponent : List Char → Option (Option Int × List Char)
  | 'e' :: text | 'E' :: text => do
    let (exponent, rest) ← readSigned text
    return (some exponent, rest)
  | text => some (none, text)

/-- Reads a number without its sign. -/
def readUnsigned (negative : Bool) (text : List Char) : Option (Number × List Char) := do
  let (whole, rest) ← readWhole text
  let (fraction, rest) ← readFraction rest
  let (exponent, rest) ← readExponent rest
  return ({ negative, whole, fraction, exponent }, rest)

def readNumber : List Char → Option (Number × List Char)
  | '-' :: text => readUnsigned true text
  | text => readUnsigned false text

end GoldenCircuit.Json
