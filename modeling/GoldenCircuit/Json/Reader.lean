import GoldenCircuit.Json.Literal

/-! Reading JSON. White space may stand around every value and every mark, and nothing else may
stand before or after the value of a text. -/
namespace GoldenCircuit.Json

/-- Whether a character is white space between the parts of a JSON text. -/
def isBlank (char : Char) : Bool :=
  char == ' ' || char == '\t' || char == '\n' || char == '\r'

/-- The text from its first character that is not white space. -/
def skipBlank (text : List Char) : List Char :=
  text.dropWhile isBlank

/-- Reads the name of a member and the colon after it. -/
def readName (text : List Char) : Option (List CodeUnit × List Char) :=
  match skipBlank text with
  | '"' :: text => do
    let (name, rest) ← readUnits text
    match skipBlank rest with
    | ':' :: rest => return (name, rest)
    | _ => none
  | _ => none

mutual

def readValue : (fuel : Nat) → List Char → Option (Value × List Char)
  | 0, _ => none
  | fuel + 1, text =>
    match skipBlank text with
    | 'n' :: 'u' :: 'l' :: 'l' :: rest => some (.null, rest)
    | 't' :: 'r' :: 'u' :: 'e' :: rest => some (.bool true, rest)
    | 'f' :: 'a' :: 'l' :: 's' :: 'e' :: rest => some (.bool false, rest)
    | '"' :: rest => do
      let (units, rest) ← readUnits rest
      return (.string units, rest)
    | '[' :: rest =>
      match skipBlank rest with
      | ']' :: rest => some (.array [], rest)
      | rest => do
        let (items, rest) ← readItems fuel rest
        return (.array items, rest)
    | '\x7b' :: rest =>
      match skipBlank rest with
      | '\x7d' :: rest => some (.object [], rest)
      | rest => do
        let (members, rest) ← readMembers fuel rest
        return (.object members, rest)
    | text => do
      let (number, rest) ← readNumber text
      return (.number number, rest)

/-- Reads one or more items, up to the bracket that closes their array. -/
def readItems : (fuel : Nat) → List Char → Option (List Value × List Char)
  | 0, _ => none
  | fuel + 1, text => do
    let (item, rest) ← readValue fuel text
    match skipBlank rest with
    | ',' :: rest =>
      let (items, rest) ← readItems fuel rest
      return (item :: items, rest)
    | ']' :: rest => return ([item], rest)
    | _ => none

/-- Reads one or more members, up to the brace that closes their object. -/
def readMembers : (fuel : Nat) → List Char → Option (List (List CodeUnit × Value) × List Char)
  | 0, _ => none
  | fuel + 1, text => do
    let (name, rest) ← readName text
    let (value, rest) ← readValue fuel rest
    match skipBlank rest with
    | ',' :: rest =>
      let (members, rest) ← readMembers fuel rest
      return ((name, value) :: members, rest)
    | '\x7d' :: rest => return ([(name, value)], rest)
    | _ => none

end

/-- The value that a text denotes. Two steps for each character are enough: of two nested steps at
least one reads a character. -/
def parse? (text : String) : Option Value :=
  let chars := text.toList
  match readValue (2 * chars.length + 2) chars with
  | some (value, rest) => if (skipBlank rest).isEmpty then some value else none
  | none => none

end GoldenCircuit.Json
