import GoldenCircuit.Json.Literal
import GoldenCircuit.Text.Lines

/-! JSON values as text, in two layouts: compact, without any white space, and indented, with
every item and member on a line of its own. -/
namespace GoldenCircuit.Json.Value

open Text (openBrace closeBrace)

def quoted (units : List CodeUnit) : String :=
  String.ofList (quote units)

mutual

/-- The text of a value without white space. -/
def compact : Value → String
  | .null => "null"
  | .bool true => "true"
  | .bool false => "false"
  | .number value => String.ofList value.render
  | .string units => quoted units
  | .array items => "[" ++ ",".intercalate (compactItems items) ++ "]"
  | .object members => openBrace ++ ",".intercalate (compactMembers members) ++ closeBrace

def compactItems : List Value → List String
  | [] => []
  | item :: items => compact item :: compactItems items

def compactMembers : List (List CodeUnit × Value) → List String
  | [] => []
  | (name, value) :: members => (quoted name ++ ":" ++ compact value) :: compactMembers members

end

/-- A line feed and the blanks at the start of the next line: two for each level. -/
def newLine (level : Nat) : String :=
  String.ofList ('\n' :: List.replicate (2 * level) ' ')

/-- The parts of an array or object between its brackets, each on a line of its own one level
down. Nothing stands between the brackets if there are no parts. -/
def enclose (level : Nat) (opening closing : String) : List String → String
  | [] => opening ++ closing
  | parts =>
    opening ++ newLine (level + 1) ++ ("," ++ newLine (level + 1)).intercalate parts ++
      newLine level ++ closing

mutual

/-- The text of a value at some level, with every item and member on a line of its own. -/
def indented (level : Nat) : Value → String
  | .array items => enclose level "[" "]" (indentedItems (level + 1) items)
  | .object members => enclose level openBrace closeBrace (indentedMembers (level + 1) members)
  | .null => "null"
  | .bool true => "true"
  | .bool false => "false"
  | .number value => String.ofList value.render
  | .string units => quoted units

def indentedItems (level : Nat) : List Value → List String
  | [] => []
  | item :: items => indented level item :: indentedItems level items

def indentedMembers (level : Nat) : List (List CodeUnit × Value) → List String
  | [] => []
  | (name, value) :: members =>
    (quoted name ++ ": " ++ indented level value) :: indentedMembers level members

end

end GoldenCircuit.Json.Value
