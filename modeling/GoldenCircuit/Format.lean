import GoldenCircuit.Fault

/-! The texts a circuit can be written as. -/
namespace GoldenCircuit

/-- An output format. -/
inductive Format where
  /-- A netlist, one statement a line. -/
  | flo
  /-- A Chisel module with a tester that checks the golden vectors. -/
  | chisel
  /-- A value change dump of the golden run. -/
  | vcd
  /-- A module description in JSON, the golden vectors attached. -/
  | json
deriving DecidableEq

namespace Format

instance : Inhabited Format := ⟨.flo⟩

/-- All formats, in the order in which a name is looked up. -/
def all : List Format :=
  [.flo, .chisel, .vcd, .json]

def name : Format → String
  | .flo => "flo"
  | .chisel => "chisel"
  | .vcd => "vcd"
  | .json => "json"

/-- What a file of this format is called after the dot. -/
def extension : Format → String
  | .flo => "flo"
  | .chisel => "scala"
  | .vcd => "vcd"
  | .json => "json"

def ofName? (name : String) : Option Format :=
  all.find? (·.name == name)

/-- The format that someone asks for by name. ASCII letters count the same in either case;
`String.toLower` changes no other character. -/
def parse (text : String) : Except Fault Format :=
  match ofName? text.toLower with
  | some format => .ok format
  | none => .error (.unknownFormat text)

end Format
end GoldenCircuit
