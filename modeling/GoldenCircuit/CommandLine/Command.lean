import GoldenCircuit.CommandLine.Options
import GoldenCircuit.ExampleSet
import GoldenCircuit.LogLevel

/-! What a command line makes the program do, and what the program reports. -/
namespace GoldenCircuit.CommandLine

/-- What the program leaves besides files: its exit code and its two output streams. -/
structure Report where
  code : UInt8
  stdout : ByteArray := .empty
  stderr : String := ""

namespace Report

def success (stdout : ByteArray) : Report :=
  { code := 0, stdout }

/-- The report of a failure. What was being done, if it is worth saying, comes before the cause. -/
def failure (doing : Option String) (fault : Fault) : Report where
  code := 1
  stderr :=
    match doing with
    | none => "Error: " ++ fault.message ++ "\n"
    | some doing => "Error: " ++ doing ++ "\n\nCaused by:\n    " ++ fault.message ++ "\n"

end Report

/-- What a command line asks for. -/
inductive Command where
  /-- Shows the families of the catalog and their examples. -/
  | list
  /-- Writes all examples into a directory. -/
  | examples (directory : Path) (request : Request)
  /-- Writes one circuit to a file, or else to the standard output. -/
  | generate (output : Option Path) (request : Request)

namespace Command

/-- The command of some options. Listing goes before all else. -/
def ofOptions (options : Options) : Command :=
  if options.list then .list
  else
    match options.examplesDir with
    | some directory => .examples ⟨directory⟩ options.request
    | none => .generate (options.output.map Path.mk) options.request

def rightAligned (places number : Nat) : String :=
  let digits := toString number
  String.ofList (List.replicate (places - digits.length) ' ') ++ digits

def listLine (place : Nat) (family : Family) : String :=
  rightAligned 3 place ++ "  " ++ family.name ++ "  [" ++ ", ".intercalate family.examples ++ "]"

def examplesScript (catalog : Catalog) (directory : Path) (request : Request) : Script Report :=
  let script := catalog.examples request directory
  { steps := script.steps
    ending := script.ending.map fun written =>
      { code := 0
        stderr := "Wrote " ++ toString written.length ++ " example(s) to " ++ directory.text ++
          "\n" } }

/-- The script of the command that writes one circuit. A file is there and empty before the circuit
is built, so that it is empty if the circuit cannot be built. -/
def generateScript (catalog : Catalog) (output : Option Path) (request : Request) :
    Script Report :=
  let (content, failed) :=
    match catalog.generate request .unbounded with
    | .ok () sink => (sink.written, none)
    | .error fault sink => (sink.written, some (Report.failure none fault))
  match output with
  | none => ⟨[], .ok { failed.getD (.success .empty) with stdout := content }⟩
  | some path => ⟨[.writeFile path content], .ok (failed.getD (.success .empty))⟩

/-- The script of a command. Its answer is the report. -/
def script (catalog : Catalog) : Command → Script Report
  | .list =>
    ⟨[], .ok (.success (Text.unlines (catalog.families.mapIdx listLine)).toUTF8)⟩
  | .examples directory request => examplesScript catalog directory request
  | .generate output request => generateScript catalog output request

/-- What to say that the command was doing when its script was stopped. -/
def doing : Command → Option String
  | .list => none
  | .examples directory _ => some ("Failed to write examples to " ++ directory.text)
  | .generate output _ => output.map fun path => "Failed to create " ++ path.text

def run (catalog : Catalog) (command : Command) (disk : Disk) : Report × Disk :=
  match (command.script catalog).run disk with
  | .ok report disk => (report, disk)
  | .error fault disk => (.failure command.doing fault, disk)

end Command

def helpText : String :=
  Text.unlines
    ["Generate torture-test circuits with golden reference values",
     "",
     "Usage: torture [OPTIONS]",
     "",
     "Options:",
     "      --pattern <PATTERN>            Pattern family name (see --list)",
     "      --index <INDEX>                Pattern family position in the registry",
     "      --args <ARGS>                  Family-specific argument string, e.g. \"64-8\"",
     "      --format <FORMAT>              Output format: flo, chisel, vcd or json [default: flo]",
     "      --cycles <CYCLES>              Cycles of reference data to embed [default: 16]",
     "      --seed <SEED>                  Stimulus seed [default: 8090564389777768449]",
     "  -o, --output <OUTPUT>              Output file (default: stdout)",
     "      --list                         List registered patterns and their examples, then exit",
     "      --examples-dir <EXAMPLES_DIR>  Write every registered example into this directory",
     "  -v, --verbose...                   Increase log verbosity (-v, -vv, -vvv)",
     "  -h, --help                         Print help"]

def Refusal.message : Refusal → String
  | .help => "help was asked for"
  | .unexpected word => "unexpected argument '" ++ word ++ "' found"
  | .missingValue name => "a value is required for '--" ++ name.long ++ "' but none was supplied"
  | .badValue name value => "invalid value '" ++ value ++ "' for '--" ++ name.long ++ "'"
  | .repeated name => "the argument '--" ++ name.long ++ "' cannot be used multiple times"
  | .conflict first second =>
    "the argument '--" ++ first.long ++ "' cannot be used with '--" ++ second.long ++ "'"

/-- The report on a command line that is not carried out: the help, or what is wrong. -/
def Report.refusal : Refusal → Report
  | .help => .success helpText.toUTF8
  | refusal => { code := 2, stderr := "error: " ++ refusal.message ++ "\n" }

/-- What a command line says about logging and what it has the program do. -/
structure Invocation where
  logLevel : LogLevel
  command : Command

def Invocation.ofWords (words : List String) : Except Refusal Invocation := do
  let options ← Options.ofWords words
  return { logLevel := .ofVerbosity options.verbosity, command := .ofOptions options }

/-- Carries out a command line on a disk. One that is refused touches nothing. -/
def run (catalog : Catalog) (words : List String) (disk : Disk) : Report × Disk :=
  match Invocation.ofWords words with
  | .ok invocation => invocation.command.run catalog disk
  | .error refusal => (.refusal refusal, disk)

end GoldenCircuit.CommandLine
