/-! Everything that can go wrong between asking for a circuit and holding its text, one
constructor for each cause, and the sentence that reports it. -/
namespace GoldenCircuit

/-- Why a family refuses a parameter that could be read. -/
inductive BadParameter where
  | notPositive (quantity : String)
  | exceeds (quantity : String) (given limit : Nat)
deriving DecidableEq

/-- The part of a report that names the parameter at fault. -/
def BadParameter.message : BadParameter → String
  | .notPositive quantity => quantity ++ " must be positive"
  | .exceeds quantity given limit =>
      quantity ++ " " ++ toString given ++ " exceeds " ++ toString limit

/-- Why an output or the file system did not accept a request. -/
inductive IoFault where
  /-- The output takes no more bytes. -/
  | full
  /-- The output took every byte but could not hand them on. -/
  | notFlushed
  | notFound
  | alreadyExists
  | notADirectory
  | isADirectory
  | nameTooLong
  /-- The path holds a NUL character, which no file name can. -/
  | nulInPath
  /-- Anything else, in the operating system's words. -/
  | other (text : String)
deriving DecidableEq

/-- The operating system's sentence for an error of its own, with the number it gives it. -/
private def IoFault.system (text : String) (number : Nat) : String :=
  text ++ " (os error " ++ toString number ++ ")"

def IoFault.message : IoFault → String
  | .full => "the output is full"
  | .notFlushed => "the output could not be flushed"
  | .notFound => system "No such file or directory" 2
  | .alreadyExists => system "File exists" 17
  | .notADirectory => system "Not a directory" 20
  | .isADirectory => system "Is a directory" 21
  | .nameTooLong => system "File name too long" 36
  | .nulInPath => "file name contained an unexpected NUL byte"
  | .other text => text

/-- Why a circuit could not be built, simulated or written. -/
inductive Fault where
  /-- The argument string does not have the shape its family expects. -/
  | unreadableArgs (family args shape : String)
  /-- The arguments were read, but no circuit has such parameters. -/
  | badParameter (family : String) (reason : BadParameter)
  /-- No family has that name. -/
  | unknownFamily (name : String)
  /-- There is no family at that place of the catalog. -/
  | familyOutOfRange (index count : Nat)
  /-- A signal was read before anything was recorded for it. -/
  | uninitialized (signal : String)
  /-- There is no input at that place. -/
  | inputOutOfRange (index count : Nat)
  /-- There is no output at that place. -/
  | outputOutOfRange (index count : Nat)
  /-- A value came for a cycle earlier than the last recorded one. -/
  | cycleRegression (signal : String) (cycle last : Nat)
  /-- No output format has that name. -/
  | unknownFormat (name : String)
  /-- An output or the file system failed. -/
  | io (cause : IoFault)
  /-- A JSON text is malformed or does not describe what it should. -/
  | malformedJson
  /-- The output failed while a JSON value was being written to it. -/
  | jsonNotWritten (cause : IoFault)
deriving DecidableEq

def Fault.message : Fault → String
  | .unreadableArgs family args shape =>
      "Unable to parse args '" ++ args ++ "' for pattern " ++ family ++
        " (expected " ++ shape ++ ")"
  | .badParameter family reason =>
      "Invalid parameter for pattern " ++ family ++ ": " ++ reason.message
  | .unknownFamily name => "Unknown pattern: " ++ name
  | .familyOutOfRange index count =>
      "Pattern index " ++ toString index ++ " out of range (" ++ toString count ++ " registered)"
  | .uninitialized signal => "Uninitialized signal: " ++ signal
  | .inputOutOfRange index count =>
      "Input index " ++ toString index ++ " out of range (" ++ toString count ++ " inputs)"
  | .outputOutOfRange index count =>
      "Output index " ++ toString index ++ " out of range (" ++ toString count ++ " outputs)"
  | .cycleRegression signal cycle last =>
      "Signal " ++ signal ++ " written at cycle " ++ toString cycle ++
        " after cycle " ++ toString last
  | .unknownFormat name => "Unknown output format: " ++ name
  | .io cause => cause.message
  | .malformedJson => "malformed JSON"
  | .jsonNotWritten cause => cause.message

end GoldenCircuit
