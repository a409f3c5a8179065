import GoldenCircuit.CommandLine.Command

/-! The program `torture`: carries out its command line on the real files and streams. -/
namespace GoldenCircuit.Program

/-- What a failure of the operating system means. Where one kind of failure has several causes, the
system's number tells them apart. -/
def cause (error : IO.Error) : IoFault :=
  match error with
  | .noFileOrDirectory .. => .notFound
  | .alreadyExists .. => .alreadyExists
  | .inappropriateType _ number _ => if number = 21 then .isADirectory else .notADirectory
  | .invalidArgument _ number _ =>
    if number = 36 then .nameTooLong else .other (toString error)
  | _ => .other (toString error)

/-- Whether a path leads to a directory. -/
def isDirectory (path : String) : IO Bool := do
  try (← IO.FS.realPath path).isDir catch _ => return false

/-- Creates a directory unless it is there. -/
def ensureDirectory (path : String) : IO Unit := do
  try IO.FS.createDir path
  catch error => unless ← isDirectory path do throw error

/-- Creates a directory unless it is there. If something above it is missing, `above` creates
that first. -/
def ensureBelow (above : IO Unit) (path : String) : IO Unit := do
  try IO.FS.createDir path
  catch error =>
    if let .noFileOrDirectory .. := error then above
    ensureDirectory path

/-- Creates the directory at the end of some steps, given from the last to the first, and those
above it. The steps start where a path does. -/
def ensureSteps (path : Path) : (upwards : List String) → IO Unit
  | [] => return
  | step :: above =>
    ensureBelow (ensureSteps path above) (path.withSteps (step :: above).reverse).text

/-- Creates a directory and those above it, as far as they are missing. -/
def makeDirectories (path : Path) : IO Unit :=
  ensureBelow (ensureSteps path path.stepsAbove) path.text

def perform : Step → IO Unit
  | .makeDirectories path => makeDirectories path
  | .writeFile path content => IO.FS.writeBinFile path.text content

/-- Carries out a script up to its end or its first failing step. -/
def carryOut {Answer : Type} (script : Script Answer) : IO (Except Fault Answer) := do
  try
    script.steps.forM perform
    return script.ending
  catch error =>
    return .error (.io (cause error))

def publish (report : CommandLine.Report) : IO UInt32 := do
  let stdout ← IO.getStdout
  stdout.write report.stdout
  stdout.flush
  IO.eprint report.stderr
  return report.code.toUInt32

def run (words : List String) : IO UInt32 := do
  match CommandLine.Invocation.ofWords words with
  | .error refusal => publish (.refusal refusal)
  | .ok { command, .. } =>
    match ← carryOut (command.script .builtin) with
    | .ok report => publish report
    | .error fault => publish (.failure command.doing fault)

end GoldenCircuit.Program

def main (words : List String) : IO UInt32 :=
  GoldenCircuit.Program.run words
