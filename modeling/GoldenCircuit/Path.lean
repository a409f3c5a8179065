import GoldenCircuit.Fault

/-! Paths of files and directories, as they are written. -/
namespace GoldenCircuit

/-- A path. Its parts stand between slashes. -/
structure Path where
  text : String
deriving DecidableEq

namespace Path

/-- The steps of a path: its parts between slashes, those that are empty left out. -/
def steps (path : Path) : List String :=
  ((path.text.toList.splitOn '/').map String.ofList).filter (· != "")

/-- Whether the path ends in a slash, which only the path of a directory may do. -/
def endsInSlash (path : Path) : Bool :=
  path.text.toList.getLast? == some '/'

/-- Whether the path leads from the root. All others lead from the working directory. -/
def isAbsolute (path : Path) : Bool :=
  path.text.toList.head? == some '/'

/-- The path that goes other steps from where a path starts. -/
def withSteps (path : Path) (steps : List String) : Path :=
  ⟨(if path.isAbsolute then "/" else "") ++ "/".intercalate steps⟩

/-- The steps above the last one, from the nearest upwards. Steps that stay where they are, written
as a dot, do not count. -/
def stepsAbove (path : Path) : List String :=
  (path.steps.filter (· != ".")).reverse.drop 1

/-- The path of something below a directory. A path from the root stays as it is. -/
def join (directory : Path) (below : String) : Path :=
  if (Path.mk below).isAbsolute || directory.text == "" then ⟨below⟩
  else if directory.endsInSlash then ⟨directory.text ++ below⟩
  else ⟨directory.text ++ "/" ++ below⟩

/-- The most bytes that a name in a directory can have. -/
def nameLimit : Nat := 255

/-- The least number of bytes that are too many for a path. -/
def lengthLimit : Nat := 4096

/-- What is wrong with a path whatever the disk holds. -/
def fault? (path : Path) : Option IoFault :=
  if '\x00' ∈ path.text.toList then some .nulInPath
  else if path.text == "" then some .notFound
  else if lengthLimit ≤ path.text.utf8ByteSize then some .nameTooLong
  else none

end Path

end GoldenCircuit
