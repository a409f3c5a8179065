import GoldenCircuit.Fault
import GoldenCircuit.Path

/-! A directory tree and the operations on it that writing files needs, with the faults by which an
operating system refuses them. A path is resolved from the root or from a working directory. -/
namespace GoldenCircuit

/-- The way from the root to a file or directory, by names. The root itself is the empty way. -/
abbrev Location := List String

/-- What stands at a location. -/
inductive DiskEntry where
  | directory
  | file (content : ByteArray)

/-- A directory tree: what stands at each location but the root, which is always a directory. -/
structure Disk where
  entries : List (Location × DiskEntry) := []
  /-- The directory that paths lead from unless they are absolute. -/
  workingDirectory : Location := []

namespace Disk

/-- Nothing but the root, which is the working directory. -/
def empty : Disk := {}

def find? (disk : Disk) (location : Location) : Option DiskEntry :=
  if location = [] then some .directory
  else (disk.entries.find? (·.1 == location)).map (·.2)

/-- Puts an entry at a location, in the place of what stood there. -/
def insert (disk : Disk) (location : Location) (entry : DiskEntry) : Disk :=
  { disk with entries := (location, entry) :: disk.entries.filter (·.1 != location) }

def lookUp (disk : Disk) (directory : Location) (name : String) :
    Except IoFault (Option DiskEntry) :=
  if Path.nameLimit < name.utf8ByteSize then .error .nameTooLong
  else .ok (disk.find? (directory ++ [name]))

/-- Goes one step from a directory: down to an entry of it, up for two dots, nowhere for one. -/
def walkStep (disk : Disk) (location : Location) (step : String) : Except IoFault Location :=
  match disk.find? location with
  | some .directory =>
    if step = "." then .ok location
    else if step = ".." then .ok location.dropLast
    else
      match disk.lookUp location step with
      | .ok (some _) => .ok (location ++ [step])
      | .ok none => .error .notFound
      | .error fault => .error fault
  | some (.file _) => .error .notADirectory
  | none => .error .notFound

def walk (disk : Disk) (start : Location) (steps : List String) : Except IoFault Location :=
  steps.foldlM disk.walkStep start

def startOf (disk : Disk) (path : Path) : Location :=
  if path.isAbsolute then [] else disk.workingDirectory

/-- The directory above the last step of a path, and that step if it is a name. -/
def parentOf (disk : Disk) (path : Path) : Except IoFault (Location × Option String) := do
  if let some fault := path.fault? then throw fault
  let parent ← disk.walk (disk.startOf path) path.steps.dropLast
  match disk.find? parent with
  | some .directory =>
    match path.steps.getLast? with
    | none | some "." | some ".." => return (parent, none)
    | some name => return (parent, some name)
  | some (.file _) => throw .notADirectory
  | none => throw .notFound

/-- Creates a file, or replaces the content of the file that is there. Its directory must exist. -/
def writeFile (disk : Disk) (path : Path) (content : ByteArray) : Except IoFault Disk := do
  match ← disk.parentOf path with
  | (_, none) => throw .isADirectory
  | (parent, some name) =>
    if path.endsInSlash then throw .isADirectory
    match ← disk.lookUp parent name with
    | some .directory => throw .isADirectory
    | _ => return disk.insert (parent ++ [name]) (.file content)

def makeDirectory (disk : Disk) (path : Path) : Except IoFault Disk := do
  match ← disk.parentOf path with
  | (_, none) => throw .alreadyExists
  | (parent, some name) =>
    match ← disk.lookUp parent name with
    | some _ => throw .alreadyExists
    | none => return disk.insert (parent ++ [name]) .directory

/-- Whether a path leads to a directory. -/
def isDirectory (disk : Disk) (path : Path) : Bool :=
  match (disk.walk (disk.startOf path) path.steps).map disk.find? with
  | .ok (some .directory) => true
  | _ => false

/-! ### Several changes in a row

A row of changes ends at the first one that is refused, and those before it stay. -/

abbrev Changes := EStateM IoFault Disk Unit

/-- A single change, which is done or refused as a whole. -/
def Changes.single (change : Disk → Except IoFault Disk) : Changes :=
  fun disk =>
    match change disk with
    | .ok changed => .ok () changed
    | .error fault => .error fault disk

/-- Creates a directory unless it is there. -/
def ensureDirectory (path : Path) : Changes :=
  .single fun disk =>
    match disk.makeDirectory path with
    | .ok made => .ok made
    | .error fault => if disk.isDirectory path then .ok disk else .error fault

/-- Creates a directory unless it is there. If something above it is missing, `above` creates that
first. -/
def ensureBelow (above : Changes) (path : Path) : Changes := do
  match (← get).makeDirectory path with
  | .error .notFound => above
  | _ => pure ()
  ensureDirectory path

/-- Creates the directory at the end of some steps, given from the last to the first, and those
above it. The steps start where a path does. -/
def ensureSteps (path : Path) : (upwards : List String) → Changes
  | [] => pure ()
  | step :: above =>
    ensureBelow (ensureSteps path above) (path.withSteps (step :: above).reverse)

/-- Creates a directory and those above it, as far as they are missing. Those that were created
before one is refused stay. The empty path needs none. -/
def makeDirectories (path : Path) : Changes :=
  if path.text = "" then pure ()
  else ensureBelow (ensureSteps path path.stepsAbove) path

end Disk
end GoldenCircuit
