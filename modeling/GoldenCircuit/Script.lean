import GoldenCircuit.Action
import GoldenCircuit.Disk

/-! Scripts: what a command does to files, worked out before any of it is done. A script is carried
out step by step, and the first step that is refused ends it. -/
namespace GoldenCircuit

/-- A step of a script. -/
inductive Step where
  /-- Creates a directory with those above it, as far as they are missing. -/
  | makeDirectories (path : Path)
  /-- Creates or replaces a file. -/
  | writeFile (path : Path) (content : ByteArray)

/-- Some steps, and the answer when all of them are done. The answer may be a fault that was met
where the steps end. -/
structure Script (Answer : Type) where
  steps : List Step
  ending : Except Fault Answer

def Step.perform : Step → Disk.Changes
  | .makeDirectories path => Disk.makeDirectories path
  | .writeFile path content => .single (·.writeFile path content)

namespace Script

variable {Answer : Type}

/-- Puts a step before all others. -/
def after (step : Step) (script : Script Answer) : Script Answer :=
  { script with steps := step :: script.steps }

def run (script : Script Answer) : Action Disk Answer := do
  script.steps.forM fun step => step.perform.adaptExcept .io
  match script.ending with
  | .ok answer => return answer
  | .error fault => throw fault

end Script
end GoldenCircuit
