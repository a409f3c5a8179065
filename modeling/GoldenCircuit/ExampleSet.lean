import GoldenCircuit.Generation
import GoldenCircuit.Script

/-! Writing all examples of all families into a directory, one file for each. -/
namespace GoldenCircuit

namespace Desk

/-- The bytes that a specimen becomes in a format, and the fault that cut them short, if one
did. -/
def bytes (specimen : Specimen) (format : Format) (plan : RunPlan) :
    ByteArray × Except Fault Unit :=
  match write format plan { specimen, sink := .unbounded } with
  | .ok () desk => (desk.sink.written, .ok ())
  | .error fault desk => (desk.sink.written, .error fault)

end Desk

namespace Catalog

def exampleName (family : Family) (args : String) (format : Format) : String :=
  family.name ++ "-" ++ args ++ "." ++ format.extension

/-- The examples of all families, in order. -/
def allExamples (catalog : Catalog) : List (Family × String) :=
  catalog.families.flatMap fun family => family.examples.map fun args => (family, args)

/-- The script that writes some examples and answers with the paths of their files. An example that
cannot be built ends it without a file; one that cannot be written to its end leaves a file with
what there is of it. -/
def exampleScript (format : Format) (plan : RunPlan) (directory : Path) :
    List (Family × String) → Script (List Path)
  | [] => ⟨[], .ok []⟩
  | (family, args) :: examples =>
    match family.ofArgs args with
    | .error fault => ⟨[], .error fault⟩
    | .ok specimen =>
      let path := directory.join (exampleName family args format)
      let (content, result) := Desk.bytes specimen format plan
      let step := Step.writeFile path content
      match result with
      | .error fault => ⟨[step], .error fault⟩
      | .ok () =>
        let rest := exampleScript format plan directory examples
        { steps := step :: rest.steps, ending := rest.ending.map (path :: ·) }

/-- The script that writes every example of every family into a directory. Of the request only the
format and the run plan matter. -/
def examples (catalog : Catalog) (request : Request) (directory : Path) : Script (List Path) :=
  (exampleScript request.format request.plan directory catalog.allExamples).after
    (.makeDirectories directory)

end Catalog
end GoldenCircuit
