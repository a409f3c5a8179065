import Mathlib.Data.List.Forall2
import GoldenCircuit.ExampleSet
import GoldenCircuit.Proofs.Disk
import GoldenCircuit.Proofs.Generation

/-! The directory of examples. Every file in it is what its example, asked for alone, is generated
into, and the first example that fails ends the set. -/
namespace GoldenCircuit

theorem Desk.bytes_eq (specimen : Specimen) (format : Format) (plan : RunPlan) :
    bytes specimen format plan =
      (((writing specimen (write format plan)).after .unbounded).written,
        (writing specimen (write format plan)).outcome .unbounded) := by
  unfold bytes Action.after Action.outcome writing
  cases write format plan { specimen, sink := .unbounded } <;> rfl

namespace Catalog

/-- A file of the set, and the request that asks for its text alone. -/
structure Task where
  fileName : String
  request : Request

/-- The files of all examples of all families, in order. Each is asked for by the position of its
family and its argument string, in the format and by the plan of the whole set. -/
def tasks (catalog : Catalog) (request : Request) : List Task :=
  catalog.families.zipIdx.flatMap fun (family, position) =>
    family.examples.map fun args =>
      { fileName := exampleName family args request.format
        request := { request with selection := .index (.ofNat position), args := some args } }

namespace Task

/-- How generating the text ends. -/
def outcome (catalog : Catalog) (task : Task) : Except Fault Unit :=
  (catalog.generate task.request).outcome .unbounded

/-- The file with all that is written of the text. -/
def file (catalog : Catalog) (task : Task) : String × ByteArray :=
  (task.fileName, ((catalog.generate task.request).after .unbounded).written)

/-- What is left of the task when it fails: its file, or nothing if its circuit cannot be built. -/
def leaves (catalog : Catalog) (task : Task) : List (String × ByteArray) :=
  match catalog.instantiate task.request.selection task.request.args with
  | .ok _ => [task.file catalog]
  | .error _ => []

end Task

/-! ### The script -/

def fileStep (directory : Path) (file : String × ByteArray) : Step :=
  .writeFile (directory.join file.1) file.2

/-- The script of the set, task by task. -/
def taskScript (catalog : Catalog) (directory : Path) : List Task → Script (List Path)
  | [] => ⟨[], .ok []⟩
  | task :: tasks =>
    match task.outcome catalog with
    | .error fault => ⟨(task.leaves catalog).map (fileStep directory), .error fault⟩
    | .ok () =>
      let rest := taskScript catalog directory tasks
      { steps := fileStep directory (task.file catalog) :: rest.steps
        ending := rest.ending.map (directory.join task.fileName :: ·) }

/-- The task asks for an example of a family. -/
structure Task.AsksFor (catalog : Catalog) (request : Request) (posed : Family × String)
    (task : Task) : Prop where
  fileName : task.fileName = exampleName posed.1 posed.2 request.format
  built : catalog.instantiate task.request.selection task.request.args = posed.1.ofArgs posed.2
  format : task.request.format = request.format
  plan : task.request.plan = request.plan

theorem asksFor_tasks {catalog : Catalog} (size : catalog.size ≤ UInt64.size) (request : Request) :
    List.Forall₂ (Task.AsksFor catalog request) catalog.allExamples (catalog.tasks request) := by
  have placed : List.Forall₂ (fun family pair => family = pair.1 ∧
      catalog.families[pair.2]? = some pair.1) (catalog.families.zipIdx.map Prod.fst)
        catalog.families.zipIdx := by
    rw [List.forall₂_map_left_iff, List.forall₂_same]
    exact fun pair member => ⟨rfl, List.mem_zipIdx_iff_getElem?.mp member⟩
  rw [List.zipIdx_map_fst] at placed
  refine List.rel_flatMap placed ?_
  rintro family ⟨_, position⟩ ⟨rfl, found⟩
  rw [List.forall₂_map_left_iff, List.forall₂_map_right_iff, List.forall₂_same]
  intro args _
  have position_lt : position < UInt64.size :=
    Nat.lt_of_lt_of_le (List.getElem?_eq_some_iff.mp found).1 size
  have selected : catalog.select (.index (.ofNat position)) = .ok family := by
    rw [select, UInt64.toNat_ofNat_of_lt' position_lt, get, found]
  constructor
  · rfl
  · simp only [instantiate, selected, bind, Except.bind]
  · rfl
  · rfl

namespace Task

variable {catalog : Catalog} {task : Task}

theorem outcome_of_error {fault : Fault}
    (refused : catalog.instantiate task.request.selection task.request.args = .error fault) :
    task.outcome catalog = .error fault :=
  Action.outcome_of_error (generate_of_error refused .unbounded)

/-- Where the circuit can be built, generating it alone comes to the bytes of the set. -/
theorem bytes_of_ok {specimen : Specimen}
    (built : catalog.instantiate task.request.selection task.request.args = .ok specimen) :
    Desk.bytes specimen task.request.format task.request.plan =
      ((task.file catalog).2, task.outcome catalog) := by
  have alone := @generate_of_ok _ _ _ built .unbounded rfl
  have writing := congrFun (Delivery.writing_eq specimen task.request.format task.request.plan)
    .unbounded
  rw [Desk.bytes_eq, file, outcome, Action.after, Action.outcome, writing, ← alone]
  rfl

end Task

theorem exampleScript_eq {catalog : Catalog} {request : Request} {posed : List (Family × String)}
    {tasks : List Task} (asked : List.Forall₂ (Task.AsksFor catalog request) posed tasks)
    (directory : Path) :
    exampleScript request.format request.plan directory posed =
      taskScript catalog directory tasks := by
  induction asked with
  | nil => rfl
  | @cons pair task posed tasks first rest ih =>
    obtain ⟨family, args⟩ := pair
    obtain ⟨fileName, same, format, plan⟩ := first
    rw [exampleScript, taskScript, ← fileName, ih]
    cases built : family.ofArgs args with
    | error fault =>
      -- Without a circuit there is no file, and asking for the example alone fails alike.
      have refused := same.trans built
      rw [Task.outcome_of_error refused, Task.leaves, refused]
      rfl
    | ok specimen =>
      have built := same.trans built
      have bytes := Task.bytes_of_ok built
      rw [format, plan] at bytes
      simp only [bytes, Task.leaves, built]
      cases task.outcome catalog <;> rfl

theorem taskScript_of_ok {catalog : Catalog} (directory : Path) {tasks : List Task}
    (succeed : ∀ task ∈ tasks, task.outcome catalog = .ok ()) :
    taskScript catalog directory tasks =
      { steps := (tasks.map (·.file catalog)).map (fileStep directory)
        ending := .ok (tasks.map (directory.join ·.fileName)) } := by
  induction tasks with
  | nil => rfl
  | cons task tasks ih =>
    have later := ih fun other member => succeed other (List.mem_cons_of_mem _ member)
    rw [taskScript, succeed task List.mem_cons_self, later]
    rfl

theorem taskScript_of_error {catalog : Catalog} (directory : Path) {done : List Task} {task : Task}
    {fault : Fault} (succeed : ∀ earlier ∈ done, earlier.outcome catalog = .ok ())
    (fails : task.outcome catalog = .error fault) (later : List Task) :
    taskScript catalog directory (done ++ task :: later) =
      { steps := (done.map (·.file catalog) ++ task.leaves catalog).map (fileStep directory)
        ending := .error fault } := by
  induction done with
  | nil => simp only [List.nil_append, taskScript, fails, List.map_nil]
  | cons first done ih =>
    have rest := ih fun other member => succeed other (List.mem_cons_of_mem _ member)
    rw [List.cons_append, taskScript, succeed first List.mem_cons_self, rest]
    rfl

end Catalog

/-! ### The run -/

/-- Carries out steps, one after the other. -/
def performAll (steps : List Step) : Action Disk Unit :=
  steps.forM fun step => step.perform.adaptExcept .io

theorem performAll_cons {step : Step} {disk between : Disk}
    (performed : step.perform disk = .ok () between) (steps : List Step) :
    performAll (step :: steps) disk = performAll steps between := by
  have adapted : (step.perform.adaptExcept .io : Action Disk Unit) disk = .ok () between := by
    simp only [EStateM.adaptExcept, performed]
  exact Action.bind_of_ok adapted _

theorem Script.run_of_performed {Answer : Type} {script : Script Answer} {disk final : Disk}
    (performed : performAll script.steps disk = .ok () final) :
    script.run disk = Script.run ⟨[], script.ending⟩ final :=
  Action.bind_of_ok performed _

/-- Files can be written into a directory one after the other. -/
theorem Disk.Holds.writeAll {disk : Disk} {directory : Path} {place : Location}
    {files more : List (String × ByteArray)} (holds : disk.Holds place files)
    (leads : disk.LeadsTo directory place)
    (named : ∀ file ∈ more, Path.IsName file.1) (accepts : ∀ file ∈ more, directory.Accepts file.1)
    (once : ((files ++ more).map Prod.fst).Nodup) :
    ∃ final, performAll (more.map (Catalog.fileStep directory)) disk = .ok () final ∧
      final.LeadsTo directory place ∧ final.Holds place (files ++ more) := by
  induction more generalizing disk files with
  | nil => exact ⟨disk, rfl, leads, by rwa [List.append_nil]⟩
  | cons file more ih =>
    have unused : file.1 ∉ files.map Prod.fst := by
      rw [List.map_append, List.map_cons] at once
      exact fun member => (List.nodup_append.mp once).2.2 _ member _ List.mem_cons_self rfl
    obtain ⟨written, wrote, leads_on, holds_one⟩ := holds.write leads
      (named file List.mem_cons_self) (accepts file List.mem_cons_self) unused file.2
    obtain ⟨final, performed, leads_all, holds_all⟩ := ih holds_one leads_on
      (fun other member => named other (List.mem_cons_of_mem _ member))
      (fun other member => accepts other (List.mem_cons_of_mem _ member)) (by simpa using once)
    have step : (Catalog.fileStep directory file).perform disk = .ok () written := by
      rw [Catalog.fileStep, Step.perform, Disk.single_eq_ok_iff]
      exact wrote
    refine ⟨final, ?_, leads_all, by simpa using holds_all⟩
    rw [List.map_cons, performAll_cons step, performed]

namespace Catalog

variable {catalog : Catalog} {request : Request} {directory : Path} {disk made : Disk}
  {place : Location}

/-- The hyphen makes the name of an example differ from the steps that lead nowhere and up. -/
theorem isName_of_mem_tasks {task : Task} (member : task ∈ catalog.tasks request)
    (whole : '/' ∉ task.fileName.toList) : Path.IsName task.fileName := by
  obtain ⟨⟨family, position⟩, _, example_mem⟩ := List.mem_flatMap.mp member
  obtain ⟨args, _, rfl⟩ := List.mem_map.mp example_mem
  have joined : '-' ∈ (exampleName family args request.format).toList := by
    simp [exampleName]
  have other {text : String} (plain : '-' ∉ text.toList) :
      exampleName family args request.format ≠ text :=
    fun same => plain (same ▸ joined)
  exact ⟨⟨other (by decide), whole⟩, other (by decide), other (by decide)⟩

/-- If the script of the set comes to some of the files, it leaves these in the target and nothing
else. -/
theorem run_examples (target : disk.Target directory made place)
    (once : ((catalog.tasks request).map (·.fileName)).Nodup)
    (accepts : ∀ task ∈ catalog.tasks request, directory.Accepts task.fileName)
    {files : List (String × ByteArray)} {ending : Except Fault (List Path)}
    (script : exampleScript request.format request.plan directory catalog.allExamples =
      { steps := files.map (fileStep directory), ending })
    (among : (files.map Prod.fst).Sublist ((catalog.tasks request).map (·.fileName))) :
    ∃ final, (catalog.examples request directory).run disk = Script.run ⟨[], ending⟩ final ∧
      final.LeadsTo directory place ∧ final.Holds place files := by
  have asked : ∀ file ∈ files, ∃ task ∈ catalog.tasks request, task.fileName = file.1 :=
    fun file member => List.mem_map.mp (among.subset (List.mem_map_of_mem member))
  have accepted : ∀ file ∈ files, directory.Accepts file.1 := by
    intro file member
    obtain ⟨task, task_mem, same⟩ := asked file member
    exact same ▸ accepts task task_mem
  have named : ∀ file ∈ files, Path.IsName file.1 := by
    intro file member
    obtain ⟨task, task_mem, same⟩ := asked file member
    exact same ▸ isName_of_mem_tasks task_mem (accepts task task_mem).whole
  obtain ⟨final, performed, left⟩ := target.holds.writeAll target.leadsTo named accepted
    (among.nodup once)
  refine ⟨final, ?_, left⟩
  have created : (Step.makeDirectories directory).perform disk = .ok () made := target.created
  rw [examples, script, Script.after]
  exact Script.run_of_performed ((performAll_cons created _).trans performed)

/-- What becomes of a target when the examples are written into it. If all of them succeed, the
target holds a file for each, and their paths are answered in order. If not, it holds the files of
those before the first one that fails, and what that one leaves. A catalog has no more families than
there are positions to ask for. -/
theorem examples_run (target : disk.Target directory made place)
    (size : catalog.size ≤ UInt64.size)
    (once : ((catalog.tasks request).map (·.fileName)).Nodup)
    (accepts : ∀ task ∈ catalog.tasks request, directory.Accepts task.fileName) :
    ((∀ task ∈ catalog.tasks request, task.outcome catalog = .ok ()) →
      ∃ final, (catalog.examples request directory).run disk =
          .ok ((catalog.tasks request).map (directory.join ·.fileName)) final ∧
        final.LeadsTo directory place ∧
        final.Holds place ((catalog.tasks request).map (·.file catalog))) ∧
    ∀ done task later fault, catalog.tasks request = done ++ task :: later →
      (∀ earlier ∈ done, earlier.outcome catalog = .ok ()) →
      task.outcome catalog = .error fault →
      ∃ final, (catalog.examples request directory).run disk = .error fault final ∧
        final.LeadsTo directory place ∧
        final.Holds place (done.map (·.file catalog) ++ task.leaves catalog) := by
  have script := exampleScript_eq (asksFor_tasks size request) directory
  constructor
  · intro succeed
    rw [taskScript_of_ok directory succeed] at script
    refine run_examples target once accepts script ?_
    rw [List.map_map]
    exact List.Sublist.refl _
  · intro done task later fault split succeed fails
    rw [split, taskScript_of_error directory succeed fails later] at script
    refine run_examples target once accepts script ?_
    have left : ((task.leaves catalog).map Prod.fst).Sublist [task.fileName] := by
      unfold Task.leaves
      split
      · exact List.Sublist.refl _
      · exact List.nil_sublist _
    rw [split, List.map_append, List.map_append, List.map_map]
    exact (List.Sublist.refl _).append (left.trans (by simp))

/-- A family whose second example has no circuit. -/
def gapped : Family where
  name := "gapped"
  examples := ["1", "2", "3"]
  standard := AndTree.standard.specimen
  ofArgs args :=
    if args = "2" then .error (.unreadableArgs "gapped" args "an odd number")
    else .ok AndTree.standard.specimen

/-- Neither the target nor the directory above it is there before. The second example fails, so that
the first one has the target for itself. -/
theorem examples_run_of_gapped :
    let catalog := Catalog.empty.link gapped
    let disk : Disk := { entries := [(["home"], .directory)], workingDirectory := ["home"] }
    ∃ final, (catalog.examples {} ⟨"out/golden"⟩).run disk =
        .error (.unreadableArgs "gapped" "2" "an odd number") final ∧
      final.LeadsTo ⟨"out/golden"⟩ ["home", "out", "golden"] ∧
      final.Holds ["home", "out", "golden"] [("gapped-1.flo",
        ((catalog.generate { args := some "1" }).after .unbounded).written)] := by
  intro catalog disk
  have target : disk.Target ⟨"out/golden"⟩
      { entries := [(["home", "out", "golden"], .directory), (["home", "out"], .directory),
          (["home"], .directory)]
        workingDirectory := ["home"] } ["home", "out", "golden"] := by
    refine ⟨rfl, by rfl, by rfl, fun below _ => ?_, fun up => absurd up (by decide)⟩
    simp [disk, Disk.find?]
  exact (examples_run target (by decide) (by decide) (by decide)).2
    [⟨"gapped-1.flo", { args := some "1" }⟩] ⟨"gapped-2.flo", { args := some "2" }⟩
    [⟨"gapped-3.flo", { args := some "3" }⟩] _ rfl (List.forall_mem_singleton.mpr rfl) rfl

end Catalog
end GoldenCircuit
