import GoldenCircuit.CommandLine.Command
import GoldenCircuit.Proofs.AndTree.GoldenRun
import GoldenCircuit.Proofs.Disk.File
import GoldenCircuit.Proofs.ExampleSet
import GoldenCircuit.Proofs.Generation

/-! What a command line that asks for one circuit leaves behind. The text of the circuit goes to the
standard output or to a file, and the file is emptied even if there is no text for it. -/
namespace GoldenCircuit

/-! ### The built-in catalog -/

/-- The built-in catalog has trees only. -/
theorem Catalog.exists_tree_of_instantiate {selection : Selection} {args : Option String}
    {specimen : Specimen} (built : builtin.instantiate selection args = .ok specimen) :
    ∃ tree : AndTree, specimen = tree.specimen := by
  have only : builtin.families = [AndTree.family] := rfl
  obtain ⟨family, selected, built⟩ := bind_eq_ok_iff.mp built
  have is_tree : family = AndTree.family := by
    cases selection with
    | index place =>
      simp only [select, get, only] at selected
      split at selected
      next found =>
        cases selected
        exact List.mem_singleton.mp (List.mem_of_getElem? found)
      next => contradiction
    | name name =>
      simp only [select, find, only] at selected
      split at selected
      next found =>
        cases selected
        exact List.mem_singleton.mp (List.mem_of_find?_eq_some found)
      next => contradiction
  subst is_tree
  cases args with
  | none =>
    cases built
    exact ⟨.standard, rfl⟩
  | some args =>
    cases read : AndTree.ofArgs args with
    | error fault => simp [AndTree.family, read, Except.map] at built
    | ok tree =>
      simp only [AndTree.family, read, Except.map, Except.ok.injEq] at built
      exact ⟨tree, built.symm⟩

/-- A tree that was just built has a golden run, so that it can be written in every format. -/
theorem AndTree.ending_ofSpecimen (tree : AndTree) (format : Format) (plan : RunPlan) :
    (Delivery.ofSpecimen tree.specimen format plan).ending = .ok () := by
  have reached : Reached tree tree.specimen := tree.reached_performing []
  obtain ⟨left, run, _⟩ := reached.goldenRun plan
  rw [Delivery.ofSpecimen, Action.outcome_of_ok run]
  cases format <;> rfl

namespace Catalog

variable {catalog : Catalog} {request : Request} {fault : Fault}

theorem written_of_refused
    (refused : catalog.instantiate request.selection request.args = .error fault) :
    ((catalog.generate request).after .unbounded).written = .empty := by
  rw [Action.after_of_error (generate_of_error refused _)]
  rfl

/-- With the built-in catalog, generating fails only because there is no such circuit. -/
theorem instantiate_of_outcome (failed : (builtin.generate request).outcome .unbounded =
    .error fault) : builtin.instantiate request.selection request.args = .error fault := by
  cases built : builtin.instantiate request.selection request.args with
  | error other =>
    rw [Action.outcome_of_error (generate_of_error built _)] at failed
    cases failed
    rfl
  | ok specimen =>
    obtain ⟨tree, rfl⟩ := exists_tree_of_instantiate built
    have delivered := @Delivery.outcome_perform_unbounded
      (Delivery.ofSpecimen tree.specimen request.format request.plan) .unbounded rfl
    rw [Action.outcome, generate_of_ok built rfl, ← Action.outcome, delivered,
      tree.ending_ofSpecimen] at failed
    contradiction

end Catalog

theorem Script.run_writeFile {Answer : Type} (path : Path) (content : ByteArray)
    (ending : Except Fault Answer) (disk : Disk) :
    Script.run ⟨[.writeFile path content], ending⟩ disk =
      match disk.writeFile path content with
      | .ok written => Script.run ⟨[], ending⟩ written
      | .error cause => .error (.io cause) disk := by
  have performed : (Step.writeFile path content).perform disk =
      Disk.Changes.single (·.writeFile path content) disk :=
    rfl
  cases wrote : disk.writeFile path content with
  | ok written =>
    rw [Disk.Changes.single, wrote] at performed
    exact Script.run_of_performed (performAll_cons performed [])
  | error cause =>
    rw [Disk.Changes.single, wrote] at performed
    have adapted : ((Step.writeFile path content).perform.adaptExcept .io : Action Disk Unit) disk =
        .error (.io cause) disk := by
      simp only [EStateM.adaptExcept, performed]
    exact Action.bind_of_error (Action.bind_of_error adapted _) _

namespace CommandLine

/-! ### The command -/

/-- The report on a circuit that was generated, or not, apart from its text. -/
def Report.ofOutcome : Except Fault Unit → Report
  | .ok () => .success .empty
  | .error fault => .failure none fault

section Generate

variable (catalog : Catalog) (request : Request) (disk : Disk)

theorem generateScript_eq (output : Option Path) :
    Command.generateScript catalog output request =
      let text := ((catalog.generate request).after .unbounded).written
      let report := Report.ofOutcome ((catalog.generate request).outcome .unbounded)
      match output with
      | none => ⟨[], .ok { report with stdout := text }⟩
      | some path => ⟨[.writeFile path text], .ok report⟩ := by
  unfold Command.generateScript Action.after Action.outcome
  cases catalog.generate request .unbounded <;> rfl

theorem run_generate_none : (Command.generate none request).run catalog disk =
    ({ Report.ofOutcome ((catalog.generate request).outcome .unbounded) with
        stdout := ((catalog.generate request).after .unbounded).written }, disk) := by
  rw [Command.run, Command.script, generateScript_eq]
  rfl

/-- A text that cannot be written to the file is reported, whatever became of the circuit. -/
theorem run_generate_some (path : Path) : (Command.generate (some path) request).run catalog disk =
    match disk.writeFile path ((catalog.generate request).after .unbounded).written with
    | .ok written => (Report.ofOutcome ((catalog.generate request).outcome .unbounded), written)
    | .error cause => (.failure (some ("Failed to create " ++ path.text)) (.io cause), disk) := by
  simp only [Command.run, Command.script, generateScript_eq, Script.run_writeFile]
  cases disk.writeFile path ((catalog.generate request).after .unbounded).written <;> rfl

variable {catalog request disk}

/-- A circuit that was generated is all that the file holds, if there can be a file. -/
theorem run_generate_some_of_ok {path : Path} {created : Disk}
    (generated : (catalog.generate request).outcome .unbounded = .ok ())
    (creates : disk.writeFile path .empty = .ok created) :
    ∃ place left, (Command.generate (some path) request).run catalog disk =
        (.success .empty, left) ∧
      left.file? path = some (place, ((catalog.generate request).after .unbounded).written) ∧
      Disk.SameBut (· = place) disk left := by
  obtain ⟨place, left, wrote, found, same⟩ := Disk.file?_of_writeFile creates
    ((catalog.generate request).after .unbounded).written
  refine ⟨place, left, ?_, found, same⟩
  rw [run_generate_some, wrote, generated]
  rfl

/-- Nothing is printed for a circuit that there is not, whether there can be a file or not. -/
theorem run_generate_of_refused {fault : Fault}
    (refused : catalog.instantiate request.selection request.args = .error fault)
    (output : Option Path) :
    ((Command.generate output request).run catalog disk).1.code = 1 ∧
      ((Command.generate output request).run catalog disk).1.stdout = .empty := by
  have ended := Action.outcome_of_error (Catalog.generate_of_error refused .unbounded)
  have empty := Catalog.written_of_refused refused
  cases output with
  | none =>
    rw [run_generate_none, ended, empty]
    exact ⟨rfl, rfl⟩
  | some path =>
    rw [run_generate_some, ended, empty]
    split
    next => exact ⟨rfl, rfl⟩
    next => exact ⟨rfl, rfl⟩

end Generate

/-! ### The command line -/

/-- Not all examples and one output can be asked for. -/
theorem examplesDir_eq_none {words : List String} {options : Options}
    (accepted : Options.ofWords words = .ok options) {path : String}
    (output : options.output = some path) : options.examplesDir = none := by
  unfold Options.ofWords at accepted
  cases read : readWords {} none words with
  | error refusal => simp [read, bind, Except.bind] at accepted
  | ok taken =>
    simp only [read, bind, Except.bind] at accepted
    split at accepted
    next => cases accepted
    next compatible =>
      cases accepted
      have apart := List.find?_eq_none.mp compatible (.examplesDir, .output) (by decide)
      simpa [Options.has, output] using apart

theorem run_of_ofWords {words : List String} {options : Options}
    (accepted : Options.ofWords words = .ok options) (single : options.list = false)
    (one : options.examplesDir = none) (catalog : Catalog) (disk : Disk) :
    run catalog words disk =
      (Command.generate (options.output.map Path.mk) options.request).run catalog disk := by
  have invoked : Invocation.ofWords words =
      .ok { logLevel := .ofVerbosity options.verbosity
            command := .generate (options.output.map Path.mk) options.request } := by
    rw [Invocation.ofWords, accepted]
    simp [Command.ofOptions, single, one, bind, Except.bind, pure, Except.pure]
  simp only [run, invoked]

/-- The program asks for a circuit by name, or else by index, or else for the first one. -/
theorem request_eq (options : Options) :
    options.request =
      { selection := (options.pattern.map Selection.name).getD (.index (options.index.getD 0))
        args := options.args
        format := options.format.getD .flo
        plan :=
          { cycles := options.cycles.getD 16, seed := options.seed.getD Stimulus.defaultSeed } } := by
  unfold Options.request
  cases options.pattern <;> cases options.index <;> rfl

/-- What becomes of a command line that asks for one circuit of the built-in catalog. If the circuit
can be generated, its text is all that is printed, or all that the file holds. If it cannot, nothing
is printed. -/
theorem run_builtin {words : List String} {options : Options}
    (accepted : Options.ofWords words = .ok options) (single : options.list = false)
    (one : options.examplesDir = none) (disk : Disk) :
    let request : Request :=
      { selection := (options.pattern.map Selection.name).getD (.index (options.index.getD 0))
        args := options.args
        format := options.format.getD .flo
        plan :=
          { cycles := options.cycles.getD 16, seed := options.seed.getD Stimulus.defaultSeed } }
    let text := ((Catalog.builtin.generate request).after .unbounded).written
    let outcome := (Catalog.builtin.generate request).outcome .unbounded
    let report := (run .builtin words disk).1
    let left := (run .builtin words disk).2
    (outcome = .ok () →
      (options.output = none → report.code = 0 ∧ report.stdout = text ∧ left = disk) ∧
      ∀ path, options.output = some path →
        (∃ created, disk.writeFile ⟨path⟩ .empty = .ok created) →
        report.code = 0 ∧ report.stdout = .empty ∧ ∃ place,
          left.file? ⟨path⟩ = some (place, text) ∧ Disk.SameBut (· = place) disk left) ∧
    ∀ fault, outcome = .error fault → report.code = 1 ∧ report.stdout = .empty := by
  intro request text outcome report left
  have asked : options.request = request := request_eq options
  have ran : run .builtin words disk =
      (Command.generate (options.output.map Path.mk) request).run .builtin disk :=
    asked ▸ run_of_ofWords accepted single one .builtin disk
  constructor
  · intro generated
    constructor
    · intro shown
      have printed : run .builtin words disk =
          ({ Report.ofOutcome (.ok ()) with stdout := text }, disk) := by
        rw [ran, shown, ← generated]
        exact run_generate_none ..
      exact ⟨congrArg (·.1.code) printed, congrArg (·.1.stdout) printed, congrArg (·.2) printed⟩
    · rintro path output ⟨created, creates⟩
      obtain ⟨place, written, left_by, found, same⟩ := run_generate_some_of_ok generated creates
      have filed : run .builtin words disk = (.success .empty, written) := by
        rw [ran, output]
        exact left_by
      have left_eq : left = written := congrArg (·.2) filed
      exact ⟨congrArg (·.1.code) filed, congrArg (·.1.stdout) filed, place, left_eq ▸ found,
        left_eq ▸ same⟩
  · intro fault failed
    have refused := Catalog.instantiate_of_outcome failed
    have report_eq : report = _ := congrArg (·.1) ran
    rw [report_eq]
    exact run_generate_of_refused refused _

/-- A small tree for a file in the working directory. -/
def asksForTree : List String :=
  ["--args", "2-1", "--cycles", "3", "-o", "tree.flo"]

theorem run_builtin_of_asksForTree :
    let text := ((Catalog.builtin.generate
      { args := some "2-1", plan := { cycles := 3 } }).after .unbounded).written
    let report := (run .builtin asksForTree .empty).1
    let left := (run .builtin asksForTree .empty).2
    report.code = 0 ∧ report.stdout = .empty ∧ ∃ place,
      left.file? ⟨"tree.flo"⟩ = some (place, text) ∧ Disk.SameBut (· = place) .empty left := by
  have accepted : Options.ofWords asksForTree =
      .ok { args := some "2-1", cycles := some 3, output := some "tree.flo" } := by
    decide +kernel
  exact ((run_builtin accepted rfl rfl .empty).1 (by decide +kernel)).2 "tree.flo" rfl ⟨_, rfl⟩

/-- If there is no such circuit, a file that is there is emptied all the same, and no other file
changes. -/
theorem run_of_refused {words : List String} {options : Options}
    (accepted : Options.ofWords words = .ok options) (single : options.list = false) {path : String}
    (output : options.output = some path) {disk : Disk} {place : Location} {old : ByteArray}
    (there : disk.file? ⟨path⟩ = some (place, old)) {catalog : Catalog} {fault : Fault}
    (refused : catalog.instantiate options.request.selection options.request.args =
      .error fault) :
    (run catalog words disk).1 = .failure none fault ∧
      (run catalog words disk).2.file? ⟨path⟩ = some (place, .empty) ∧
      Disk.SameBut (· = place) disk (run catalog words disk).2 := by
  obtain ⟨left, wrote, found, same⟩ := Disk.file?_writeFile there .empty
  have ended := Action.outcome_of_error (Catalog.generate_of_error refused .unbounded)
  have ran : run catalog words disk = (.failure none fault, left) := by
    rw [run_of_ofWords accepted single (examplesDir_eq_none accepted output), output,
      Option.map_some, run_generate_some, Catalog.written_of_refused refused, wrote, ended]
    rfl
  rw [ran]
  exact ⟨rfl, found, same⟩

/-- Arguments that describe no tree, for a file that may be there. -/
def mistyped : List String :=
  ["--args", "bogus", "-o", "out.flo"]

/-- A good circuit, and another file. -/
def diskOfGood : Disk where
  entries := [(["out.flo"], .file "old".toUTF8), (["notes"], .file "kept".toUTF8)]

theorem run_of_refused_of_mistyped :
    (run .builtin mistyped diskOfGood).1 =
        .failure none (.unreadableArgs AndTree.familyName "bogus" AndTree.argsShape) ∧
      (run .builtin mistyped diskOfGood).2.file? ⟨"out.flo"⟩ = some (["out.flo"], .empty) ∧
      Disk.SameBut (· = ["out.flo"]) diskOfGood (run .builtin mistyped diskOfGood).2 := by
  have accepted : Options.ofWords mistyped =
      .ok { args := some "bogus", output := some "out.flo" } := by
    decide +kernel
  have there : diskOfGood.file? ⟨"out.flo"⟩ = some (["out.flo"], "old".toUTF8) := by
    decide +kernel
  exact run_of_refused accepted rfl rfl there rfl

/-- The file does not stay as it was when its circuit is refused. -/
theorem file_changed_of_mistyped :
    (run .builtin mistyped diskOfGood).1.code = 1 ∧
      Catalog.builtin.instantiate (.index 0) (some "bogus") =
        .error (.unreadableArgs AndTree.familyName "bogus" AndTree.argsShape) ∧
      diskOfGood.file? ⟨"out.flo"⟩ = some (["out.flo"], "old".toUTF8) ∧
      (run .builtin mistyped diskOfGood).2.file? ⟨"out.flo"⟩ ≠ diskOfGood.file? ⟨"out.flo"⟩ := by
  refine ⟨?_, rfl, ?_, ?_⟩
  all_goals decide +kernel

end CommandLine
end GoldenCircuit
