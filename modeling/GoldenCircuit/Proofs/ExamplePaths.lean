import Mathlib.Data.List.Nodup
import GoldenCircuit.Proofs.Disk.File
import GoldenCircuit.Proofs.ExampleSet

/-! The files that a set of examples leaves. The name of a file joins the name of a family and an
argument string by a hyphen, which may stand in both, so that two examples can have one path. The one
that is written last is what the path leads to then. -/
namespace GoldenCircuit

/-! ### Writing files one after the other -/

theorem performAll_cons_eq_ok_iff {step : Step} {steps : List Step} {disk final : Disk} :
    performAll (step :: steps) disk = .ok () final ↔
      ∃ between, step.perform disk = .ok () between ∧ performAll steps between = .ok () final := by
  have adapted (between : Disk) : (step.perform.adaptExcept .io : Action Disk Unit) disk =
      .ok () between ↔ step.perform disk = .ok () between := by
    simp only [EStateM.adaptExcept]
    cases step.perform disk <;> simp
  show ((step.perform.adaptExcept .io : Action Disk Unit) >>= fun _ => performAll steps) disk =
    .ok () final ↔ _
  rw [Action.bind_eq_ok_iff]
  simp [adapted]

theorem Script.run_eq_ok_iff {Answer : Type} {script : Script Answer} {disk final : Disk}
    {answer : Answer} : script.run disk = .ok answer final ↔
      script.ending = .ok answer ∧ performAll script.steps disk = .ok () final := by
  show (performAll script.steps >>= fun _ => _) disk = _ ↔ _
  rw [Action.bind_eq_ok_iff]
  cases script.ending with
  | ok given =>
    constructor
    · rintro ⟨⟨⟩, between, performed, ended⟩
      cases ended
      exact ⟨rfl, performed⟩
    · rintro ⟨same, performed⟩
      cases same
      exact ⟨(), final, performed, rfl⟩
  | error fault =>
    constructor
    · rintro ⟨_, _, _, ended⟩
      cases ended
    · rintro ⟨same, _⟩
      cases same

/-- Steps that write these contents to these paths. -/
def writeSteps (files : List (Path × ByteArray)) : List Step :=
  files.map fun file => .writeFile file.1 file.2

theorem performAll_writeSteps_cons {disk final : Disk} {file : Path × ByteArray}
    {files : List (Path × ByteArray)} :
    performAll (writeSteps (file :: files)) disk = .ok () final ↔
      ∃ between, disk.writeFile file.1 file.2 = .ok between ∧
        performAll (writeSteps files) between = .ok () final := by
  have first (between : Disk) : (Step.writeFile file.1 file.2).perform disk = .ok () between ↔
      disk.writeFile file.1 file.2 = .ok between :=
    @Disk.single_eq_ok_iff disk between (·.writeFile file.1 file.2)
  rw [writeSteps, List.map_cons, performAll_cons_eq_ok_iff]
  simp only [first, writeSteps]

namespace Disk

variable {disk final : Disk} {files : List (Path × ByteArray)}

/-- A file stays where it is while others are written, and holds what it held unless one of them is
written to its place. -/
theorem file?_after_writeSteps {path : Path} {place : Location} {old : ByteArray}
    (there : disk.file? path = some (place, old))
    (done : performAll (writeSteps files) disk = .ok () final) :
    ∃ content, final.file? path = some (place, content) ∧
      ((∀ file ∈ files, (final.file? file.1).map Prod.fst ≠ some place) → content = old) := by
  -- A write may lead to the place by another path, so what is kept is where the path leads, and the
  -- content only as long as no write has led there.
  induction files generalizing disk path place old with
  | nil =>
    cases done
    exact ⟨old, there, fun _ => rfl⟩
  | cons file files ih =>
    obtain ⟨between, wrote, rest⟩ := performAll_writeSteps_cons.mp done
    obtain ⟨taken, written, kept⟩ := file?_after_writeFile there wrote
    obtain ⟨content, found, untouched⟩ := ih kept rest
    refine ⟨content, found, fun apart => ?_⟩
    obtain ⟨apart_first, apart_rest⟩ := List.forall_mem_cons.mp apart
    obtain ⟨_, last, _⟩ := ih written rest
    have other : place ≠ taken := by
      rintro rfl
      exact apart_first (congrArg (Option.map Prod.fst) last)
    rw [untouched apart_rest, if_neg other]

/-- Each path leads to a file, and of those that lead to one place the file holds what was written
last. -/
theorem file?_of_writeSteps {before after : List (Path × ByteArray)} {file : Path × ByteArray}
    (done : performAll (writeSteps (before ++ file :: after)) disk = .ok () final) :
    ∃ place content, final.file? file.1 = some (place, content) ∧
      ((∀ later ∈ after, (final.file? later.1).map Prod.fst ≠ some place) → content = file.2) := by
  induction before generalizing disk with
  | nil =>
    obtain ⟨between, wrote, rest⟩ := performAll_writeSteps_cons.mp done
    obtain ⟨place, _, same, there, _⟩ := file?_of_writeFile wrote file.2
    rw [wrote] at same
    obtain rfl := Except.ok.inj same
    exact ⟨place, file?_after_writeSteps there rest⟩
  | cons first before ih =>
    obtain ⟨between, _, rest⟩ := performAll_writeSteps_cons.mp done
    exact ih rest

end Disk

namespace Catalog

variable {catalog : Catalog} {request : Request} {directory : Path} {format : Format}
  {plan : RunPlan}

/-! ### The script of a set that succeeds -/

/-- The path of the file that an example is written to. -/
def examplePath (directory : Path) (format : Format) (posed : Family × String) : Path :=
  directory.join (exampleName posed.1 posed.2 format)

/-- The text of an example. There is none if its circuit cannot be built. -/
def exampleText (format : Format) (plan : RunPlan) (posed : Family × String) : ByteArray :=
  match posed.1.ofArgs posed.2 with
  | .ok specimen => (Desk.bytes specimen format plan).1
  | .error _ => .empty

/-- The example has a circuit, which is written to its end. -/
def Succeeds (format : Format) (plan : RunPlan) (posed : Family × String) : Prop :=
  ∃ specimen, posed.1.ofArgs posed.2 = .ok specimen ∧
    Desk.bytes specimen format plan = (exampleText format plan posed, .ok ())

theorem succeeds_of_ok {posed : Family × String} {specimen : Specimen}
    (built : posed.1.ofArgs posed.2 = .ok specimen)
    (ended : (Desk.bytes specimen format plan).2 = .ok ()) : Succeeds format plan posed := by
  refine ⟨specimen, built, ?_⟩
  rw [exampleText, built, ← ended]

/-- Where all examples succeed, each is written to its path. -/
theorem exampleScript_of_succeeds (directory : Path) {posed : List (Family × String)}
    (all : ∀ pair ∈ posed, Succeeds format plan pair) :
    exampleScript format plan directory posed =
      { steps := writeSteps (posed.map fun pair => (examplePath directory format pair,
          exampleText format plan pair))
        ending := .ok (posed.map (examplePath directory format)) } := by
  induction posed with
  | nil => rfl
  | cons pair posed ih =>
    obtain ⟨⟨specimen, built, bytes⟩, others⟩ := List.forall_mem_cons.mp all
    rw [exampleScript, ih others]
    simp only [built, bytes]
    rfl

/-- A script that ends well is one of examples that all succeed. -/
theorem succeeds_of_exampleScript {posed : List (Family × String)} {paths : List Path}
    (well : (exampleScript format plan directory posed).ending = .ok paths) :
    ∀ pair ∈ posed, Succeeds format plan pair := by
  induction posed generalizing paths with
  | nil => exact List.forall_mem_nil _
  | cons pair posed ih =>
    rw [exampleScript] at well
    cases built : pair.1.ofArgs pair.2 with
    | error fault =>
      simp only [built] at well
      cases well
    | ok specimen =>
      simp only [built] at well
      cases ended : (Desk.bytes specimen format plan).2 with
      | error fault =>
        simp only [ended] at well
        cases well
      | ok _ =>
        simp only [ended] at well
        cases rest : (exampleScript format plan directory posed).ending with
        | error fault =>
          simp only [rest] at well
          cases well
        | ok others => exact List.forall_mem_cons.mpr ⟨succeeds_of_ok built ended, ih rest⟩

/-- Each path leads to a file, and the file holds the text of its example unless a later one is
written to the same place. -/
theorem file?_of_exampleScript {disk final : Disk} {before after : List (Family × String)}
    {posed : Family × String}
    (all : ∀ pair ∈ before ++ posed :: after, Succeeds format plan pair)
    (done : performAll (exampleScript format plan directory (before ++ posed :: after)).steps disk =
      .ok () final) :
    ∃ location content, final.file? (examplePath directory format posed) =
        some (location, content) ∧
      ((∀ later ∈ after, (final.file? (examplePath directory format later)).map Prod.fst ≠
        some location) → content = exampleText format plan posed) := by
  rw [exampleScript_of_succeeds directory all, List.map_append, List.map_cons] at done
  obtain ⟨location, content, found, held⟩ := Disk.file?_of_writeSteps done
  exact ⟨location, content, found, fun apart => held (List.forall_mem_map.mpr apart)⟩

/-! ### Paths of examples -/

/-- The path of a family's examples up to the hyphen before their arguments. -/
def familyPath (directory : Path) (family : Family) : String :=
  (directory.join family.name).text

/-- The two examples are written to one path. The path of the second one's family is that of the
first one's, or goes on from there with a part that is taken for arguments of the first. -/
def Collide (directory : Path) (one other : Family × String) : Prop :=
  familyPath directory other.1 = familyPath directory one.1 ∧ one.2 = other.2 ∨
    ∃ more, familyPath directory other.1 = familyPath directory one.1 ++ "-" ++ more ∧
      one.2 = more ++ "-" ++ other.2

theorem text_examplePath (directory : Path) (format : Format) (posed : Family × String) :
    (examplePath directory format posed).text =
      familyPath directory posed.1 ++ "-" ++ posed.2 ++ "." ++ format.extension := by
  have start : Path.isAbsolute ⟨posed.1.name ++ ("-" ++ posed.2 ++ "." ++ format.extension)⟩ =
      Path.isAbsolute ⟨posed.1.name⟩ := by
    by_cases empty : posed.1.name = ""
    · rw [empty, String.empty_append, String.append_assoc, String.append_assoc,
        Path.isAbsolute_append (by decide)]
      decide
    · exact Path.isAbsolute_append empty _
  have whole : exampleName posed.1 posed.2 format =
      posed.1.name ++ ("-" ++ posed.2 ++ "." ++ format.extension) := by
    simp only [exampleName, String.append_assoc]
  rw [examplePath, whole, directory.text_join_append start, familyPath]
  simp only [String.append_assoc]

/-- Where two texts with hyphens in them are one text, the hyphen of the first is that of the second,
or it stands in front of it. -/
theorem hyphenated_cases {front back front' back' : String} {more : List Char}
    (longer : front'.toList = front.toList ++ more)
    (same : '-' :: back.toList = more ++ '-' :: back'.toList) :
    front' = front ∧ back = back' ∨
      ∃ more, front' = front ++ "-" ++ more ∧ back = more ++ "-" ++ back' := by
  cases more with
  | nil =>
    refine .inl ⟨String.toList_inj.mp (by simpa using longer), String.toList_inj.mp ?_⟩
    exact (List.cons.inj same).2
  | cons hyphen more =>
    obtain ⟨rfl, rest⟩ := List.cons.inj same
    refine .inr ⟨String.ofList more, String.toList_inj.mp ?_, String.toList_inj.mp ?_⟩
    · simpa using longer
    · simpa using rest

theorem examplePath_eq_iff {one other : Family × String} :
    examplePath directory format one = examplePath directory format other ↔
      Collide directory one other ∨ Collide directory other one := by
  have texts : examplePath directory format one = examplePath directory format other ↔
      familyPath directory one.1 ++ "-" ++ one.2 =
        familyPath directory other.1 ++ "-" ++ other.2 := by
    have path_inj (one other : Path) : one = other ↔ one.text = other.text := by
      cases one
      cases other
      simp
    rw [path_inj, text_examplePath, text_examplePath, String.append_left_inj,
      String.append_left_inj]
  rw [texts]
  constructor
  · intro same
    have chars := congrArg String.toList same
    simp only [String.toList_append, List.append_assoc] at chars
    rcases List.append_eq_append_iff.mp chars with ⟨more, longer, rest⟩ | ⟨more, longer, rest⟩
    · exact .inl (hyphenated_cases longer rest)
    · exact .inr (hyphenated_cases longer rest)
  · rintro ((⟨path, args⟩ | ⟨more, path, args⟩) | ⟨path, args⟩ | ⟨more, path, args⟩)
    all_goals simp only [path, args, String.append_assoc]

/-- No example is posed twice where families differ by name and none of them repeats an example. -/
theorem nodup_allExamples (named : catalog.names.Nodup)
    (once : ∀ family ∈ catalog.families, family.examples.Nodup) : catalog.allExamples.Nodup := by
  refine List.nodup_flatMap.mpr ⟨fun family member => ?_, ?_⟩
  · exact (once family member).map fun args args' same => (Prod.mk.inj same).2
  · refine (List.pairwise_map.mp named).imp fun other => ?_
    intro pair first second
    obtain ⟨args, _, rfl⟩ := List.mem_map.mp first
    obtain ⟨args', _, same⟩ := List.mem_map.mp second
    exact other (congrArg (·.1.name) same.symm)

theorem family_mem_of_mem_allExamples {posed : Family × String}
    (member : posed ∈ catalog.allExamples) : posed.1 ∈ catalog.families := by
  obtain ⟨family, family_mem, among⟩ := List.mem_flatMap.mp member
  obtain ⟨args, _, rfl⟩ := List.mem_map.mp among
  exact family_mem

theorem nodup_paths_iff (named : catalog.names.Nodup)
    (once : ∀ family ∈ catalog.families, family.examples.Nodup) (directory : Path)
    (format : Format) : (catalog.allExamples.map (examplePath directory format)).Nodup ↔
      ∀ one ∈ catalog.allExamples, ∀ other ∈ catalog.allExamples, one.1.name ≠ other.1.name →
        ¬Collide directory one other := by
  rw [List.nodup_map_iff_inj_on (nodup_allExamples named once)]
  constructor
  · rintro apart one one_mem other other_mem different collide
    have same := apart one one_mem other other_mem (examplePath_eq_iff.mpr (.inl collide))
    exact different (congrArg (·.1.name) same)
  · intro apart one one_mem other other_mem same
    have family : one.1 = other.1 := by
      refine List.inj_on_of_nodup_map named (family_mem_of_mem_allExamples one_mem)
        (family_mem_of_mem_allExamples other_mem) ?_
      by_contra different
      rcases examplePath_eq_iff.mp same with collide | collide
      · exact apart one one_mem other other_mem different collide
      · exact apart other other_mem one one_mem (Ne.symm different) collide
    refine Prod.ext family ?_
    have texts := congrArg Path.text same
    rw [text_examplePath, text_examplePath, family] at texts
    simpa using texts

theorem isStep_exampleName {posed : Family × String}
    (plain : '/' ∉ (exampleName posed.1 posed.2 format).toList) :
    Path.IsStep (exampleName posed.1 posed.2 format) := by
  refine ⟨fun empty => ?_, plain⟩
  have hyphen : '-' ∈ (exampleName posed.1 posed.2 format).toList := by
    simp [exampleName]
  rw [empty] at hyphen
  contradiction

/-- In a directory, files whose names have no slashes stand in one place only if their names are
equal. -/
theorem eq_of_place_eq {disk : Disk} {one other : String} (one_step : Path.IsStep one)
    (other_step : Path.IsStep other) {place : Location} {content content' : ByteArray}
    (one_file : disk.file? (directory.join one) = some (place, content))
    (other_file : disk.file? (directory.join other) = some (place, content')) : one = other := by
  have last {name : String} (step : Path.IsStep name) {content : ByteArray}
      (file : disk.file? (directory.join name) = some (place, content)) :
      place.getLast? = some name := by
    obtain ⟨parent, final, admits, rfl, _⟩ := Disk.file?_eq_some_iff.mp file
    obtain ⟨_, before, steps, _⟩ := Disk.parentOf_eq_ok_iff.mp admits.found
    rw [directory.steps_join step] at steps
    have same := congrArg List.getLast? steps
    simp only [List.getLast?_concat, Option.some.injEq] at same
    rw [List.getLast?_concat, same]
  exact Option.some.inj ((last one_step one_file).symm.trans (last other_step other_file))

/-- What becomes of a set of examples that is written without a fault. The answered paths are those
of all examples in order, and each leads to a file. The file holds the whole text of the last example
whose path leads to its place, so that an earlier one is lost. The paths differ exactly if no two
examples of different families collide; and where no slash stands in the name of a file, examples
with different paths have different files. -/
theorem files_of_examples {disk final : Disk} {paths : List Path} (named : catalog.names.Nodup)
    (once : ∀ family ∈ catalog.families, family.examples.Nodup)
    (done : (catalog.examples request directory).run disk = .ok paths final) :
    let path := examplePath directory request.format
    let place := fun posed => (final.file? (path posed)).map Prod.fst
    paths = catalog.allExamples.map path ∧
    (paths.Nodup ↔ ∀ one ∈ catalog.allExamples, ∀ other ∈ catalog.allExamples,
      one.1.name ≠ other.1.name → ¬Collide directory one other) ∧
    (∀ before posed after, catalog.allExamples = before ++ posed :: after →
      ∃ specimen text location content, posed.1.ofArgs posed.2 = .ok specimen ∧
        Desk.bytes specimen request.format request.plan = (text, .ok ()) ∧
        final.file? (path posed) = some (location, content) ∧
        ((∀ later ∈ after, place later ≠ some location) → content = text)) ∧
    ((∀ posed ∈ catalog.allExamples,
        '/' ∉ (exampleName posed.1 posed.2 request.format).toList) →
      ∀ one ∈ catalog.allExamples, ∀ other ∈ catalog.allExamples,
        place one = place other → path one = path other) := by
  intro path place
  obtain ⟨well, performed⟩ := Script.run_eq_ok_iff.mp done
  have each := succeeds_of_exampleScript well
  obtain ⟨_, _, wrote⟩ := performAll_cons_eq_ok_iff.mp performed
  have script := exampleScript_of_succeeds directory each
  obtain rfl : catalog.allExamples.map path = paths :=
    Except.ok.inj ((congrArg Script.ending script).symm.trans well)
  have file (before : List (Family × String)) (posed : Family × String)
      (after : List (Family × String)) (split : catalog.allExamples = before ++ posed :: after) :
      ∃ location content, final.file? (path posed) = some (location, content) ∧
        ((∀ later ∈ after, place later ≠ some location) →
          content = exampleText request.format request.plan posed) := by
    apply file?_of_exampleScript (split ▸ each)
    rw [← split]
    exact wrote
  refine ⟨rfl, nodup_paths_iff named once directory request.format, ?_, ?_⟩
  · intro before posed after split
    obtain ⟨specimen, built, bytes⟩ := each posed (by simp [split])
    obtain ⟨location, content, found⟩ := file before posed after split
    exact ⟨specimen, _, location, content, built, bytes, found⟩
  · intro plain one one_mem other other_mem same
    obtain ⟨before, after, split⟩ := List.append_of_mem one_mem
    obtain ⟨before', after', split'⟩ := List.append_of_mem other_mem
    obtain ⟨location, content, found, _⟩ := file before one after split
    obtain ⟨location', content', found', _⟩ := file before' other after' split'
    obtain rfl : location = location' := by
      simpa [place, found, found'] using same
    exact congrArg directory.join (eq_of_place_eq (isStep_exampleName (plain one one_mem))
      (isStep_exampleName (plain other other_mem)) found found')

/-- Trees of any size, and a family of trees of fifteen bits whose name ends like a width. -/
def hyphenated : Catalog where
  families :=
    [{ AndTree.family with
       name := "tree"
       examples := ["15-1"] },
     { name := "tree-15"
       examples := ["1"]
       standard := AndTree.specimen { width := ⟨15, by decide⟩, depth := 2 }
       ofArgs _ := .ok (AndTree.specimen { width := ⟨15, by decide⟩, depth := 2 }) }]

/-- Both examples are written, the second one over the first. -/
theorem run_hyphenated :
    ∃ first second final, hyphenated.allExamples = [first, second] ∧
      (hyphenated.examples {} ⟨"out"⟩).run .empty =
        .ok [⟨"out/tree-15-1.flo"⟩, ⟨"out/tree-15-1.flo"⟩] final ∧
      final.file? ⟨"out/tree-15-1.flo"⟩ =
        some (["out", "tree-15-1.flo"], exampleText .flo {} second) ∧
      exampleText .flo {} first ≠ exampleText .flo {} second := by
  have succeed : ∀ pair ∈ hyphenated.allExamples, Succeeds .flo {} pair := by
    have tree : AndTree.ofArgs "15-1" = .ok { width := ⟨15, by decide⟩, depth := 1 } := by rfl
    refine List.forall_mem_cons.mpr ⟨succeeds_of_ok (congrArg (Except.map _) tree) rfl, ?_⟩
    exact List.forall_mem_singleton.mpr (succeeds_of_ok rfl rfl)
  have script := exampleScript_of_succeeds ⟨"out"⟩ succeed
  -- The run as a whole is too much to evaluate, but its script is known, and each step is small.
  have made : (Step.makeDirectories ⟨"out"⟩).perform .empty =
      .ok () { entries := [(["out"], .directory)] } := by rfl
  have admits : Disk.Admits { entries := [(["out"], .directory)] } ⟨"out/tree-15-1.flo"⟩ ["out"]
      "tree-15-1.flo" := ⟨by rfl, by rfl, by decide, nofun⟩
  have again := admits.insert (by simp) admits.free
  obtain ⟨final, wrote, found, _⟩ := (again _).file?_writeFile (exampleText .flo {} _)
  refine ⟨_, _, final, rfl, ?_, found, ?_⟩
  · refine Script.run_eq_ok_iff.mpr ⟨congrArg Script.ending script, ?_⟩
    refine performAll_cons_eq_ok_iff.mpr ⟨_, made, ?_⟩
    show performAll (exampleScript .flo {} ⟨"out"⟩ hyphenated.allExamples).steps _ = _
    rw [script]
    exact performAll_writeSteps_cons.mpr ⟨_, admits.writeFile _,
      performAll_writeSteps_cons.mpr ⟨_, wrote, rfl⟩⟩
  · intro same
    have sizes := congrArg ByteArray.size same
    revert sizes
    decide +kernel

/-- Names of families that differ, and examples that none of them repeats, do not keep the paths
apart: the set is written without a fault, and the text of its first example is nowhere. -/
theorem example_lost_of_hyphenated :
    hyphenated.names.Nodup ∧ (∀ family ∈ hyphenated.families, family.examples.Nodup) ∧
      ∃ first second paths final, hyphenated.allExamples = [first, second] ∧
        (hyphenated.examples {} ⟨"out"⟩).run .empty = .ok paths final ∧ ¬paths.Nodup ∧
        ∀ posed ∈ hyphenated.allExamples, ∃ place content,
          final.file? (examplePath ⟨"out"⟩ .flo posed) = some (place, content) ∧
          content ≠ exampleText .flo {} first := by
  obtain ⟨first, second, final, all, done, found, differ⟩ := run_hyphenated
  refine ⟨by decide, by decide, first, second, _, final, all, done, by simp, ?_⟩
  have path : ∀ posed ∈ hyphenated.allExamples,
      examplePath ⟨"out"⟩ .flo posed = ⟨"out/tree-15-1.flo"⟩ := by decide
  exact fun posed member => ⟨_, _, path posed member ▸ found, differ.symm⟩

/-- The second example has the path of the first one, since its family's name goes on with the
part before the second hyphen. -/
theorem files_of_examples_of_hyphenated :
    hyphenated.names.Nodup ∧ (∀ family ∈ hyphenated.families, family.examples.Nodup) ∧
      ∃ paths final, (hyphenated.examples {} ⟨"out"⟩).run .empty = .ok paths final ∧
        paths = hyphenated.allExamples.map (examplePath ⟨"out"⟩ .flo) ∧
        ∃ one ∈ hyphenated.allExamples, ∃ other ∈ hyphenated.allExamples,
          one.1.name ≠ other.1.name ∧ Collide ⟨"out"⟩ one other := by
  have named : hyphenated.names.Nodup := by decide
  have once : ∀ family ∈ hyphenated.families, family.examples.Nodup := by decide
  obtain ⟨_, _, final, _, done, _⟩ := run_hyphenated
  obtain ⟨same, distinct, _⟩ := files_of_examples named once done
  refine ⟨named, once, _, final, done, same, ?_⟩
  have repeated := mt distinct.mpr (by simp)
  simpa only [not_forall, not_not, exists_prop] using repeated

end Catalog
end GoldenCircuit
