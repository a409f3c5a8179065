import GoldenCircuit.Disk
import GoldenCircuit.Proofs.Path

/-! A disk seen through what stands at each location. Paths keep leading where they led as long as
directories stay directories, and so do they through all changes that writing files makes. -/
namespace GoldenCircuit.Disk

theorem find?_insert (disk : Disk) {location : Location} (below : location ≠ [])
    (entry : DiskEntry) (other : Location) :
    (disk.insert location entry).find? other =
      if other = location then some entry else disk.find? other := by
  by_cases root : other = []
  · simp [find?, root, below.symm]
  by_cases same : other = location
  · simp [find?, insert, same, below]
  · have kept : (disk.entries.filter (·.1 != location)).find? (·.1 == other) =
        disk.entries.find? (·.1 == other) := by
      rw [List.find?_filter]
      congr 1
      funext pair
      by_cases here : pair.1 = other <;> simp [here, same]
    simp [find?, insert, root, same, Ne.symm same, kept]

/-! ### Walking -/

/-- All directories of a disk are directories of another one, which has something wherever the first
one has. -/
structure Extends (more fewer : Disk) : Prop where
  directory : ∀ {location}, fewer.find? location = some .directory →
    more.find? location = some .directory
  some : ∀ {location}, fewer.find? location ≠ none → more.find? location ≠ none
  workingDirectory : more.workingDirectory = fewer.workingDirectory

theorem extends_insert (disk : Disk) {location : Location} (below : location ≠ [])
    {entry : DiskEntry} (free : disk.find? location = some .directory → entry = .directory) :
    (disk.insert location entry).Extends disk where
  directory {other} found := by
    rw [find?_insert disk below]
    split
    next same => rw [free (same ▸ found)]
    next => exact found
  some {other} found := by
    rw [find?_insert disk below]
    split
    · simp
    · exact found
  workingDirectory := rfl

theorem walkStep_eq_ok_iff {disk : Disk} {location next : Location} {step : String} :
    disk.walkStep location step = .ok next ↔ disk.find? location = some .directory ∧
      (step = "." ∧ next = location ∨ step = ".." ∧ next = location.dropLast ∨
        step ≠ "." ∧ step ≠ ".." ∧ step.utf8ByteSize ≤ Path.nameLimit ∧
          disk.find? (location ++ [step]) ≠ none ∧ next = location ++ [step]) := by
  unfold walkStep lookUp
  cases found : disk.find? location with
  | none => simp
  | some entry =>
    cases entry with
    | file content => simp
    | directory =>
      by_cases dot : step = "."
      · simp [dot, eq_comm]
      by_cases dots : step = ".."
      · simp [dots, eq_comm]
      by_cases long : Path.nameLimit < step.utf8ByteSize
      · simp [dot, dots, long, Nat.not_le.mpr long]
      · cases below : disk.find? (location ++ [step]) <;>
          simp [dot, dots, long, Nat.not_lt.mp long, eq_comm]

theorem walkStep_of_extends {more fewer : Disk} (grown : more.Extends fewer)
    {location next : Location} {step : String} (went : fewer.walkStep location step = .ok next) :
    more.walkStep location step = .ok next := by
  rw [walkStep_eq_ok_iff] at went ⊢
  obtain ⟨stands, dot | dots | ⟨not_dot, not_dots, short, found, rfl⟩⟩ := went
  · exact ⟨grown.directory stands, .inl dot⟩
  · exact ⟨grown.directory stands, .inr (.inl dots)⟩
  · exact ⟨grown.directory stands, .inr (.inr ⟨not_dot, not_dots, short, grown.some found, rfl⟩)⟩

theorem walk_cons_eq_ok_iff {disk : Disk} {start place : Location} {step : String}
    {steps : List String} : disk.walk start (step :: steps) = .ok place ↔
      ∃ next, disk.walkStep start step = .ok next ∧ disk.walk next steps = .ok place := by
  rw [walk, List.foldlM_cons]
  cases disk.walkStep start step <;> simp [walk, bind, Except.bind]

theorem walk_append_eq_ok_iff {disk : Disk} {start place : Location} {before after : List String} :
    disk.walk start (before ++ after) = .ok place ↔
      ∃ between, disk.walk start before = .ok between ∧ disk.walk between after = .ok place := by
  rw [walk, List.foldlM_append]
  show (disk.walk start before >>= fun between => disk.walk between after) = _ ↔ _
  cases disk.walk start before <;> simp [bind, Except.bind]

theorem walk_of_extends {more fewer : Disk} (grown : more.Extends fewer) {start place : Location}
    {steps : List String} (led : fewer.walk start steps = .ok place) :
    more.walk start steps = .ok place := by
  induction steps generalizing start with
  | nil => exact led
  | cons step steps ih =>
    obtain ⟨next, went, rest⟩ := walk_cons_eq_ok_iff.mp led
    exact walk_cons_eq_ok_iff.mpr ⟨next, walkStep_of_extends grown went, ih rest⟩

/-- Without steps up, a walk goes down by the names among its steps. -/
theorem walk_eq_of_ok {disk : Disk} {start place : Location} {steps : List String}
    (down : ".." ∉ steps) (led : disk.walk start steps = .ok place) :
    place = start ++ steps.filter (· != ".") := by
  induction steps generalizing start with
  | nil =>
    cases led
    simp
  | cons step steps ih =>
    rw [List.mem_cons, not_or] at down
    obtain ⟨next, went, rest⟩ := walk_cons_eq_ok_iff.mp led
    obtain ⟨_, ⟨rfl, rfl⟩ | ⟨dots, _⟩ | ⟨not_dot, _, _, _, rfl⟩⟩ := walkStep_eq_ok_iff.mp went
    · simpa using ih down.2 rest
    · exact absurd dots.symm down.1
    · simpa [not_dot] using ih down.2 rest

/-- The path leads to a directory. -/
structure LeadsTo (disk : Disk) (path : Path) (place : Location) : Prop where
  led : disk.walk (disk.startOf path) path.steps = .ok place
  stands : disk.find? place = some .directory

theorem LeadsTo.of_extends {more fewer : Disk} {path : Path} {place : Location}
    (leads : fewer.LeadsTo path place) (grown : more.Extends fewer) : more.LeadsTo path place where
  led := by
    have start : more.startOf path = fewer.startOf path := by
      rw [startOf, startOf, grown.workingDirectory]
    rw [start]
    exact walk_of_extends grown leads.led
  stands := grown.directory leads.stands

theorem isDirectory_iff {disk : Disk} {path : Path} :
    disk.isDirectory path = true ↔ ∃ place, disk.LeadsTo path place := by
  unfold isDirectory
  cases led : disk.walk (disk.startOf path) path.steps with
  | error fault =>
    constructor
    · exact nofun
    · rintro ⟨place, leads⟩
      simp [leads.led] at led
  | ok place =>
    have only : (∃ other, disk.LeadsTo path other) ↔ disk.find? place = some .directory := by
      constructor
      · rintro ⟨other, leads⟩
        cases led.symm.trans leads.led
        exact leads.stands
      · exact fun stands => ⟨place, led, stands⟩
    rw [only]
    simp only [Except.map]
    split <;> simp_all

/-! ### Writing a file -/

theorem parentOf_eq_ok_iff {disk : Disk} {path : Path} {parent : Location} {name : String} :
    disk.parentOf path = .ok (parent, some name) ↔ path.fault? = none ∧
      ∃ before, path.steps = before ++ [name] ∧ name ≠ "." ∧ name ≠ ".." ∧
        disk.walk (disk.startOf path) before = .ok parent ∧
        disk.find? parent = some .directory := by
  constructor
  · intro found
    unfold parentOf at found
    cases sound : path.fault? with
    | some fault => simp [sound, bind, Except.bind] at found
    | none =>
      cases led : disk.walk (disk.startOf path) path.steps.dropLast with
      | error fault => simp [sound, led, bind, Except.bind] at found
      | ok place =>
        simp only [sound, led, bind, Except.bind, pure, Except.pure] at found
        split at found
        next stands =>
          split at found
          next => cases found
          next => cases found
          next => cases found
          next not_dot not_dots last =>
            cases found
            obtain ⟨before, steps⟩ := List.getLast?_eq_some_iff.mp last
            rw [steps, List.dropLast_concat] at led
            exact ⟨rfl, before, steps, not_dot, not_dots, led, stands⟩
        next => cases found
        next => cases found
  · rintro ⟨sound, before, steps, not_dot, not_dots, led, stands⟩
    unfold parentOf
    simp [sound, steps, led, stands, bind, Except.bind, pure, Except.pure]

theorem writeFile_eq_ok {disk : Disk} {path : Path} {parent : Location} {name : String}
    (found : disk.parentOf path = .ok (parent, some name)) (open_end : path.endsInSlash = false)
    (short : name.utf8ByteSize ≤ Path.nameLimit)
    (free : disk.find? (parent ++ [name]) ≠ some .directory) (content : ByteArray) :
    disk.writeFile path content = .ok (disk.insert (parent ++ [name]) (.file content)) := by
  have looked : disk.lookUp parent name = .ok (disk.find? (parent ++ [name])) :=
    if_neg (Nat.not_lt.mpr short)
  simp only [writeFile, found, open_end, looked, bind, Except.bind]
  split <;> simp_all [pure, Except.pure]

/-- A file can be written into a directory under every name that is accepted and is not one of its
directories. -/
theorem LeadsTo.writeFile_join {disk : Disk} {directory : Path} {place : Location} {name : String}
    (leads : disk.LeadsTo directory place) (named : Path.IsName name)
    (accepts : directory.Accepts name) (free : disk.find? (place ++ [name]) ≠ some .directory)
    (content : ByteArray) :
    disk.writeFile (directory.join name) content =
      .ok (disk.insert (place ++ [name]) (.file content)) := by
  have step := named.toIsStep
  have start : disk.startOf (directory.join name) = disk.startOf directory := by
    rw [startOf, startOf, directory.isAbsolute_join step]
  refine writeFile_eq_ok ?_ (directory.endsInSlash_join step) accepts.short free content
  rw [parentOf_eq_ok_iff, start]
  exact ⟨accepts.sound, directory.steps, directory.steps_join step, named.not_dot, named.not_dots,
    leads.led, leads.stands⟩

/-! ### Making directories -/

variable {disk between made : Disk} {path : Path}

/-- A directory that is made was not there, and stands in one that was. -/
theorem makeDirectory_of_ok (done : disk.makeDirectory path = .ok made) :
    ∃ before name parent, path.steps = before ++ [name] ∧ name ≠ "." ∧ name ≠ ".." ∧
      name.utf8ByteSize ≤ Path.nameLimit ∧ disk.walk (disk.startOf path) before = .ok parent ∧
      disk.find? parent = some .directory ∧ disk.find? (parent ++ [name]) = none ∧
      made = disk.insert (parent ++ [name]) .directory := by
  unfold makeDirectory at done
  cases found : disk.parentOf path with
  | error fault => simp [found, bind, Except.bind] at done
  | ok split =>
    obtain ⟨parent, _ | name⟩ := split
    · simp [found, bind, Except.bind] at done
    · obtain ⟨_, before, steps, not_dot, not_dots, led, stands⟩ := parentOf_eq_ok_iff.mp found
      simp only [found, lookUp, bind, Except.bind] at done
      by_cases long : Path.nameLimit < name.utf8ByteSize
      · simp [long] at done
      cases free : disk.find? (parent ++ [name]) with
      | some entry => simp [long, free] at done
      | none =>
        rw [if_neg long, free] at done
        cases done
        exact ⟨before, name, parent, steps, not_dot, not_dots, Nat.not_lt.mp long, led, stands,
          free, rfl⟩

theorem single_eq_ok_iff {change : Disk → Except IoFault Disk} :
    Changes.single change disk = .ok () made ↔ change disk = .ok made := by
  unfold Changes.single
  cases change disk <;> simp

theorem ensureDirectory_of_ok (done : ensureDirectory path disk = .ok () made) :
    disk.makeDirectory path = .ok made ∨ disk.isDirectory path = true ∧ made = disk := by
  have done := single_eq_ok_iff.mp done
  cases new : disk.makeDirectory path with
  | ok other =>
    rw [new] at done
    exact .inl done
  | error fault =>
    rw [new] at done
    cases there : disk.isDirectory path <;> simp_all

/-- What made a directory went through the directories above it first, or found nothing to do for
them. -/
theorem ensureBelow_of_ok {above : Changes} (done : ensureBelow above path disk = .ok () made) :
    ∃ between, (above disk = .ok () between ∨ between = disk) ∧
      ensureDirectory path between = .ok () made := by
  have ways : ensureBelow above path disk = ensureDirectory path disk ∨
      ensureBelow above path disk = (above >>= fun _ => ensureDirectory path) disk := by
    have opened (next : Disk → Changes) : (get >>= next) disk = next disk disk := rfl
    rw [ensureBelow, opened]
    cases disk.makeDirectory path with
    | ok other => exact .inl rfl
    | error fault => cases fault <;> first | exact .inl rfl | exact .inr rfl
  rcases ways with direct | climbed
  · exact ⟨disk, .inr rfl, direct ▸ done⟩
  · rw [climbed] at done
    cases higher : above disk with
    | ok _ between =>
      simp only [bind, EStateM.bind, higher] at done
      exact ⟨between, .inl rfl, done⟩
    | error fault between => simp [bind, EStateM.bind, higher] at done

/-! Where a path leads once its directories have been made. -/

theorem leadsTo_of_makeDirectory (done : disk.makeDirectory path = .ok made) :
    ∃ place, made.LeadsTo path place := by
  obtain ⟨before, name, parent, steps, not_dot, not_dots, short, led, stands, free, rfl⟩ :=
    makeDirectory_of_ok done
  have below : parent ++ [name] ≠ [] := by simp
  have grown := @extends_insert disk _ below .directory fun _ => rfl
  have there : (disk.insert (parent ++ [name]) .directory).find? (parent ++ [name]) =
      some .directory := by
    rw [find?_insert disk below, if_pos rfl]
  refine ⟨parent ++ [name], ?_, there⟩
  rw [steps, walk_append_eq_ok_iff]
  refine ⟨parent, walk_of_extends grown led, walk_cons_eq_ok_iff.mpr ⟨_, ?_, rfl⟩⟩
  rw [walkStep_eq_ok_iff]
  exact ⟨grown.directory stands, .inr (.inr ⟨not_dot, not_dots, short, by simp [there], rfl⟩)⟩

theorem leadsTo_of_ensureDirectory (done : ensureDirectory path disk = .ok () made) :
    ∃ place, made.LeadsTo path place := by
  rcases ensureDirectory_of_ok done with new | ⟨stands, rfl⟩
  · exact leadsTo_of_makeDirectory new
  · exact isDirectory_iff.mp stands

/-- A path leads to a directory once its directories have been made. -/
theorem leadsTo_of_makeDirectories (working : disk.find? disk.workingDirectory = some .directory)
    (done : makeDirectories path disk = .ok () made) : ∃ place, made.LeadsTo path place := by
  unfold makeDirectories at done
  split at done
  next here =>
    cases done
    obtain ⟨text⟩ := path
    cases here
    exact ⟨disk.workingDirectory, rfl, working⟩
  next =>
    obtain ⟨between, _, last⟩ := ensureBelow_of_ok done
    exact leadsTo_of_ensureDirectory last

/-! Which locations change when directories are made. -/

/-- The disks differ at most at locations of a kind. -/
structure SameBut (kind : Location → Prop) (disk other : Disk) : Prop where
  workingDirectory : other.workingDirectory = disk.workingDirectory
  find?_eq : ∀ location, ¬kind location → other.find? location = disk.find? location

namespace SameBut

variable {kind wider : Location → Prop}

theorem refl (disk : Disk) : SameBut kind disk disk :=
  ⟨rfl, fun _ _ => rfl⟩

theorem trans (first : SameBut kind disk between) (second : SameBut kind between made) :
    SameBut kind disk made where
  workingDirectory := second.workingDirectory.trans first.workingDirectory
  find?_eq location other :=
    (second.find?_eq location other).trans (first.find?_eq location other)

theorem mono (same : SameBut kind disk made) (within : ∀ location, kind location → wider location) :
    SameBut wider disk made where
  workingDirectory := same.workingDirectory
  find?_eq location other := same.find?_eq location fun member => other (within location member)

theorem startOf_eq (same : SameBut kind disk made) (path : Path) :
    made.startOf path = disk.startOf path := by
  rw [startOf, startOf, same.workingDirectory]

/-- A path without steps up makes a directory where its names lead. -/
theorem of_makeDirectory (down : ".." ∉ path.steps) (done : disk.makeDirectory path = .ok made) :
    SameBut (· = disk.startOf path ++ path.steps.filter (· != ".")) disk made := by
  obtain ⟨before, name, parent, steps, not_dot, _, _, led, _, _, rfl⟩ := makeDirectory_of_ok done
  have down_before : ".." ∉ before := fun member => down (steps ▸ List.mem_append_left _ member)
  have place : parent ++ [name] = disk.startOf path ++ path.steps.filter (· != ".") := by
    rw [walk_eq_of_ok down_before led, steps]
    simp [not_dot]
  refine ⟨rfl, fun location other => ?_⟩
  rw [find?_insert disk (by simp), if_neg (place ▸ other)]

theorem of_ensureDirectory (down : ".." ∉ path.steps)
    (done : ensureDirectory path disk = .ok () made) :
    SameBut (· = disk.startOf path ++ path.steps.filter (· != ".")) disk made := by
  rcases ensureDirectory_of_ok done with new | ⟨_, rfl⟩
  · exact of_makeDirectory down new
  · exact refl _

theorem of_ensureBelow {above : Changes} (done : ensureBelow above path disk = .ok () made)
    (higher : ∀ {between}, above disk = .ok () between → SameBut kind disk between)
    (down : ".." ∉ path.steps) (here : kind (disk.startOf path ++ path.steps.filter (· != "."))) :
    SameBut kind disk made := by
  obtain ⟨between, climbed, last⟩ := ensureBelow_of_ok done
  have first : SameBut kind disk between := by
    rcases climbed with climbed | rfl
    · exact higher climbed
    · exact refl _
  have second := of_ensureDirectory down last
  rw [first.startOf_eq] at second
  exact first.trans (second.mono fun location same => same ▸ here)

theorem of_ensureSteps {upwards : List String} (names : ∀ step ∈ upwards, Path.IsName step)
    (done : ensureSteps path upwards disk = .ok () made) :
    SameBut (· <+: disk.startOf path ++ upwards.reverse) disk made := by
  induction upwards generalizing made with
  | nil =>
    cases done
    exact refl _
  | cons step above ih =>
    have names_back : ∀ other ∈ (step :: above).reverse, Path.IsName other :=
      fun other member => names other (List.mem_reverse.mp member)
    have single : ∀ other ∈ (step :: above).reverse, Path.IsStep other :=
      fun other member => (names_back other member).toIsStep
    have steps := Path.steps_withSteps single path
    have start : disk.startOf (path.withSteps (step :: above).reverse) = disk.startOf path := by
      rw [startOf, startOf, Path.isAbsolute_withSteps single]
    have down_only : (step :: above).reverse.filter (· != ".") = (step :: above).reverse :=
      List.filter_eq_self.mpr fun other member => bne_iff_ne.mpr (names_back other member).not_dot
    -- The steps come from the last one upwards, so that what is made above is made by fewer steps.
    refine of_ensureBelow done (fun climbed => ?_) ?_ ?_
    · have earlier := ih (fun other member => names other (List.mem_cons_of_mem _ member)) climbed
      refine earlier.mono fun location before => before.trans ?_
      simp [List.reverse_cons, ← List.append_assoc]
    · rw [steps]
      exact fun member => (names_back _ member).not_dots rfl
    · have here : disk.startOf (path.withSteps (step :: above).reverse) ++
          (path.withSteps (step :: above).reverse).steps.filter (· != ".") =
            disk.startOf path ++ (step :: above).reverse := by
        rw [steps, start, down_only]
      exact here ▸ List.prefix_rfl

/-- Without steps up, directories are made on the way to the last one only. -/
theorem of_makeDirectories (down : ".." ∉ path.steps)
    (done : makeDirectories path disk = .ok () made) :
    SameBut (· <+: disk.startOf path ++ path.steps.filter (· != ".")) disk made := by
  unfold makeDirectories at done
  split at done
  next =>
    cases done
    exact refl _
  next =>
    refine of_ensureBelow done (fun climbed => ?_) down List.prefix_rfl
    have names : ∀ step ∈ path.stepsAbove, Path.IsName step := by
      intro step member
      have among := List.mem_reverse.mp (List.mem_of_mem_drop member)
      obtain ⟨step_mem, not_dot⟩ := List.mem_filter.mp among
      exact ⟨Path.isStep_of_mem_steps step_mem, bne_iff_ne.mp not_dot,
        fun same => down (same ▸ step_mem)⟩
    have above : path.stepsAbove.reverse <+: path.steps.filter (· != ".") := by
      rw [← List.reverse_suffix, List.reverse_reverse]
      exact List.drop_suffix _ _
    refine (of_ensureSteps names climbed).mono fun location before => before.trans ?_
    exact (List.prefix_append_right_inj _).mpr above

end SameBut

/-! ### What stands in a directory -/

/-- In the directory stand these files, with their names and contents, and nothing else. -/
structure Holds (disk : Disk) (place : Location) (files : List (String × ByteArray)) : Prop where
  stands : disk.find? place = some .directory
  find?_iff : ∀ below ≠ [], ∀ entry, disk.find? (place ++ below) = some entry ↔
    ∃ file ∈ files, below = [file.1] ∧ entry = .file file.2

theorem Holds.insert {place : Location} {files : List (String × ByteArray)}
    (holds : disk.Holds place files) {name : String} (unused : name ∉ files.map Prod.fst)
    (content : ByteArray) : (disk.insert (place ++ [name]) (.file content)).Holds place
      (files ++ [(name, content)]) where
  stands := by
    rw [find?_insert disk (by simp), if_neg (by simp)]
    exact holds.stands
  find?_iff below inside entry := by
    have split : (∃ file ∈ files ++ [(name, content)], below = [file.1] ∧ entry = .file file.2) ↔
        (∃ file ∈ files, below = [file.1] ∧ entry = .file file.2) ∨
          below = [name] ∧ entry = .file content := by
      simp [or_and_right, exists_or]
    rw [find?_insert disk (by simp), split, ← holds.find?_iff below inside]
    by_cases here : below = [name]
    · subst here
      have missing : disk.find? (place ++ [name]) ≠ some entry := fun found => by
        obtain ⟨file, member, same, _⟩ := (holds.find?_iff _ inside entry).mp found
        cases same
        exact unused (List.mem_map_of_mem member)
      simp [missing, eq_comm]
    · simp [here]

/-- One more file can be written into a directory that is reached by a path. -/
theorem Holds.write {directory : Path} {place : Location} {files : List (String × ByteArray)}
    (holds : disk.Holds place files) (leads : disk.LeadsTo directory place) {name : String}
    (named : Path.IsName name) (accepts : directory.Accepts name)
    (unused : name ∉ files.map Prod.fst) (content : ByteArray) :
    ∃ written, disk.writeFile (directory.join name) content = .ok written ∧
      written.LeadsTo directory place ∧ written.Holds place (files ++ [(name, content)]) := by
  have free : disk.find? (place ++ [name]) ≠ some .directory := by
    rw [Ne, holds.find?_iff [name] (by simp)]
    simp
  have below : place ++ [name] ≠ [] := by simp
  exact ⟨_, leads.writeFile_join named accepts free content,
    leads.of_extends (disk.extends_insert below fun stands => absurd stands free),
    holds.insert unused content⟩

/-- A target for files: a directory that can be made where nothing stood. A path that goes up again
from directories that it makes must not leave them in its way. -/
structure Target (disk : Disk) (directory : Path) (made : Disk) (place : Location) : Prop where
  working : disk.find? disk.workingDirectory = some .directory
  created : makeDirectories directory disk = .ok () made
  led : made.walk (made.startOf directory) directory.steps = .ok place
  vacant : ∀ below ≠ [], disk.find? (place ++ below) = none
  returning : ".." ∈ directory.steps → ∀ below ≠ [], made.find? (place ++ below) = none

theorem Target.leadsTo {directory : Path} {place : Location}
    (target : disk.Target directory made place) : made.LeadsTo directory place := by
  obtain ⟨other, leads⟩ := leadsTo_of_makeDirectories target.working target.created
  cases leads.led.symm.trans target.led
  exact leads

theorem Target.holds {directory : Path} {place : Location}
    (target : disk.Target directory made place) : made.Holds place [] where
  stands := target.leadsTo.stands
  find?_iff below inside entry := by
    have vacant : made.find? (place ++ below) = none := by
      by_cases down : ".." ∈ directory.steps
      · exact target.returning down below inside
      -- All that was made lies on the way to the target, and nothing below it does.
      · have same := SameBut.of_makeDirectories down target.created
        have place_eq := walk_eq_of_ok down target.led
        rw [same.startOf_eq] at place_eq
        rw [same.find?_eq, target.vacant below inside]
        rw [← place_eq]
        intro before
        have length := before.length_le
        rw [List.length_append] at length
        exact inside (List.length_eq_zero_iff.mp (by omega))
    simp [vacant]

end GoldenCircuit.Disk
