import GoldenCircuit.Proofs.Disk

/-! Files at paths. Where a path leads to a place for a file, writing it puts the content there and
changes nothing else on the disk, and reading it back by the same path finds it. -/
namespace GoldenCircuit.Disk

/-- The file that a path leads to: where it is, and its content. -/
def file? (disk : Disk) (path : Path) : Option (Location × ByteArray) :=
  match disk.parentOf path with
  | .ok (parent, some name) =>
    if path.endsInSlash || Path.nameLimit < name.utf8ByteSize then none
    else
      match disk.find? (parent ++ [name]) with
      | some (.file content) => some (parent ++ [name], content)
      | _ => none
  | _ => none

/-- The path leads to a place for a file of that name: into a directory in which the name is free, or
that of another file. -/
structure Admits (disk : Disk) (path : Path) (parent : Location) (name : String) : Prop where
  found : disk.parentOf path = .ok (parent, some name)
  open_end : path.endsInSlash = false
  short : name.utf8ByteSize ≤ Path.nameLimit
  free : disk.find? (parent ++ [name]) ≠ some .directory

theorem sameBut_insert (disk : Disk) {place : Location} (below : place ≠ []) (entry : DiskEntry) :
    SameBut (· = place) disk (disk.insert place entry) where
  workingDirectory := rfl
  find?_eq location other := by rw [find?_insert disk below, if_neg other]

variable {disk written : Disk} {path : Path}

namespace Admits

variable {parent : Location} {name : String}

theorem writeFile (admits : disk.Admits path parent name) (content : ByteArray) :
    disk.writeFile path content = .ok (disk.insert (parent ++ [name]) (.file content)) :=
  writeFile_eq_ok admits.found admits.open_end admits.short admits.free content

/-- A place for a file stays one when a file is put there or anywhere else. -/
theorem insert (admits : disk.Admits path parent name) {place : Location} (below : place ≠ [])
    (free : disk.find? place ≠ some .directory) (content : ByteArray) :
    (disk.insert place (.file content)).Admits path parent name := by
  have grown := @extends_insert disk _ below (.file content) fun stands => absurd stands free
  obtain ⟨sound, before, steps, not_dot, not_dots, led, stands⟩ :=
    parentOf_eq_ok_iff.mp admits.found
  refine ⟨?_, admits.open_end, admits.short, ?_⟩
  · exact parentOf_eq_ok_iff.mpr ⟨sound, before, steps, not_dot, not_dots,
      walk_of_extends grown led, grown.directory stands⟩
  · rw [find?_insert disk below]
    split
    · simp
    · exact admits.free

end Admits

theorem file?_eq_some_iff {place : Location} {content : ByteArray} :
    disk.file? path = some (place, content) ↔ ∃ parent name, disk.Admits path parent name ∧
      place = parent ++ [name] ∧ disk.find? place = some (.file content) := by
  constructor
  · intro there
    unfold file? at there
    split at there
    next parent name found =>
      split at there
      next => contradiction
      next fits =>
        simp only [Bool.or_eq_true, decide_eq_true_eq, not_or, Bool.not_eq_true, Nat.not_lt] at fits
        split at there
        next stands =>
          cases there
          exact ⟨parent, name, ⟨found, fits.1, fits.2, by simp [stands]⟩, rfl, stands⟩
        next => contradiction
    next => contradiction
  · rintro ⟨parent, name, admits, rfl, stands⟩
    have short := Nat.not_lt.mpr admits.short
    simp [file?, admits.found, admits.open_end, short, stands]

theorem admits_of_writeFile {content : ByteArray} (done : disk.writeFile path content = .ok written) :
    ∃ parent name, disk.Admits path parent name := by
  unfold writeFile at done
  cases found : disk.parentOf path with
  | error fault => simp [found, bind, Except.bind] at done
  | ok split =>
    obtain ⟨parent, _ | name⟩ := split
    · simp [found, bind, Except.bind] at done
    · by_cases slash : path.endsInSlash = true
      · simp [found, slash, bind, Except.bind] at done
      by_cases long : Path.nameLimit < name.utf8ByteSize
      · simp [found, slash, lookUp, long, bind, Except.bind] at done
      · refine ⟨parent, name, found, Bool.not_eq_true _ ▸ slash, Nat.not_lt.mp long, fun stands => ?_⟩
        simp [found, slash, lookUp, long, stands, bind, Except.bind] at done

/-- A written file is found by its path, and nothing else changes. -/
theorem Admits.file?_writeFile {parent : Location} {name : String}
    (admits : disk.Admits path parent name) (content : ByteArray) :
    ∃ written, disk.writeFile path content = .ok written ∧
      written.file? path = some (parent ++ [name], content) ∧
      SameBut (· = parent ++ [name]) disk written := by
  have below : parent ++ [name] ≠ [] := by simp
  refine ⟨_, admits.writeFile content, ?_, disk.sameBut_insert below _⟩
  refine file?_eq_some_iff.mpr ⟨parent, name, admits.insert below admits.free content, rfl, ?_⟩
  rw [find?_insert disk below, if_pos rfl]

/-- Where one content can be written, every other one can. -/
theorem file?_of_writeFile {one : ByteArray} (done : disk.writeFile path one = .ok written)
    (content : ByteArray) :
    ∃ place other, disk.writeFile path content = .ok other ∧
      other.file? path = some (place, content) ∧ SameBut (· = place) disk other := by
  obtain ⟨parent, name, admits⟩ := admits_of_writeFile done
  exact ⟨_, admits.file?_writeFile content⟩

/-- A file stays where it is when another one is written, unless that is written to its place. -/
theorem file?_after_writeFile {place : Location} {old content : ByteArray} {other : Path}
    (there : disk.file? path = some (place, old))
    (done : disk.writeFile other content = .ok written) :
    ∃ taken, written.file? other = some (taken, content) ∧
      written.file? path = some (place, if place = taken then content else old) := by
  obtain ⟨parent, name, admits⟩ := admits_of_writeFile done
  have below : parent ++ [name] ≠ [] := by simp
  obtain rfl : disk.insert (parent ++ [name]) (.file content) = written := by
    rw [admits.writeFile content] at done
    exact Except.ok.inj done
  obtain ⟨_, wrote, found, _⟩ := admits.file?_writeFile content
  rw [admits.writeFile content] at wrote
  obtain rfl := Except.ok.inj wrote
  obtain ⟨above, last, admits', rfl, stands⟩ := file?_eq_some_iff.mp there
  refine ⟨_, found, file?_eq_some_iff.mpr
    ⟨above, last, admits'.insert below admits.free content, rfl, ?_⟩⟩
  rw [find?_insert disk below]
  split
  · rfl
  · exact stands

/-- Writing to the path of a file replaces its content and changes nothing else. -/
theorem file?_writeFile {place : Location} {old : ByteArray}
    (there : disk.file? path = some (place, old)) (content : ByteArray) :
    ∃ other, disk.writeFile path content = .ok other ∧
      other.file? path = some (place, content) ∧ SameBut (· = place) disk other := by
  obtain ⟨parent, name, admits, rfl, _⟩ := file?_eq_some_iff.mp there
  exact admits.file?_writeFile content

end GoldenCircuit.Disk
