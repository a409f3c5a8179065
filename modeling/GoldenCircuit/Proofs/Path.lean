import GoldenCircuit.Path

/-! The steps of a path. Putting paths together puts their steps together, so that what a path leads
to can be found from its steps alone. -/
namespace GoldenCircuit.Path

/-- A text that is a single step of a path. -/
structure IsStep (text : String) : Prop where
  some : text ≠ ""
  whole : '/' ∉ text.toList

/-- A single step that goes down. -/
structure IsName (text : String) : Prop extends IsStep text where
  not_dot : text ≠ "."
  not_dots : text ≠ ".."

/-- What the file system asks of the name of a file in a directory: no slash in it, and neither the
name nor the whole path too long. -/
structure Accepts (directory : Path) (name : String) : Prop where
  whole : '/' ∉ name.toList
  short : name.utf8ByteSize ≤ nameLimit
  sound : (directory.join name).fault? = none

instance (directory : Path) (name : String) : Decidable (directory.Accepts name) :=
  decidable_of_iff ('/' ∉ name.toList ∧ name.utf8ByteSize ≤ nameLimit ∧
      (directory.join name).fault? = none)
    ⟨fun all => ⟨all.1, all.2.1, all.2.2⟩, fun accepts => ⟨accepts.1, accepts.2, accepts.3⟩⟩

theorem steps_append (before after : String) :
    steps ⟨before ++ "/" ++ after⟩ = steps ⟨before⟩ ++ steps ⟨after⟩ := by
  have slashed : (before ++ "/" ++ after).toList = before.toList ++ '/' :: after.toList := by simp
  simp only [steps, slashed, List.splitOn_append_cons_self, List.map_append, List.filter_append]

theorem steps_empty : steps ⟨""⟩ = [] :=
  rfl

theorem steps_of_isStep {text : String} (step : IsStep text) : steps ⟨text⟩ = [text] := by
  simp [steps, List.splitOn_eq_singleton step.whole, step.some]

theorem not_mem_of_mem_splitOn {text piece : List Char} (member : piece ∈ text.splitOn '/') :
    '/' ∉ piece := by
  induction text generalizing piece with
  | nil =>
    rw [List.splitOn_nil, List.mem_singleton] at member
    simp [member]
  | cons first text ih =>
    obtain ⟨head, others, pieces⟩ := List.exists_cons_of_ne_nil (List.splitOn_ne_nil '/' text)
    rw [List.splitOn_cons_eq_if_modifyHead] at member
    rw [pieces] at member ih
    split at member
    next =>
      rcases List.mem_cons.mp member with rfl | later
      · exact List.not_mem_nil
      · exact ih later
    next other =>
      rw [List.modifyHead_cons] at member
      rcases List.mem_cons.mp member with rfl | later
      · have different : '/' ≠ first := by
          rintro rfl
          exact other rfl
        exact List.not_mem_cons_of_ne_of_not_mem different (ih List.mem_cons_self)
      · exact ih (List.mem_cons_of_mem _ later)

theorem isStep_of_mem_steps {path : Path} {step : String} (member : step ∈ path.steps) :
    IsStep step := by
  obtain ⟨piece_mem, some⟩ := List.mem_filter.mp member
  obtain ⟨piece, split, rfl⟩ := List.mem_map.mp piece_mem
  constructor
  · simpa using some
  · rw [String.toList_ofList]
    exact not_mem_of_mem_splitOn split

/-- A single step does not start from the root. -/
theorem isAbsolute_of_isStep {text : String} (step : IsStep text) :
    (Path.mk text).isAbsolute = false := by
  have whole := step.whole
  cases chars : text.toList with
  | nil => simp [isAbsolute, chars]
  | cons first rest =>
    rw [chars, List.mem_cons, not_or] at whole
    simpa [isAbsolute, chars] using Ne.symm whole.1

theorem isAbsolute_append {before : String} (some : before ≠ "") (after : String) :
    isAbsolute ⟨before ++ after⟩ = isAbsolute ⟨before⟩ := by
  cases chars : before.toList with
  | nil => exact absurd (String.toList_eq_nil_iff.mp chars) some
  | cons first rest => simp [isAbsolute, chars]

/-- What is put behind a path does not matter to where the path starts. -/
theorem text_join_append (directory : Path) {below more : String}
    (start : isAbsolute ⟨below ++ more⟩ = isAbsolute ⟨below⟩) :
    (directory.join (below ++ more)).text = (directory.join below).text ++ more := by
  rw [join, join, start]
  split
  · rfl
  · split <;> simp only [String.append_assoc]

section Join

variable (directory : Path) {name : String} (step : IsStep name)

include step

/-- A slash is put before the name, unless the directory ends in one or is the working directory. -/
theorem join_cases :
    directory = ⟨""⟩ ∧ directory.join name = ⟨name⟩ ∨
      ∃ before, (directory = ⟨before ++ "/"⟩ ∨ directory = ⟨before⟩ ∧ before ≠ "") ∧
        directory.join name = ⟨before ++ "/" ++ name⟩ := by
  obtain ⟨text⟩ := directory
  have relative := isAbsolute_of_isStep step
  by_cases here : text = ""
  · subst here
    exact .inl ⟨rfl, by simp [join, relative]⟩
  by_cases slash : (Path.mk text).endsInSlash = true
  · obtain ⟨chars, split⟩ := List.getLast?_eq_some_iff.mp (beq_iff_eq.mp slash)
    have whole : text = String.ofList chars ++ "/" :=
      String.toList_inj.mp (by simpa using split)
    exact .inr ⟨String.ofList chars, .inl (congrArg Path.mk whole),
      by simp [join, relative, slash, ← whole, here]⟩
  · exact .inr ⟨text, .inr ⟨rfl, here⟩, by simp [join, relative, here, slash]⟩

/-- Something below a directory is one step further. -/
theorem steps_join : (directory.join name).steps = directory.steps ++ [name] := by
  rcases directory.join_cases step with ⟨rfl, joined⟩ | ⟨before, rfl | ⟨rfl, _⟩, joined⟩
  · rw [joined, steps_of_isStep step, steps_empty, List.nil_append]
  · have here := steps_append before ""
    rw [String.append_empty, steps_empty, List.append_nil] at here
    rw [joined, steps_append, steps_of_isStep step, here]
  · rw [joined, steps_append, steps_of_isStep step]

theorem isAbsolute_join : (directory.join name).isAbsolute = directory.isAbsolute := by
  rcases directory.join_cases step with ⟨rfl, joined⟩ | ⟨before, rfl | ⟨rfl, some⟩, joined⟩
  · rw [joined, isAbsolute_of_isStep step]
    rfl
  · rw [joined]
    exact isAbsolute_append (by simp) name
  · rw [joined, String.append_assoc]
    exact isAbsolute_append some _

theorem endsInSlash_join : (directory.join name).endsInSlash = false := by
  have last (before : String) : (Path.mk (before ++ name)).endsInSlash = false := by
    have other : name.toList.getLast? ≠ some '/' := fun slash =>
      step.whole (List.mem_of_getLast? slash)
    simp [endsInSlash, List.getLast?_append, other, step.some]
  rcases directory.join_cases step with ⟨_, joined⟩ | ⟨before, _, joined⟩
  · simpa [joined] using last ""
  · rw [joined]
    exact last _

end Join

section WithSteps

variable {steps : List String} (single : ∀ step ∈ steps, IsStep step)

include single

theorem steps_intercalate : Path.steps ⟨"/".intercalate steps⟩ = steps := by
  induction steps with
  | nil => exact steps_empty
  | cons first rest ih =>
    have first_step := steps_of_isStep (single first List.mem_cons_self)
    have later := ih fun step member => single step (List.mem_cons_of_mem _ member)
    cases rest with
    | nil => rw [String.intercalate_singleton, first_step]
    | cons second rest =>
      rw [String.intercalate_cons_cons, steps_append, first_step, later, List.singleton_append]

theorem steps_withSteps (path : Path) : (path.withSteps steps).steps = steps := by
  have relative := steps_intercalate single
  unfold withSteps
  split
  next =>
    have absolute := steps_append "" ("/".intercalate steps)
    rwa [String.empty_append, steps_empty, List.nil_append, relative] at absolute
  next => rwa [String.empty_append]

theorem isAbsolute_withSteps (path : Path) :
    (path.withSteps steps).isAbsolute = path.isAbsolute := by
  unfold withSteps
  split
  next absolute =>
    rw [absolute]
    exact isAbsolute_append (by decide) _
  next relative =>
    rw [Bool.not_eq_true] at relative
    rw [relative, String.empty_append]
    cases steps with
    | nil => rfl
    | cons first rest =>
      have step := single first List.mem_cons_self
      have first_relative := isAbsolute_of_isStep step
      cases rest with
      | nil => rwa [String.intercalate_singleton]
      | cons second rest =>
        rwa [String.intercalate_cons_cons, String.append_assoc, isAbsolute_append step.some]

end WithSteps

end GoldenCircuit.Path
