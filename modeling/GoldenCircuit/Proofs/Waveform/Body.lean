import Mathlib.Data.List.DropRight
import GoldenCircuit.Proofs.Text.Lines
import GoldenCircuit.Proofs.Waveform.Items

/-! The body of a dump line by line: which times are marked, and which lines stand under each mark.
Nothing is asked of the texts before the body, because no line of the body looks like the end of a
section. -/
namespace GoldenCircuit.Waveform

/-! ### Reading a body -/

/-- The lines of a text after the last one that ends a section. -/
def bodyOf (text : String) : List String :=
  (Text.lines text).rtakeWhile (· ≠ "$end")

/-- The time that a line marks, if it marks one. -/
def markOf? (line : String) : Option Nat :=
  match line.toList with
  | '#' :: digits => Text.natural? digits
  | _ => none

/-- The lines that mark no time, each with the time that was marked last before it. -/
def underMarks : (mark : Option Nat) → List String → List (Option Nat × String)
  | _, [] => []
  | mark, line :: lines =>
    match markOf? line with
    | some time => underMarks (some time) lines
    | none => (mark, line) :: underMarks mark lines

/-! ### Single lines -/

theorem markOf?_timeLine (time : Nat) : markOf? (timeLine time) = some time := by
  have text : (timeLine time).toList = '#' :: (toString time).toList := by
    rw [timeLine, String.toList_append]
    rfl
  rw [markOf?, text]
  exact Text.natural?_toString time

/-- The line of a value starts with a bit or with the letter of a vector. -/
theorem exists_toList_valueLine (width index value : Nat) :
    ∃ first others, (valueLine width index value).toList = first :: others ∧
      first ∈ ['0', '1', 'b'] := by
  unfold valueLine
  split
  · split
    · exact ⟨'1', _, by rw [String.toList_append]; rfl, by decide⟩
    · exact ⟨'0', _, by rw [String.toList_append]; rfl, by decide⟩
  · exact ⟨'b', _, by rw [String.toList_append, String.toList_append, String.toList_append]; rfl,
      by decide⟩

theorem markOf?_valueLine (width index value : Nat) :
    markOf? (valueLine width index value) = none := by
  obtain ⟨first, others, text, start⟩ := exists_toList_valueLine width index value
  have other : first ≠ '#' := by
    rintro rfl
    contradiction
  simp [markOf?, text, other]

theorem isLine_timeLine (time : Nat) : Text.IsLine (timeLine time) [timeLine time] :=
  .of_word (.append (by decide) (Text.isWord_toString time))

theorem not_mem_valueLine (width index value : Nat) :
    '\n' ∉ (valueLine width index value).toList := by
  unfold valueLine
  split
  · have word : Text.IsWord ((if value.testBit 0 then "1" else "0") ++ identifier index) := by
      refine .append ?_ (isWord_identifier index)
      split <;> decide
    exact (Text.IsLine.of_word word).single
  · have vector : Text.IsWord ("b" ++ Text.binary width value) :=
      .append (by decide) (isWord_binary width value)
    exact ((Text.IsLine.of_word vector).append (.of_word (isWord_identifier index))).single

/-! ### The lines of changes -/

variable {width : Nat → Nat} {before : Option Nat} {changes : List Change}

/-- The lines of changes, of which the first comes after a change at the time `before`. -/
def linesFrom (width : Nat → Nat) : (before : Option Nat) → List Change → List String
  | _, [] => []
  | before, change :: changes =>
    changeLines (width change.index) before change ++ linesFrom width (some change.time) changes

/-- The times that the lines of changes mark. -/
def marksFrom : (before : Option Nat) → List Change → List Nat
  | _, [] => []
  | before, change :: changes =>
    (if before = some change.time then [] else [change.time]) ++
      marksFrom (some change.time) changes

theorem forall_linesFrom {property : String → Prop} (marks : ∀ time, property (timeLine time))
    (values : ∀ width index value, property (valueLine width index value)) (before : Option Nat)
    (changes : List Change) : ∀ line ∈ linesFrom width before changes, property line := by
  induction changes generalizing before with
  | nil => exact List.forall_mem_nil _
  | cons change changes ih =>
    rw [linesFrom, List.forall_mem_append]
    refine ⟨?_, ih _⟩
    unfold changeLines
    split
    · exact List.forall_mem_singleton.mpr (values _ _ _)
    · exact List.forall_mem_cons.mpr ⟨marks _, List.forall_mem_singleton.mpr (values _ _ _)⟩

theorem filterMap_linesFrom (width : Nat → Nat) (before : Option Nat) (changes : List Change) :
    (linesFrom width before changes).filterMap markOf? = marksFrom before changes := by
  induction changes generalizing before with
  | nil => rfl
  | cons change changes ih =>
    rw [linesFrom, marksFrom, List.filterMap_append, ih, changeLines]
    split <;> simp [markOf?_timeLine, markOf?_valueLine]

/-- Each change stands once under its own time, and nothing else stands there. -/
theorem underMarks_linesFrom (width : Nat → Nat) (before : Option Nat) (changes : List Change)
    (final : Nat) :
    underMarks before (linesFrom width before changes ++ [timeLine final]) =
      changes.map fun change =>
        (some change.time, valueLine (width change.index) change.index change.value) := by
  induction changes generalizing before with
  | nil => simp [linesFrom, underMarks, markOf?_timeLine]
  | cons change changes ih =>
    rw [linesFrom, List.append_assoc, changeLines, List.map_cons, ← ih (some change.time)]
    split
    next same => simp [underMarks, markOf?_valueLine, same]
    next => simp [underMarks, markOf?_timeLine, markOf?_valueLine]

theorem exists_of_mem_marksFrom {time : Nat} (member : time ∈ marksFrom before changes) :
    ∃ change ∈ changes, change.time = time := by
  induction changes generalizing before with
  | nil => contradiction
  | cons change changes ih =>
    rcases List.mem_append.mp member with here | later
    · split at here
      · contradiction
      · exact ⟨change, List.mem_cons_self, (List.mem_singleton.mp here).symm⟩
    · obtain ⟨other, among, same⟩ := ih later
      exact ⟨other, List.mem_cons_of_mem _ among, same⟩

theorem mem_marksFrom_or {change : Change} (member : change ∈ changes) (before : Option Nat) :
    change.time ∈ marksFrom before changes ∨ before = some change.time := by
  induction changes generalizing before with
  | nil => contradiction
  | cons first changes ih =>
    have here : first.time ∈ marksFrom before (first :: changes) ∨ before = some first.time := by
      by_cases same : before = some first.time
      · exact .inr same
      · exact .inl (List.mem_append_left _ (by simp [same]))
    rcases List.mem_cons.mp member with rfl | later
    · exact here
    · rcases ih later (some first.time) with marked | same
      · exact .inl (List.mem_append_right _ marked)
      · rwa [← Option.some.inj same]

theorem mem_marksFrom_none {time : Nat} :
    time ∈ marksFrom none changes ↔ ∃ change ∈ changes, change.time = time := by
  refine ⟨exists_of_mem_marksFrom, ?_⟩
  rintro ⟨change, member, rfl⟩
  exact (mem_marksFrom_or member none).resolve_right nofun

/-- Changes in the order of time mark each of their times once, all after the time before them. -/
theorem pairwise_marksFrom (sorted : changes.Pairwise (·.time ≤ ·.time))
    (begun : ∀ earlier ∈ before, ∀ change ∈ changes, earlier ≤ change.time) :
    (∀ earlier ∈ before, ∀ time ∈ marksFrom before changes, earlier < time) ∧
      (marksFrom before changes).Pairwise (· < ·) := by
  induction changes generalizing before with
  | nil => exact ⟨fun _ _ => List.forall_mem_nil _, .nil⟩
  | cons change changes ih =>
    obtain ⟨later, sorted⟩ := List.pairwise_cons.mp sorted
    obtain ⟨after, increasing⟩ := ih sorted fun earlier same other member => by
      rw [← Option.mem_some.mp same]
      exact later other member
    have after := after change.time rfl
    rw [marksFrom]
    split
    next same =>
      subst same
      refine ⟨fun earlier present => ?_, increasing⟩
      rw [← Option.mem_some.mp present]
      exact after
    next other =>
      refine ⟨fun earlier present time member => ?_, List.pairwise_cons.mpr ⟨after, increasing⟩⟩
      have before_change : earlier < change.time :=
        Nat.lt_of_le_of_ne (begun earlier present change List.mem_cons_self) fun same =>
          other (same ▸ present)
      rcases List.mem_cons.mp member with rfl | later
      · exact before_change
      · exact Nat.lt_trans before_change (after time later)

/-! ### The body of a recorder -/

namespace Recorder

variable {recorder : Recorder}

/-- The number of bits that a dump gives to the signal at an index. -/
def widthAt (recorder : Recorder) (index : Nat) : Nat :=
  (recorder.signals[index]?.map (·.width)).getD 1

theorem bodyLines_eq (recorder : Recorder) :
    recorder.bodyLines = linesFrom recorder.widthAt none recorder.changes.toList := by
  have zipped (width : Nat → Nat) (before : Option Nat) (changes : List Change) :
      (List.zipWith (fun before change => changeLines (width change.index) before change)
        (before :: changes.map (some ·.time)) changes).flatten = linesFrom width before changes := by
    induction changes generalizing before with
    | nil => rfl
    | cons change changes ih =>
      rw [List.map_cons, List.zipWith_cons_cons, List.flatten_cons, ih, linesFrom]
  rw [← zipped, bodyLines]
  simp only [widthAt, List.getElem?_toArray, List.getElem?_map]

theorem bodyOf_render (recorder : Recorder) :
    bodyOf recorder.render =
      linesFrom recorder.widthAt none recorder.changes.toList ++ [timeLine recorder.time] := by
  set body := linesFrom recorder.widthAt none recorder.changes.toList ++ [timeLine recorder.time]
  have all {property : String → Prop} (marks : ∀ time, property (timeLine time))
      (values : ∀ width index value, property (valueLine width index value)) :
      ∀ line ∈ body, property line :=
    List.forall_mem_append.mpr
      ⟨forall_linesFrom marks values _ _, List.forall_mem_singleton.mpr (marks _)⟩
  have single : ∀ line ∈ "$end" :: body, '\n' ∉ line.toList :=
    List.forall_mem_cons.mpr
      ⟨by decide, all (fun time => (isLine_timeLine time).single) not_mem_valueLine⟩
  have open_end : ∀ line ∈ body, line ≠ "$end" := by
    refine all (fun time => ?_) fun width index value => ?_
    · exact ne_end_of_toList (by rw [timeLine, String.toList_append]; rfl) (by decide)
    · obtain ⟨first, others, text, start⟩ := exists_toList_valueLine width index value
      exact ne_end_of_toList text (by rintro rfl; contradiction)
  obtain ⟨before, parts⟩ : ∃ before, recorder.lines = before ++ "$end" :: body :=
    ⟨_, by rw [lines, bodyLines_eq, List.append_assoc, List.append_assoc]; rfl⟩
  obtain ⟨others, split⟩ := Text.exists_lines_unlines before single
  rw [bodyOf, render, parts, split, List.rtakeWhile, List.reverse_append, List.reverse_cons,
    List.append_assoc, List.takeWhile_append_of_pos]
  · simp
  · simpa using open_end

end Recorder
end GoldenCircuit.Waveform
