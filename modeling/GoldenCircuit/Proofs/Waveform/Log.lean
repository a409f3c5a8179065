import GoldenCircuit.Proofs.Waveform.Body
import GoldenCircuit.Proofs.Waveform.Recorder

/-! What a recorder makes of any sequence of declarations and captures. New declarations forget which
values are held, but neither the changes nor the time. -/
namespace GoldenCircuit.Waveform

/-- What a recorder is told. -/
inductive Event where
  /-- The signals are declared, for the first time or anew. -/
  | declare (names : List String) (widths : List Nat)
  /-- The signals have these values at the present time. -/
  | capture (values : List Nat)

/-! ### What was told, apart from any recorder -/

/-- The names and widths of the signals that were declared last. -/
def declaredLast (events : List Event) : List (String × Nat) :=
  events.foldl (fun declared event =>
    match event with
    | .declare names widths => names.mapIdx fun index name => (name, widths[index]?.getD 1)
    | .capture _ => declared) []

/-- The number of bits that was declared last for the signal at an index. -/
def declaredWidth (events : List Event) (index : Nat) : Nat :=
  ((declaredLast events)[index]?.map (·.2)).getD 1

/-- The captures since the signals were declared last. -/
def sinceDeclared (events : List Event) : List (List Nat) :=
  events.foldl (fun captures event =>
    match event with
    | .declare _ _ => []
    | .capture values => captures ++ [values]) []

/-- The value captured last for a signal since it was declared. -/
def lastCaptured (events : List Event) (index : Nat) : Option Nat :=
  ((sinceDeclared events).filterMap (·[index]?)).getLast?

/-- The number of all captures. -/
def captureCount (events : List Event) : Nat :=
  events.countP fun event => event matches .capture _

/-- The changes that come of values captured after some events: one for each declared signal that is
given another value than the one captured last for it, in the order of the signals. -/
def changesOf (events : List Event) (values : List Nat) : List Change :=
  (List.range (declaredLast events).length).filterMap fun index =>
    values[index]?.bind fun value =>
      if lastCaptured events index = some value then none
      else some { time := captureCount events, index, value }

/-- How many signals are declared. -/
def Event.signalCount? : Event → Option Nat
  | .declare names _ => some names.length
  | .capture _ => none

/-- No declaration is of fewer signals than an earlier one. -/
def NeverDrops (events : List Event) : Prop :=
  (events.filterMap Event.signalCount?).Pairwise (· ≤ ·)

instance (events : List Event) : Decidable (NeverDrops events) :=
  inferInstanceAs (Decidable (List.Pairwise _ _))

section Concat

variable (events : List Event) (names : List String) (widths values : List Nat)

@[simp]
theorem declaredLast_declare : declaredLast (events ++ [.declare names widths]) =
    names.mapIdx fun index name => (name, widths[index]?.getD 1) := by
  simp [declaredLast]

@[simp]
theorem declaredLast_capture :
    declaredLast (events ++ [.capture values]) = declaredLast events := by
  simp [declaredLast]

@[simp]
theorem lastCaptured_declare (index : Nat) :
    lastCaptured (events ++ [.declare names widths]) index = none := by
  simp [lastCaptured, sinceDeclared]

@[simp]
theorem lastCaptured_capture (index : Nat) : lastCaptured (events ++ [.capture values]) index =
    values[index]?.or (lastCaptured events index) := by
  have since : sinceDeclared (events ++ [.capture values]) = sinceDeclared events ++ [values] := by
    simp [sinceDeclared]
  rw [lastCaptured, since, Recorder.Captured.getLast?_given, lastCaptured]

@[simp]
theorem captureCount_declare :
    captureCount (events ++ [.declare names widths]) = captureCount events := by
  simp [captureCount]

@[simp]
theorem captureCount_capture :
    captureCount (events ++ [.capture values]) = captureCount events + 1 := by
  simp [captureCount]

end Concat

theorem length_declaredLast (events : List Event) :
    (declaredLast events).length = (events.filterMap Event.signalCount?).getLast?.getD 0 := by
  induction events using List.reverseRecOn with
  | nil => rfl
  | append_singleton events event ih =>
    cases event with
    | declare names widths => simp [Event.signalCount?]
    | capture values => simpa [Event.signalCount?] using ih

/-- If nothing is dropped up to the last event, nothing was dropped before it. -/
theorem NeverDrops.earlier {events : List Event} {event : Event}
    (kept : NeverDrops (events ++ [event])) : NeverDrops events := by
  rw [NeverDrops, List.filterMap_append] at kept
  exact (List.pairwise_append.mp kept).1

theorem NeverDrops.length_le {events : List Event} {names : List String} {widths : List Nat}
    (kept : NeverDrops (events ++ [.declare names widths])) :
    (declaredLast events).length ≤ names.length := by
  rw [NeverDrops, List.filterMap_append] at kept
  rw [length_declaredLast]
  cases last : (events.filterMap Event.signalCount?).getLast? with
  | none => exact Nat.zero_le _
  | some count =>
    exact (List.pairwise_append.mp kept).2.2 count (List.mem_of_getLast? last) names.length
      List.mem_cons_self

namespace Recorder

variable {recorder : Recorder} {events : List Event}

def handle (recorder : Recorder) : Event → Recorder
  | .declare names widths => recorder.declare names widths
  | .capture values => recorder.capture values

/-- The recorder that was told all this from its beginning. -/
def ofEvents (scope timescale : String) (events : List Event) : Recorder :=
  events.foldl handle { scope, timescale }

/-- The changes of a capture, signal by signal. -/
theorem changes_compareHeld (now first : Nat) (signals : List Variable) (values : List Nat) :
    (compareHeld now first signals values).2 =
      (List.range signals.length).filterMap fun place =>
        values[place]?.bind fun value =>
          if signals[place]?.bind (·.held) = some value then none
          else some { time := now, index := first + place, value } := by
  fun_induction compareHeld now first signals values with
  | case1 => rfl
  | case2 => simp
  | case3 first own others value values rest changes compared same ih =>
    simp only [compared, Nat.add_right_comm first 1] at ih
    rw [List.length_cons, List.range_succ_eq_map, List.filterMap_cons, List.filterMap_map]
    simpa [same, Function.comp_def, Nat.add_assoc] using ih
  | case4 first own others value values rest changes compared differs ih =>
    simp only [compared, Nat.add_right_comm first 1] at ih
    rw [List.length_cons, List.range_succ_eq_map, List.filterMap_cons, List.filterMap_map]
    simpa [differs, Function.comp_def, Nat.add_assoc] using ih

/-- What a recorder holds after some events. -/
structure Follows (events : List Event) (recorder : Recorder) : Prop where
  time : recorder.time = captureCount events
  signals : recorder.signals.map (fun signal => (signal.name, signal.width)) = declaredLast events
  held : ∀ (index : Nat) (signal : Variable), recorder.signals[index]? = some signal →
    signal.held = lastCaptured events index
  sorted : recorder.changes.toList.Pairwise (·.time ≤ ·.time)
  past : ∀ change ∈ recorder.changes.toList, change.time < captureCount events
  within : NeverDrops events →
    ∀ change ∈ recorder.changes.toList, change.index < (declaredLast events).length

namespace Follows

theorem length_signals (follows : Follows events recorder) :
    recorder.signals.length = (declaredLast events).length := by
  rw [← follows.signals, List.length_map]

theorem fresh (scope timescale : String) : Follows [] { scope, timescale } where
  time := rfl
  signals := rfl
  held _ _ found := absurd found nofun
  sorted := .nil
  past _ member := absurd member List.not_mem_nil
  within _ _ member := absurd member List.not_mem_nil

theorem declare (follows : Follows events recorder) (names : List String) (widths : List Nat) :
    Follows (events ++ [.declare names widths]) (recorder.declare names widths) where
  time := by
    rw [captureCount_declare]
    exact follows.time
  signals := by rw [declared_declare, declaredLast_declare]
  held index signal found := by rw [held_declare found, lastCaptured_declare]
  sorted := follows.sorted
  past := by
    rw [captureCount_declare]
    exact follows.past
  within kept change member := by
    rw [declaredLast_declare, List.length_mapIdx]
    exact Nat.lt_of_lt_of_le (follows.within kept.earlier change member) kept.length_le

/-- The changes that a capture adds are those that come of its values. -/
theorem changes_capture (follows : Follows events recorder) (values : List Nat) :
    (recorder.capture values).changes.toList =
      recorder.changes.toList ++ changesOf events values := by
  rw [Recorder.changes_capture, changes_compareHeld, changesOf, follows.length_signals,
    follows.time]
  congr 1
  refine List.filterMap_congr fun index member => ?_
  obtain ⟨signal, found⟩ : ∃ signal, recorder.signals[index]? = some signal :=
    ⟨_, List.getElem?_eq_getElem (by simpa [follows.length_signals] using member)⟩
  rw [found, Option.bind_some, follows.held index signal found, Nat.zero_add]

theorem index_lt_of_mem_changesOf {values : List Nat} {change : Change}
    (member : change ∈ changesOf events values) : change.index < (declaredLast events).length := by
  obtain ⟨index, within, made⟩ := List.mem_filterMap.mp member
  obtain ⟨value, _, made⟩ := Option.bind_eq_some_iff.mp made
  split at made
  · contradiction
  · cases made
    exact List.mem_range.mp within

theorem capture (follows : Follows events recorder) (values : List Nat) :
    Follows (events ++ [.capture values]) (recorder.capture values) where
  time := by rw [time_capture, follows.time, captureCount_capture]
  signals := by rw [declared_capture, declaredLast_capture, follows.signals]
  held index signal found := by
    obtain ⟨before, was, held⟩ := held_capture found
    rw [lastCaptured_capture, held, follows.held index before was]
  sorted := (sorted_capture follows.sorted (follows.time ▸ follows.past) values).1
  past := by
    rw [captureCount_capture, ← follows.time]
    exact (sorted_capture follows.sorted (follows.time ▸ follows.past) values).2
  within kept change member := by
    rw [follows.changes_capture] at member
    rw [declaredLast_capture]
    rcases List.mem_append.mp member with old | added
    · exact follows.within kept.earlier change old
    · exact index_lt_of_mem_changesOf added

theorem handle (follows : Follows events recorder) (event : Event) :
    Follows (events ++ [event]) (recorder.handle event) := by
  cases event with
  | declare names widths => exact follows.declare names widths
  | capture values => exact follows.capture values

end Follows

theorem follows_ofEvents (scope timescale : String) (events : List Event) :
    Follows events (ofEvents scope timescale events) := by
  induction events using List.reverseRecOn with
  | nil => exact .fresh scope timescale
  | append_singleton events event ih =>
    rw [ofEvents, List.foldl_append]
    exact ih.handle event

end Recorder

/-- Whatever a recorder is told, a capture adds the changes that come of its values and a declaration
adds none. The body of the dump marks each time at which something changed, in order, and last the
number of captures. Under each mark stand the changes of its time and nothing else. As long as no
signals are dropped, every change is one of a declared signal. -/
theorem body_of_events (scope timescale : String) (events : List Event) :
    let recorder := Recorder.ofEvents scope timescale events
    let changes := recorder.changes.toList
    let body := bodyOf recorder.render
    (∀ values, (recorder.handle (.capture values)).changes.toList =
      changes ++ changesOf events values) ∧
    (∀ names widths, (recorder.handle (.declare names widths)).changes.toList = changes) ∧
    (NeverDrops events → ∀ change ∈ changes, change.index < (declaredLast events).length) ∧
    (∃ times, body.filterMap markOf? = times ++ [captureCount events] ∧
      (times ++ [captureCount events]).Pairwise (· < ·) ∧
      ∀ time, time ∈ times ↔ ∃ change ∈ changes, change.time = time) ∧
    underMarks none body = changes.map (fun change => (some change.time,
      valueLine (declaredWidth events change.index) change.index change.value)) ∧
    body.getLast? = some (timeLine (captureCount events)) := by
  intro recorder changes body
  have follows := Recorder.follows_ofEvents scope timescale events
  have lines : body =
      linesFrom recorder.widthAt none changes ++ [timeLine (captureCount events)] := by
    rw [← follows.time]
    exact recorder.bodyOf_render
  have widths (index : Nat) : recorder.widthAt index = declaredWidth events index := by
    rw [Recorder.widthAt, declaredWidth, ← follows.signals, List.getElem?_map, Option.map_map]
    rfl
  refine ⟨follows.changes_capture, fun _ _ => rfl, follows.within,
    ⟨marksFrom none changes, ?_, ?_, fun time => mem_marksFrom_none⟩, ?_, ?_⟩
  · rw [lines, List.filterMap_append, filterMap_linesFrom,
      List.filterMap_cons_some (markOf?_timeLine _), List.filterMap_nil]
  · have increasing : (marksFrom none changes).Pairwise (· < ·) :=
      (pairwise_marksFrom follows.sorted (by simp)).2
    refine List.pairwise_append.mpr ⟨increasing, List.pairwise_singleton _ _, ?_⟩
    intro time marked final last
    obtain ⟨change, member, rfl⟩ := exists_of_mem_marksFrom marked
    rw [List.mem_singleton.mp last]
    exact follows.past change member
  · rw [lines, underMarks_linesFrom]
    simp only [widths]
  · rw [lines, List.getLast?_concat]

/-- The signals are declared anew, with one more, after a capture; the next captures give the same
value again, no values at all, and one too many. -/
theorem body_of_events_of_redeclared :
    let events := [.declare ["bus"] [4], .capture [5], .declare ["bus", "valid"] [4],
      .capture [5, 1], .capture [], .capture [5, 0, 9]]
    let recorder := Recorder.ofEvents "top" "1ns" events
    let changes := recorder.changes.toList
    let body := bodyOf recorder.render
    NeverDrops events ∧ changes = [⟨0, 0, 5⟩, ⟨1, 0, 5⟩, ⟨1, 1, 1⟩, ⟨3, 1, 0⟩] ∧
    (∀ change ∈ changes, change.index < 2) ∧
    underMarks none body = [(some 0, "b0101 !"), (some 1, "b0101 !"), (some 1, "1\""),
      (some 3, "0\"")] ∧
    body.getLast? = some "#4" := by
  intro events recorder changes body
  have kept : NeverDrops events := by decide
  obtain ⟨_, _, within, _, under, last⟩ := body_of_events "top" "1ns" events
  exact ⟨kept, by decide, within kept, under.trans (by decide), last.trans (by decide)⟩

end GoldenCircuit.Waveform
