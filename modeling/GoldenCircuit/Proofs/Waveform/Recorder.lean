import GoldenCircuit.Waveform.Recorder

/-! What a recorder keeps. The changes up to a time leave each signal with the value captured last
for it up to then, though a value that is captured again is not recorded again. -/
namespace GoldenCircuit.Waveform

/-- The value that changes leave a signal with at a time, when it held a value before them. -/
def latest (index time : Nat) (held : Option Nat) (changes : List Change) : Option Nat :=
  changes.foldl (fun held change =>
    if change.index = index ∧ change.time ≤ time then some change.value else held) held

theorem latest_append (index time : Nat) (held : Option Nat) (earlier later : List Change) :
    latest index time held (earlier ++ later) =
      latest index time (latest index time held earlier) later :=
  List.foldl_append

theorem latest_of_others {index time : Nat} {changes : List Change}
    (others : ∀ change ∈ changes, ¬(change.index = index ∧ change.time ≤ time))
    (held : Option Nat) : latest index time held changes = held := by
  induction changes with
  | nil => rfl
  | cons change changes ih =>
    rw [latest, List.foldl_cons, if_neg (others change List.mem_cons_self)]
    exact ih fun other member => others other (List.mem_cons_of_mem _ member)

/-- The value captured last for a signal at or before a time. -/
def mostRecent (captures : List (List Nat)) (time index : Nat) : Option Nat :=
  ((captures.take (time + 1)).filterMap (·[index]?)).getLast?

namespace Recorder

theorem getElem?_compareHeld (now first : Nat) (signals : List Variable) (values : List Nat)
    (place : Nat) : (compareHeld now first signals values).1[place]? =
      signals[place]?.map fun signal => { signal with held := values[place]?.or signal.held } := by
  fun_induction compareHeld now first signals values generalizing place with
  | case1 => rfl
  | case2 =>
    simp only [List.getElem?_nil, Option.none_or]
    exact (congrFun Option.map_id _).symm
  | case3 first own others value values rest changes compared same ih =>
    rw [compared] at ih
    cases place with
    | zero =>
      show some own = some { own with held := some value }
      rw [← same]
    | succ place => exact ih place
  | case4 first own others value values rest changes compared differs ih =>
    rw [compared] at ih
    cases place with
    | zero => rfl
    | succ place => exact ih place

theorem of_mem_compareHeld {now first : Nat} {signals : List Variable} {values : List Nat}
    {change : Change} (member : change ∈ (compareHeld now first signals values).2) :
    change.time = now ∧ ∃ place < signals.length, change.index = first + place ∧
      values[place]? = some change.value := by
  fun_induction compareHeld now first signals values with
  | case1 => contradiction
  | case2 => contradiction
  | case3 first own others value values rest changes compared same ih =>
    rw [compared] at ih
    obtain ⟨time, place, within, index, given⟩ := ih member
    exact ⟨time, place + 1, Nat.succ_lt_succ within, by omega, given⟩
  | case4 first own others value values rest changes compared differs ih =>
    rw [compared] at ih
    rcases List.mem_cons.mp member with rfl | later
    · exact ⟨rfl, 0, Nat.succ_pos _, rfl, rfl⟩
    · obtain ⟨time, place, within, index, given⟩ := ih later
      exact ⟨time, place + 1, Nat.succ_lt_succ within, by omega, given⟩

theorem latest_of_compareHeld_later {now first : Nat} {signals rest : List Variable}
    {values : List Nat} {changes : List Change}
    (compared : compareHeld now (first + 1) signals values = (rest, changes)) (time : Nat)
    (held : Option Nat) : latest first time held changes = held := by
  apply latest_of_others
  rintro change member ⟨same, _⟩
  have added : change ∈ (compareHeld now (first + 1) signals values).2 := by
    rw [compared]
    exact member
  obtain ⟨_, place, _, index, _⟩ := of_mem_compareHeld added
  omega

/-- The new changes take a signal from the value it held to the one it is given, if any. -/
theorem latest_compareHeld {now time : Nat} (reached : now ≤ time) (first : Nat)
    (signals : List Variable) (values : List Nat) {place : Nat} {signal : Variable}
    (found : signals[place]? = some signal) :
    latest (first + place) time signal.held (compareHeld now first signals values).2 =
      values[place]?.or signal.held := by
  fun_induction compareHeld now first signals values generalizing place with
  | case1 => contradiction
  | case2 => rfl
  | case3 first own others value values rest changes compared same ih =>
    have other := latest_of_compareHeld_later compared time
    rw [compared] at ih
    cases place with
    | zero =>
      cases found
      rw [Nat.add_zero, other, same]
      rfl
    | succ place =>
      rw [show first + (place + 1) = first + 1 + place by omega]
      exact ih found
  | case4 first own others value values rest changes compared differs ih =>
    have other := latest_of_compareHeld_later compared time
    rw [compared] at ih
    cases place with
    | zero =>
      rw [latest, List.foldl_cons, if_pos ⟨rfl, reached⟩]
      exact other (some value)
    | succ place =>
      rw [show first + (place + 1) = first + 1 + place by omega, latest, List.foldl_cons,
        if_neg (by simp only [not_and]; omega)]
      exact ih found

theorem signals_capture (recorder : Recorder) (values : List Nat) :
    (recorder.capture values).signals =
      (compareHeld recorder.time 0 recorder.signals values).1 :=
  rfl

theorem changes_capture (recorder : Recorder) (values : List Nat) :
    (recorder.capture values).changes.toList =
      recorder.changes.toList ++ (compareHeld recorder.time 0 recorder.signals values).2 :=
  Array.toList_appendList

theorem time_capture (recorder : Recorder) (values : List Nat) :
    (recorder.capture values).time = recorder.time + 1 :=
  rfl

theorem declared_declare (recorder : Recorder) (names : List String) (widths : List Nat) :
    (recorder.declare names widths).signals.map (fun signal => (signal.name, signal.width)) =
      names.mapIdx fun index name => (name, widths[index]?.getD 1) := by
  apply List.ext_getElem?
  intro index
  rw [List.getElem?_map, declare, List.getElem?_mapIdx, List.getElem?_mapIdx, Option.map_map,
    List.getElem?_toArray]
  rfl

theorem held_declare {recorder : Recorder} {names : List String} {widths : List Nat} {index : Nat}
    {signal : Variable} (found : (recorder.declare names widths).signals[index]? = some signal) :
    signal.held = none := by
  simp only [declare, List.getElem?_mapIdx] at found
  obtain ⟨name, _, rfl⟩ := Option.map_eq_some_iff.mp found
  rfl

theorem declared_capture (recorder : Recorder) (values : List Nat) :
    (recorder.capture values).signals.map (fun signal => (signal.name, signal.width)) =
      recorder.signals.map fun signal => (signal.name, signal.width) := by
  apply List.ext_getElem?
  intro index
  rw [List.getElem?_map, List.getElem?_map, signals_capture, getElem?_compareHeld, Option.map_map]
  rfl

theorem held_capture {recorder : Recorder} {values : List Nat} {index : Nat} {signal : Variable}
    (found : (recorder.capture values).signals[index]? = some signal) :
    ∃ before, recorder.signals[index]? = some before ∧
      signal.held = values[index]?.or before.held := by
  rw [signals_capture, getElem?_compareHeld] at found
  obtain ⟨before, was, rfl⟩ := Option.map_eq_some_iff.mp found
  exact ⟨before, was, rfl⟩

/-- A capture leaves the changes in the order of time, and all of them in the past. -/
theorem sorted_capture {recorder : Recorder}
    (sorted : recorder.changes.toList.Pairwise (·.time ≤ ·.time))
    (past : ∀ change ∈ recorder.changes.toList, change.time < recorder.time) (values : List Nat) :
    (recorder.capture values).changes.toList.Pairwise (·.time ≤ ·.time) ∧
      ∀ change ∈ (recorder.capture values).changes.toList,
        change.time < (recorder.capture values).time := by
  rw [changes_capture, time_capture]
  have now {change : Change}
      (added : change ∈ (compareHeld recorder.time 0 recorder.signals values).2) :
      change.time = recorder.time := (of_mem_compareHeld added).1
  constructor
  · rw [List.pairwise_append]
    refine ⟨sorted, ?_, fun earlier old later added => ?_⟩
    · exact List.pairwise_of_forall_mem_list fun first added second added' =>
        Nat.le_of_eq ((now added).trans (now added').symm)
    · rw [now added]
      exact Nat.le_of_lt (past earlier old)
  · refine List.forall_mem_append.mpr ⟨fun change old => ?_, fun change added => ?_⟩
    · exact Nat.lt_succ_of_lt (past change old)
    · rw [now added]
      exact Nat.lt_succ_self _

/-- What a recorder of some declared signals holds after some captures. -/
structure Captured (declared : List (String × Nat)) (captures : List (List Nat))
    (recorder : Recorder) : Prop where
  time : recorder.time = captures.length
  signals : recorder.signals.map (fun signal => (signal.name, signal.width)) = declared
  held : ∀ (index : Nat) (signal : Variable), recorder.signals[index]? = some signal →
    signal.held = (captures.filterMap (·[index]?)).getLast?
  sorted : recorder.changes.toList.Pairwise (·.time ≤ ·.time)
  past : ∀ change ∈ recorder.changes.toList, change.time < captures.length
  given : ∀ change ∈ recorder.changes.toList, change.index < declared.length ∧
    ∃ values ∈ captures, values[change.index]? = some change.value
  latest : ∀ index < declared.length, ∀ time,
    Waveform.latest index time none recorder.changes.toList = mostRecent captures time index

namespace Captured

theorem declare (scope timescale : String) (names : List String) (widths : List Nat) :
    Captured (names.mapIdx fun index name => (name, widths[index]?.getD 1)) []
      (Recorder.declare { scope, timescale } names widths) where
  time := rfl
  signals := declared_declare _ names widths
  held index signal found := held_declare found
  sorted := List.Pairwise.nil
  past change member := absurd member List.not_mem_nil
  given change member := absurd member List.not_mem_nil
  latest index _ time := by
    rw [mostRecent, List.take_nil]
    rfl

variable {declared : List (String × Nat)} {captures : List (List Nat)} {recorder : Recorder}

theorem length_signals (captured : Captured declared captures recorder) :
    recorder.signals.length = declared.length := by
  rw [← captured.signals, List.length_map]

theorem getLast?_given (captures : List (List Nat)) (values : List Nat) (index : Nat) :
    ((captures ++ [values]).filterMap (·[index]?)).getLast? =
      values[index]?.or (captures.filterMap (·[index]?)).getLast? := by
  rw [List.filterMap_append, List.getLast?_append]
  cases value : values[index]? with
  | none => rw [show [values].filterMap (·[index]?) = [] from List.filterMap_cons_none value,
      List.getLast?_nil]
  | some value' => rw [show [values].filterMap (·[index]?) = [value'] from
      List.filterMap_cons_some value, List.getLast?_singleton]

theorem mem_changes_capture (captured : Captured declared captures recorder) {values : List Nat}
    {change : Change} (member : change ∈ (recorder.capture values).changes.toList) :
    change ∈ recorder.changes.toList ∨ (change.time = captures.length ∧
      change.index < declared.length ∧ values[change.index]? = some change.value) := by
  rw [changes_capture] at member
  rcases List.mem_append.mp member with earlier | added
  · exact .inl earlier
  · obtain ⟨time, place, within, index, given⟩ := of_mem_compareHeld added
    rw [Nat.zero_add] at index
    refine .inr ⟨time.trans captured.time, ?_, ?_⟩
    · rw [index, ← captured.length_signals]
      exact within
    · rw [index]
      exact given

theorem latest_capture (captured : Captured declared captures recorder) (values : List Nat)
    {index : Nat} (within : index < declared.length) (time : Nat) :
    Waveform.latest index time none (recorder.capture values).changes.toList =
      mostRecent (captures ++ [values]) time index := by
  rw [changes_capture, latest_append, captured.latest index within]
  by_cases past : time < captures.length
  · rw [mostRecent, mostRecent, List.take_append_of_le_length past]
    apply latest_of_others
    rintro change added ⟨_, reached⟩
    have now := (of_mem_compareHeld added).1
    rw [captured.time] at now
    omega
  · obtain ⟨signal, found⟩ : ∃ signal, recorder.signals[index]? = some signal :=
      ⟨_, List.getElem?_eq_getElem (captured.length_signals ▸ within)⟩
    have step := latest_compareHeld (captured.time ▸ Nat.le_of_not_lt past) 0 recorder.signals
      values found
    rw [Nat.zero_add] at step
    have all : captures.take (time + 1) = captures := List.take_of_length_le (by omega)
    have all' : (captures ++ [values]).take (time + 1) = captures ++ [values] :=
      List.take_of_length_le (by rw [List.length_append, List.length_singleton]; omega)
    rw [mostRecent, mostRecent, all, all', ← captured.held index signal found, step,
      captured.held index signal found, getLast?_given]

theorem capture (captured : Captured declared captures recorder) (values : List Nat) :
    Captured declared (captures ++ [values]) (recorder.capture values) where
  time := by rw [time_capture, captured.time, List.length_append, List.length_singleton]
  signals := by rw [declared_capture, captured.signals]
  held index signal found := by
    obtain ⟨before, was, held⟩ := held_capture found
    rw [getLast?_given, held, captured.held index before was]
  sorted := (sorted_capture captured.sorted (captured.time ▸ captured.past) values).1
  past := by
    rw [List.length_append, List.length_singleton, ← captured.time]
    exact (sorted_capture captured.sorted (captured.time ▸ captured.past) values).2
  given change member := by
    rcases captured.mem_changes_capture member with earlier | ⟨_, within, given⟩
    · obtain ⟨within, values, was, given⟩ := captured.given change earlier
      exact ⟨within, values, List.mem_append_left _ was, given⟩
    · exact ⟨within, values, List.mem_append_right _ List.mem_cons_self, given⟩
  latest index within time := captured.latest_capture values within time

/-- Any number of captures after one another. -/
theorem foldl (captured : Captured declared captures recorder) (more : List (List Nat)) :
    Captured declared (captures ++ more) (more.foldl Recorder.capture recorder) := by
  induction more generalizing captures recorder with
  | nil =>
    rw [List.append_nil]
    exact captured
  | cons values more ih =>
    have rest := ih (captured.capture values)
    rwa [List.append_assoc, List.singleton_append] at rest

end Captured
end Recorder
end GoldenCircuit.Waveform
