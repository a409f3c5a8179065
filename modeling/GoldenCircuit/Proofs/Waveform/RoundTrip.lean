import GoldenCircuit.Proofs.Waveform.Dump
import GoldenCircuit.Proofs.Waveform.Recorder

/-! Looking values up in a dump. At each time a reader finds the value captured last for a signal,
although the dump holds nothing but changes. -/
namespace GoldenCircuit.Waveform

theorem follow_unknown (name : String) (time : Nat) (signals : List Variable) (body : List Item) :
    follow name time none
        ((signals.mapIdx fun index _ => .assign (identifier index) none) ++ body) =
      follow name time none body := by
  rw [List.mapIdx_eq_zipIdx_map]
  generalize signals.zipIdx = placed
  induction placed with
  | nil => rfl
  | cons signal placed ih =>
    rw [List.map_cons, List.cons_append, follow, ite_self]
    exact ih

theorem follow_change {before : Option Nat} {change : Change} {time : Nat}
    (reached : change.time ≤ time) (index : Nat) (held : Option Nat) (items : List Item) :
    follow (identifier index) time held ((if before = some change.time then [] else
      [.mark change.time]) ++ .assign (identifier change.index) (some change.value) :: items) =
      follow (identifier index) time
        (if change.index = index ∧ change.time ≤ time then some change.value else held) items := by
  have assigned : follow (identifier index) time held
      (.assign (identifier change.index) (some change.value) :: items) =
      follow (identifier index) time
        (if change.index = index ∧ change.time ≤ time then some change.value else held) items := by
    rw [follow]
    by_cases same : change.index = index
    · rw [if_pos (congrArg identifier same), if_pos ⟨same, reached⟩]
    · rw [if_neg (fun equal => same (identifier_injective equal)), if_neg (fun both => same both.1)]
  split
  next => exact assigned
  next => rw [List.singleton_append, follow, if_pos reached, assigned]

/-- The changes are in the order of time, so the first mark of a later time ends what counts. -/
theorem follow_bodyItems {changes : List Change} (sorted : changes.Pairwise (·.time ≤ ·.time))
    {before : Option Nat} {time : Nat} (begun : ∀ earlier ∈ before, earlier ≤ time) (index : Nat)
    (held : Option Nat) (final : Nat) :
    follow (identifier index) time held (bodyItems before changes ++ [.mark final]) =
      latest index time held changes := by
  induction changes generalizing before held with
  | nil =>
    rw [bodyItems, List.nil_append, follow, follow, ite_self]
    rfl
  | cons change changes ih =>
    obtain ⟨later, sorted⟩ := List.pairwise_cons.mp sorted
    rw [bodyItems, List.append_assoc, List.cons_append]
    by_cases reached : change.time ≤ time
    · rw [follow_change reached, ih sorted, latest, latest, List.foldl_cons]
      intro earlier present
      rw [← Option.mem_some.mp present]
      exact reached
    · have marked : before ≠ some change.time := by
        rintro rfl
        exact reached (begun change.time rfl)
      rw [if_neg marked, List.singleton_append, follow, if_neg reached, latest_of_others]
      rintro other member ⟨_, early⟩
      rcases List.mem_cons.mp member with rfl | after
      · exact reached early
      · exact reached (Nat.le_trans (later other after) early)

namespace Recorder

variable {recorder : Recorder}

theorem valueAt_dump (sorted : recorder.changes.toList.Pairwise (·.time ≤ ·.time)) {index : Nat}
    (within : index < recorder.signals.length) (time : Nat) :
    recorder.dump.valueAt index time = latest index time none recorder.changes.toList := by
  have declared : recorder.dump.declarations[index]? =
      some (recorder.signals[index].declaration index) := by
    rw [dump, List.getElem?_mapIdx, List.getElem?_eq_getElem within, Option.map_some]
  rw [Dump.valueAt, declared, Option.bind_some]
  show follow (identifier index) time none (recorder.dump.initial ++ recorder.dump.body) = _
  rw [dump, follow_unknown]
  exact follow_bodyItems sorted (fun earlier none => absurd none (Option.not_mem_none earlier))
    index none _

theorem declared_dump (recorder : Recorder) :
    recorder.dump.declarations.map (fun signal => (signal.name, signal.width)) =
      recorder.signals.map fun signal => (signal.name, signal.width) := by
  apply List.ext_getElem?
  intro index
  rw [dump, List.getElem?_map, List.getElem?_map, List.getElem?_mapIdx, Option.map_map]
  rfl

theorem nodup_identifiers (recorder : Recorder) :
    (recorder.dump.declarations.map (·.identifier)).Nodup := by
  have identifiers : recorder.dump.declarations.map (·.identifier) =
      (List.range recorder.signals.length).map identifier := by
    apply List.ext_getElem
    · rw [dump, List.length_map, List.length_mapIdx, List.length_map, List.length_range]
    · intro index _ _
      simp only [dump, List.getElem_map, List.getElem_mapIdx, List.getElem_range,
        Variable.declaration]
  rw [identifiers, List.Nodup, List.pairwise_map]
  exact List.nodup_range.imp fun different same => different (identifier_injective same)

theorem initial_dump (recorder : Recorder) : recorder.dump.initial =
    recorder.dump.declarations.map fun signal => .assign signal.identifier none := by
  apply List.ext_getElem?
  intro index
  rw [dump, List.getElem?_map, List.getElem?_mapIdx, List.getElem?_mapIdx, Option.map_map]
  rfl

theorem finalTime?_dump (recorder : Recorder) : recorder.dump.finalTime? = some recorder.time := by
  rw [Dump.finalTime?, dump, List.filterMap_append]
  exact List.getLast?_concat

theorem scope_foldl (recorder : Recorder) (captures : List (List Nat)) :
    (captures.foldl capture recorder).scope = recorder.scope ∧
      (captures.foldl capture recorder).timescale = recorder.timescale := by
  induction captures generalizing recorder with
  | nil => exact ⟨rfl, rfl⟩
  | cons values captures ih => exact ih (recorder.capture values)

theorem Captured.writable {declared : List (String × Nat)} {captures : List (List Nat)}
    (captured : Captured declared captures recorder) (timescale : Text.IsWord recorder.timescale)
    (scope : Text.IsWord recorder.scope) (names : ∀ signal ∈ declared, Text.IsWord signal.1)
    (fits : ∀ values ∈ captures, ∀ (index : Nat) (signal : String × Nat),
      declared[index]? = some signal →
      ∀ value, values[index]? = some value → value < 2 ^ signal.2) : Writable recorder where
  timescale := timescale
  scope := scope
  names signal member := by
    have known : (signal.name, signal.width) ∈ declared := by
      rw [← captured.signals]
      exact List.mem_map_of_mem member
    exact names _ known
  fits change member := by
    obtain ⟨within, values, was, given⟩ := captured.given change member
    have known : recorder.signals[change.index]?.map (·.width) =
        some declared[change.index].2 := by
      have found := congrArg (·[change.index]?) captured.signals
      simp only [List.getElem?_map, List.getElem?_eq_getElem within] at found
      have widths := congrArg (Option.map Prod.snd) found
      rwa [Option.map_map] at widths
    rw [known, Option.getD_some]
    exact fits values was _ _ (List.getElem?_eq_getElem within) _ given

end Recorder

/-- Reading the dump of any captures gives back what was declared, the number of captures, and at
each time the value captured last for each signal. Values without a signal are left out, and a
signal without a value keeps the one it has. -/
theorem read_render {scope timescale : String} {names : List String} (widths : List Nat)
    {captures : List (List Nat)} (scope_word : Text.IsWord scope)
    (timescale_word : Text.IsWord timescale) (name_words : ∀ name ∈ names, Text.IsWord name)
    (fits : ∀ values ∈ captures, ∀ index < names.length, ∀ value, values[index]? = some value →
      value < 2 ^ widths[index]?.getD 1) :
    ∃ dump, read (captures.foldl Recorder.capture
        (Recorder.declare { scope, timescale } names widths)).render = some dump ∧
      dump.scope = scope ∧ dump.timescale = timescale ∧
      dump.declarations.map (fun signal => (signal.name, signal.width)) =
        names.mapIdx (fun index name => (name, widths[index]?.getD 1)) ∧
      (dump.declarations.map (·.identifier)).Nodup ∧
      dump.initial = dump.declarations.map (fun signal => .assign signal.identifier none) ∧
      dump.finalTime? = some captures.length ∧
      ∀ time, ∀ index < names.length,
        dump.valueAt index time = mostRecent captures time index := by
  have captured := (Recorder.Captured.declare scope timescale names widths).foldl captures
  rw [List.nil_append] at captured
  have texts := Recorder.scope_foldl (Recorder.declare { scope, timescale } names widths) captures
  generalize captures.foldl Recorder.capture _ = recorder at captured texts ⊢
  obtain ⟨rfl, rfl⟩ : recorder.scope = scope ∧ recorder.timescale = timescale := texts
  have length : recorder.signals.length = names.length := by
    rw [captured.length_signals, List.length_mapIdx]
  have writable : recorder.Writable := by
    refine captured.writable timescale_word scope_word (fun signal member => ?_)
      (fun values was index signal declared value given => ?_)
    · obtain ⟨index, within, rfl⟩ := List.mem_mapIdx.mp member
      exact name_words _ (List.getElem_mem within)
    · rw [List.getElem?_mapIdx] at declared
      obtain ⟨name, present, rfl⟩ := Option.map_eq_some_iff.mp declared
      exact fits values was index (List.getElem?_eq_some_iff.mp present).1 value given
  refine ⟨recorder.dump, Recorder.read_render_eq writable, rfl, rfl, ?_,
    recorder.nodup_identifiers, recorder.initial_dump, ?_, ?_⟩
  · rw [recorder.declared_dump, captured.signals]
  · rw [recorder.finalTime?_dump, captured.time]
  · intro time index within
    rw [Recorder.valueAt_dump captured.sorted (length ▸ within)]
    exact captured.latest index (by rwa [List.length_mapIdx]) time

/-- A signal of one bit and a vector; of the last two captures one is too short and one too
long. -/
theorem read_render_of_uneven :
    let captures := [[1, 5], [0], [0, 7, 9]]
    ∃ dump, read (captures.foldl Recorder.capture (Recorder.declare
        { scope := "top", timescale := "1ns" } ["valid", "bus"] [1, 4])).render = some dump ∧
      dump.scope = "top" ∧ dump.timescale = "1ns" ∧
      dump.declarations.map (fun signal => (signal.name, signal.width)) =
        ["valid", "bus"].mapIdx (fun index name => (name, [1, 4][index]?.getD 1)) ∧
      (dump.declarations.map (·.identifier)).Nodup ∧
      dump.initial = dump.declarations.map (fun signal => .assign signal.identifier none) ∧
      dump.finalTime? = some captures.length ∧
      ∀ time, ∀ index < ["valid", "bus"].length,
        dump.valueAt index time = mostRecent captures time index :=
  read_render [1, 4] (by decide) (by decide) (by decide) (by decide)

end GoldenCircuit.Waveform
