/-! What is known of one signal over time: the cycles at which a value was recorded, in strictly
increasing order, each with that value. Between two entries the earlier one holds. -/
namespace GoldenCircuit

/-- The value recorded at a cycle. -/
structure Entry where
  cycle : Nat
  value : Nat
deriving DecidableEq

/-- The recorded entries, oldest first. Each cycle has at most one. -/
structure History where
  entries : Array Entry
  ordered : entries.toList.Pairwise (·.cycle < ·.cycle)

/-- In the half-open interval from `lo` to `hi`, the first place at which `holds` fails, where
`holds` is true up to some place and false from there on. The interval is halved at most `fuel`
times. -/
def bisect (holds : Nat → Bool) : (fuel lo hi : Nat) → Nat
  | 0, lo, _ => lo
  | fuel + 1, lo, hi =>
    if lo < hi then
      let middle := (lo + hi) / 2
      if holds middle then bisect holds fuel (middle + 1) hi else bisect holds fuel lo middle
    else lo

namespace History

def empty : History :=
  ⟨#[], .nil⟩

instance : Inhabited History := ⟨empty⟩

/-- The entry recorded last. -/
def latest? (history : History) : Option Entry :=
  history.entries.back?

/-- No entry is later than the last one. -/
theorem cycle_le_of_latest? {history : History} {last : Entry}
    (latest : history.latest? = some last) :
    ∀ entry ∈ history.entries.toList, entry.cycle ≤ last.cycle := by
  intro entry member
  obtain ⟨earlier, split⟩ :=
    List.getLast?_eq_some_iff.mp ((Array.getLast?_toList ..).trans latest)
  have order := history.ordered
  rw [split, List.pairwise_append] at order
  rw [split, List.mem_append, List.mem_singleton] at member
  rcases member with before | same
  · exact Nat.le_of_lt (order.2.2 entry before last (List.mem_singleton_self _))
  · exact Nat.le_of_eq (congrArg Entry.cycle same)

def append (history : History) (entry : Entry)
    (later : ∀ old ∈ history.entries.toList, old.cycle < entry.cycle) : History where
  entries := history.entries.push entry
  ordered := by
    rw [Array.toList_push, List.pairwise_append]
    refine ⟨history.ordered, List.pairwise_singleton .., fun old member new isNew => ?_⟩
    rw [List.mem_singleton.mp isNew]
    exact later old member

/-- All entries but the last. -/
def dropLatest (history : History) : History where
  entries := history.entries.pop
  ordered := by
    rw [Array.toList_pop]
    exact history.ordered.sublist (List.dropLast_sublist _)

/-- Without the last entry, all are earlier than it. -/
theorem cycle_lt_of_mem_dropLatest {history : History} {last : Entry}
    (latest : history.latest? = some last) :
    ∀ entry ∈ history.dropLatest.entries.toList, entry.cycle < last.cycle := by
  intro entry member
  obtain ⟨earlier, split⟩ :=
    List.getLast?_eq_some_iff.mp ((Array.getLast?_toList ..).trans latest)
  have order := history.ordered
  rw [split, List.pairwise_append] at order
  rw [dropLatest, Array.toList_pop, split, List.dropLast_concat] at member
  exact order.2.2 entry member last (List.mem_singleton_self _)

/-- The cycle recorded last, if it is later than a given one, which then cannot be recorded any
more. -/
def overtaken? (history : History) (cycle : Nat) : Option Nat :=
  (history.latest?.map (·.cycle)).filter (cycle < ·)

/-- Records a value for a cycle. The cycle recorded last may be recorded again, and the new value
replaces the old one; an earlier cycle is refused, and nothing changes. -/
def record (history : History) (cycle value : Nat) : History :=
  match latest : history.latest? with
  | none => history.append ⟨cycle, value⟩ (by
      have none : history.entries = #[] := Array.back?_eq_none_iff.mp latest
      simp [none])
  | some last =>
    if past : cycle < last.cycle then
      history
    else if same : last.cycle = cycle then
      history.dropLatest.append ⟨cycle, value⟩ (fun old member =>
        Nat.lt_of_lt_of_eq (cycle_lt_of_mem_dropLatest latest old member) same)
    else
      history.append ⟨cycle, value⟩ (fun old member => by
        have := cycle_le_of_latest? latest old member
        show old.cycle < cycle
        omega)

/-- The value recorded last. -/
def value? (history : History) : Option Nat :=
  history.latest?.map (·.value)

/-- The number of entries up to and including a cycle, found by halving. -/
def countThrough (history : History) (cycle : Nat) : Nat :=
  bisect (fun place => history.entries[place]?.any (·.cycle ≤ cycle))
    history.entries.size 0 history.entries.size

/-- The value that holds at a cycle: the one recorded last at it or before it. -/
def valueAt? (history : History) (cycle : Nat) : Option Nat :=
  match history.countThrough cycle with
  | 0 => none
  | count + 1 => history.entries[count]?.map (·.value)

end History
end GoldenCircuit
