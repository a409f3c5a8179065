import GoldenCircuit.History

/-! A history as a list of entries. Recording keeps the entries before the recorded cycle and puts
one at their end; what holds at a cycle is the last entry up to it, which the search by halving
finds. -/
namespace GoldenCircuit

/-- Where `holds` is true up to a place in the interval and false from there on, halving the
interval finds that place. -/
theorem bisect_eq {holds : Nat → Bool} {boundary fuel lo hi : Nat}
    (cut : ∀ place, holds place = true ↔ place < boundary) (above : lo ≤ boundary)
    (below : boundary ≤ hi) (enough : hi - lo ≤ fuel) : bisect holds fuel lo hi = boundary := by
  induction fuel generalizing lo hi with
  | zero =>
    rw [bisect]
    omega
  | succ fuel ih =>
    rw [bisect]
    by_cases inside : lo < hi
    · rw [if_pos inside]
      by_cases left : holds ((lo + hi) / 2) = true
      · rw [if_pos left]
        have := (cut _).mp left
        exact ih (by omega) below (by omega)
      · rw [if_neg left]
        have := (not_congr (cut _)).mp left
        exact ih above (by omega) (by omega)
    · rw [if_neg inside]
      omega

namespace History

/-- Nothing is recorded for a cycle after a given one. -/
def UpTo (history : History) (cycle : Nat) : Prop :=
  ∀ entry ∈ history.entries.toList, entry.cycle ≤ cycle

instance (history : History) (cycle : Nat) : Decidable (history.UpTo cycle) :=
  inferInstanceAs (Decidable (∀ entry ∈ history.entries.toList, _))

theorem UpTo.mono {history : History} {early late : Nat} (upTo : history.UpTo early)
    (le : early ≤ late) : history.UpTo late :=
  fun entry member => Nat.le_trans (upTo entry member) le

/-- The entries up to and including a cycle. -/
def through (history : History) (cycle : Nat) : List Entry :=
  history.entries.toList.filter (·.cycle ≤ cycle)

/-- The entries after a cycle. -/
def after (history : History) (cycle : Nat) : List Entry :=
  history.entries.toList.filter (cycle < ·.cycle)

/-- Entries in order of cycles fall into those up to a cycle and those after it. -/
theorem filter_append_filter {entries : List Entry}
    (ordered : entries.Pairwise (·.cycle < ·.cycle)) (cycle : Nat) :
    entries.filter (·.cycle ≤ cycle) ++ entries.filter (cycle < ·.cycle) = entries := by
  induction entries with
  | nil => rfl
  | cons first entries ih =>
    obtain ⟨earliest, ordered⟩ := List.pairwise_cons.mp ordered
    by_cases early : first.cycle ≤ cycle
    · rw [List.filter_cons_of_pos (by simpa using early),
        List.filter_cons_of_neg (by simpa using early), List.cons_append, ih ordered]
    · have late : ∀ entry ∈ first :: entries, cycle < entry.cycle := by
        intro entry member
        rcases List.mem_cons.mp member with rfl | later
        · omega
        · have := earliest entry later
          omega
      have none : (first :: entries).filter (·.cycle ≤ cycle) = [] := by
        simpa [List.filter_eq_nil_iff] using late
      have all : (first :: entries).filter (cycle < ·.cycle) = first :: entries :=
        List.filter_eq_self.mpr (by simpa using late)
      rw [none, all, List.nil_append]

theorem through_append_after (history : History) (cycle : Nat) :
    history.through cycle ++ history.after cycle = history.entries.toList :=
  filter_append_filter history.ordered cycle

theorem countThrough_eq (history : History) (cycle : Nat) :
    history.countThrough cycle = (history.through cycle).length := by
  have count_le : (history.through cycle).length ≤ history.entries.size :=
    List.length_filter_le _ _
  refine bisect_eq ?_ (Nat.zero_le _) count_le (Nat.sub_le _ _)
  intro place
  rw [← Array.getElem?_toList, ← through_append_after history cycle, List.getElem?_append]
  split
  next early =>
    have held := List.mem_filter.mp (List.getElem_mem early)
    simpa [List.getElem?_eq_getElem early, early] using held.2
  next late =>
    cases found : (history.after cycle)[place - (history.through cycle).length]? with
    | none => simpa using late
    | some entry =>
      have held := List.mem_filter.mp (List.mem_of_getElem? found)
      have := of_decide_eq_true held.2
      simp only [Option.any_some, decide_eq_true_eq]
      omega

/-- What holds at a cycle was recorded by the last entry up to it. -/
theorem valueAt?_eq (history : History) (cycle : Nat) :
    history.valueAt? cycle = (history.through cycle).getLast?.map (·.value) := by
  rw [valueAt?, countThrough_eq]
  split
  next none => simp [List.eq_nil_of_length_eq_zero none]
  next count length =>
    have within : count < (history.through cycle).length := by omega
    rw [← Array.getElem?_toList, ← through_append_after history cycle,
      List.getElem?_append_left within, List.getLast?_eq_getElem?, length, Nat.succ_sub_one]

/-- What was recorded for a cycle holds at that cycle. -/
theorem valueAt?_of_mem {history : History} {entry : Entry}
    (member : entry ∈ history.entries.toList) :
    history.valueAt? entry.cycle = some entry.value := by
  obtain ⟨early, late, split⟩ := List.append_of_mem member
  have order := history.ordered
  rw [split, List.pairwise_append, List.pairwise_cons] at order
  obtain ⟨-, ⟨after, -⟩, before⟩ := order
  have kept : early.filter (·.cycle ≤ entry.cycle) = early :=
    List.filter_eq_self.mpr fun old among =>
      decide_eq_true (Nat.le_of_lt (before old among entry List.mem_cons_self))
  have dropped : late.filter (·.cycle ≤ entry.cycle) = [] := by
    simpa [List.filter_eq_nil_iff] using after
  have through : history.through entry.cycle = early ++ [entry] := by
    rw [History.through, split, List.filter_append, List.filter_cons_of_pos (by simp), kept, dropped]
  rw [valueAt?_eq, through, List.getLast?_concat, Option.map_some]

theorem value?_eq (history : History) :
    history.value? = history.entries.toList.getLast?.map (·.value) := by
  rw [value?, latest?, Array.getLast?_toList]

theorem value?_eq_none_iff {history : History} : history.value? = none ↔ history.entries = #[] := by
  rw [value?, Option.map_eq_none_iff, latest?, Array.back?_eq_none_iff]

/-- At a cycle that nothing was recorded after, the value recorded last holds. -/
theorem UpTo.valueAt?_eq {history : History} {cycle : Nat} (upTo : history.UpTo cycle) :
    history.valueAt? cycle = history.value? := by
  have all : history.through cycle = history.entries.toList :=
    List.filter_eq_self.mpr fun entry member => decide_eq_true (upTo entry member)
  rw [History.valueAt?_eq, value?_eq, all]

theorem overtaken?_eq_none_iff {history : History} {cycle : Nat} :
    history.overtaken? cycle = none ↔ history.UpTo cycle := by
  rw [overtaken?]
  cases latest : history.latest? with
  | none =>
    have empty : history.entries = #[] := Array.back?_eq_none_iff.mp latest
    simp [UpTo, empty]
  | some last =>
    have member : last ∈ history.entries.toList :=
      List.mem_of_getLast? ((Array.getLast?_toList ..).trans latest)
    simp only [Option.map_some, Option.filter_eq_none_iff, Option.some.injEq, decide_eq_true_eq,
      forall_eq', Nat.not_lt]
    constructor
    · intro reached entry among
      exact Nat.le_trans (cycle_le_of_latest? latest entry among) reached
    · intro all
      exact all last member

theorem overtaken?_eq_some_iff {history : History} {cycle time : Nat} :
    history.overtaken? cycle = some time ↔
      ∃ last, history.latest? = some last ∧ last.cycle = time ∧ cycle < last.cycle := by
  rw [overtaken?, Option.filter_eq_some_iff, Option.map_eq_some_iff]
  constructor
  · rintro ⟨⟨last, latest, rfl⟩, ahead⟩
    exact ⟨last, latest, rfl, of_decide_eq_true ahead⟩
  · rintro ⟨last, latest, rfl, ahead⟩
    exact ⟨⟨last, latest, rfl⟩, decide_eq_true ahead⟩

/-- A history that is not ahead of a cycle takes an entry for it: the entries before the cycle
stay, and the new one follows them. -/
theorem toList_record {history : History} {cycle : Nat} (value : Nat)
    (upTo : history.UpTo cycle) :
    (history.record cycle value).entries.toList =
      history.entries.toList.filter (·.cycle < cycle) ++ [⟨cycle, value⟩] := by
  unfold record
  split
  next latest =>
    have empty : history.entries = #[] := Array.back?_eq_none_iff.mp latest
    simp [append, empty]
  next last latest =>
    obtain ⟨earlier, shape⟩ :=
      List.getLast?_eq_some_iff.mp ((Array.getLast?_toList ..).trans latest)
    have last_le : last.cycle ≤ cycle := upTo last (by simp [shape])
    have before := cycle_lt_of_mem_dropLatest latest
    simp only [dropLatest, Array.toList_pop, shape, List.dropLast_concat] at before
    rw [dif_neg (Nat.not_lt.mpr last_le)]
    split
    next same =>
      have kept : earlier.filter (·.cycle < cycle) = earlier :=
        List.filter_eq_self.mpr fun entry member => by simpa [← same] using before entry member
      simp [append, dropLatest, shape, kept, same]
    next different =>
      have kept : history.entries.toList.filter (·.cycle < cycle) = history.entries.toList := by
        apply List.filter_eq_self.mpr
        intro entry member
        have := cycle_le_of_latest? latest entry member
        simp only [decide_eq_true_eq]
        omega
      simp [append, kept]

/-- A history that is ahead of a cycle takes no entry for it. -/
theorem record_of_overtaken {history : History} {cycle last : Nat} (value : Nat)
    (ahead : history.overtaken? cycle = some last) : history.record cycle value = history := by
  unfold record
  split
  next none => simp [overtaken?, none] at ahead
  next entry latest =>
    rw [overtaken?, latest, Option.map_some, Option.filter_eq_some_iff] at ahead
    obtain ⟨same, past⟩ := ahead
    rw [dif_pos (by simpa [← Option.some.inj same] using past)]

theorem mem_record {history : History} {cycle value : Nat} {entry : Entry}
    (member : entry ∈ (history.record cycle value).entries.toList) :
    entry ∈ history.entries.toList ∨ entry = ⟨cycle, value⟩ := by
  cases ahead : history.overtaken? cycle with
  | some last =>
    rw [record_of_overtaken value ahead] at member
    exact .inl member
  | none =>
    rw [toList_record value (overtaken?_eq_none_iff.mp ahead), List.mem_append,
      List.mem_singleton] at member
    exact member.imp_left fun old => (List.mem_filter.mp old).1

theorem UpTo.record {history : History} {cycle : Nat} (upTo : history.UpTo cycle) (value : Nat) :
    (history.record cycle value).UpTo cycle := by
  intro entry member
  rcases mem_record member with old | rfl
  · exact upTo entry old
  · exact Nat.le_refl _

theorem UpTo.value?_record {history : History} {cycle : Nat} (upTo : history.UpTo cycle)
    (value : Nat) : (history.record cycle value).value? = some value := by
  rw [value?_eq, toList_record value upTo, List.getLast?_concat, Option.map_some]

theorem ext_of_entries {one other : History} (entries : one.entries.toList = other.entries.toList) :
    one = other := by
  obtain ⟨entries, _⟩ := one
  obtain ⟨entries', _⟩ := other
  cases Array.toList_inj.mp entries
  rfl

/-- Of the values recorded for one cycle, the last one stays. -/
theorem record_record (history : History) (cycle first last : Nat) :
    (history.record cycle first).record cycle last = history.record cycle last := by
  cases ahead : history.overtaken? cycle with
  | some time => rw [record_of_overtaken first ahead]
  | none =>
    have upTo := overtaken?_eq_none_iff.mp ahead
    apply ext_of_entries
    rw [toList_record last (upTo.record first), toList_record first upTo, toList_record last upTo]
    simp [List.filter_append, List.filter_filter]

/-- Recording for a cycle changes what holds from that cycle on, and nothing before it. -/
theorem UpTo.valueAt?_record {history : History} {cycle : Nat} (upTo : history.UpTo cycle)
    (value time : Nat) :
    (history.record cycle value).valueAt? time =
      if cycle ≤ time then some value else history.valueAt? time := by
  split
  next late =>
    rw [((upTo.record value).mono late).valueAt?_eq, upTo.value?_record]
  next early =>
    have same : (history.record cycle value).through time = history.through time := by
      rw [through, toList_record value upTo, List.filter_append, List.filter_filter,
        List.filter_cons_of_neg (by simpa using early), List.filter_nil, List.append_nil, through]
      apply List.filter_congr
      intro entry _
      simp only [← Bool.decide_and, decide_eq_decide]
      omega
    rw [History.valueAt?_eq, same, History.valueAt?_eq]

end History
end GoldenCircuit
