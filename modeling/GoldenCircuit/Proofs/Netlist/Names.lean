import Mathlib.Data.List.Nodup
import Mathlib.Data.List.Perm.Subperm
import Mathlib.Order.Bounds.Basic
import GoldenCircuit.Proofs.Netlist.Editing

/-! Names in a netlist. A name stands for the first signal that bears it, whatever is added later. An
automatic name is one that no signal bears yet, so that it stands for its signal for good. -/
namespace GoldenCircuit

namespace Netlist

theorem find?_eq_some_iff {netlist : Netlist} {name : String} {id : Nat} :
    netlist.find? name = some id ↔
      IsLeast {id | id < netlist.size ∧ (netlist.signal id).name = name} id := by
  rw [find?_eq, List.findIdx?_eq_some_iff_getElem]
  constructor
  · rintro ⟨inside, here, others⟩
    rw [netlist.getElem_names, beq_iff_eq] at here
    refine ⟨⟨by rwa [length_names] at inside, here⟩, fun other ⟨_, same⟩ => ?_⟩
    by_contra before
    have earlier := others other (Nat.lt_of_not_le before)
    rw [netlist.getElem_names, beq_iff_eq] at earlier
    exact earlier same
  · rintro ⟨⟨within, here⟩, least⟩
    have inside : id < netlist.names.length := by rwa [length_names]
    refine ⟨inside, by rw [netlist.getElem_names, here, beq_self_eq_true],
      fun other before same => ?_⟩
    rw [netlist.getElem_names, beq_iff_eq] at same
    exact Nat.not_le_of_lt before (least ⟨Nat.lt_trans before within, same⟩)

theorem find?_eq_none_iff {netlist : Netlist} {name : String} :
    netlist.find? name = none ↔ ∀ id < netlist.size, (netlist.signal id).name ≠ name := by
  rw [find?_eq, List.findIdx?_eq_none_iff]
  constructor
  · intro none id within same
    have named := none _ ((netlist.mem_names_iff name).mpr ⟨id, within, same⟩)
    exact absurd named (by simp)
  · intro none other member
    obtain ⟨id, within, same⟩ := (netlist.mem_names_iff other).mp member
    exact beq_false_of_ne (same ▸ none id within)

/-- A name keeps standing for the same signal. -/
theorem Extends.find? {small large : Netlist} (grown : small.Extends large) {name : String} {id : Nat}
    (found : small.find? name = some id) : large.find? name = some id := by
  rw [find?_eq_some_iff] at found ⊢
  obtain ⟨⟨within, here⟩, least⟩ := found
  refine ⟨⟨Nat.lt_of_lt_of_le within grown.size_le, (grown.name id within).trans here⟩, ?_⟩
  rintro other ⟨-, same⟩
  by_contra before
  have earlier : other < small.size := Nat.lt_trans (Nat.lt_of_not_le before) within
  exact before (least ⟨earlier, (grown.name other earlier).symm.trans same⟩)

/-- A name that no signal bears yet stands for the first signal that is added under it. -/
theorem Extends.find?_size {small large : Netlist} (grown : small.Extends large) {name : String}
    (free : ∀ id < small.size, (small.signal id).name ≠ name) (added : small.size < large.size)
    (named : (large.signal small.size).name = name) : large.find? name = some small.size := by
  rw [find?_eq_some_iff]
  refine ⟨⟨added, named⟩, ?_⟩
  rintro other ⟨-, same⟩
  by_contra before
  have earlier : other < small.size := Nat.lt_of_not_le before
  exact free other earlier ((grown.name other earlier).symm.trans same)

/-! ### Automatic names -/

theorem le_firstFree (taken : String → Bool) (fuel number : Nat) :
    number ≤ firstFree taken fuel number ∧ firstFree taken fuel number ≤ number + fuel := by
  fun_induction firstFree taken fuel number with
  | case1 number => omega
  | case2 fuel number _ ih => omega
  | case3 fuel number _ => omega

/-- All numbers that are passed over are those of taken names. -/
theorem taken_of_lt_firstFree {taken : String → Bool} {fuel number other : Nat}
    (reached : number ≤ other) (before : other < firstFree taken fuel number) :
    taken (automaticName other) = true := by
  fun_induction firstFree taken fuel number with
  | case1 number => omega
  | case2 fuel number here ih =>
    rcases Nat.eq_or_lt_of_le reached with rfl | later
    · exact here
    · exact ih later before
  | case3 fuel number _ => omega

/-- The search stops at a free name, if there is one as far as it may go. -/
theorem firstFree_free {taken : String → Bool} {fuel number other : Nat} (reached : number ≤ other)
    (bounded : other ≤ number + fuel) (free : taken (automaticName other) = false) :
    taken (automaticName (firstFree taken fuel number)) = false := by
  fun_induction firstFree taken fuel number with
  | case1 number =>
    have here : number = other := by omega
    rwa [here]
  | case2 fuel number here ih =>
    have passed : number ≠ other := by
      rintro rfl
      exact Bool.false_ne_true (free.symm.trans here)
    exact ih (by omega) (by omega)
  | case3 fuel number here => exact Bool.eq_false_of_not_eq_true here

theorem automaticName_injective {one other : Nat}
    (same : automaticName one = automaticName other) : one = other := by
  have digits := congrArg String.toList same
  simp only [automaticName, String.toList_append] at digits
  have numbers := congrArg (Nat.ofDigitChars 10 · 0) (List.append_cancel_left digits)
  simpa [Nat.toString_eq_ofList_toDigits] using numbers

/-- A netlist has too few signals to bear one more automatic name than it has signals. -/
theorem exists_free (netlist : Netlist) (number : Nat) :
    ∃ other, number ≤ other ∧ other ≤ number + netlist.size ∧
      netlist.index.contains (automaticName other) = false := by
  by_contra none
  have taken : ∀ other, number ≤ other → other ≤ number + netlist.size →
      automaticName other ∈ netlist.names := by
    intro other reached bounded
    rw [mem_names_iff, ← contains_index_iff]
    by_contra free
    exact none ⟨other, reached, bounded, Bool.eq_false_of_not_eq_true free⟩
  have distinct : ((List.range (netlist.size + 1)).map fun step =>
      automaticName (number + step)).Nodup :=
    List.Nodup.map (fun _ _ same => Nat.add_left_cancel (automaticName_injective same))
      List.nodup_range
  have among : ((List.range (netlist.size + 1)).map fun step => automaticName (number + step)) ⊆
      netlist.names := by
    intro name member
    obtain ⟨step, within, rfl⟩ := List.mem_map.mp member
    have := List.mem_range.mp within
    exact taken _ (by omega) (by omega)
  have few := (distinct.subperm among).length_le
  rw [List.length_map, List.length_range, length_names] at few
  omega

/-- The next automatic name has the first number, from the running one on, whose name no signal
bears, and at most one name for each signal is tried in vain. -/
theorem freshNumber_isLeast (netlist : Netlist) :
    IsLeast {number | netlist.serial ≤ number ∧
      ∀ id < netlist.size, (netlist.signal id).name ≠ automaticName number} netlist.freshNumber := by
  constructor
  · refine ⟨(le_firstFree ..).1, fun id within same => ?_⟩
    obtain ⟨other, reached, bounded, free⟩ := netlist.exists_free netlist.serial
    have taken := (netlist.contains_index_iff _).mpr ⟨id, within, same⟩
    exact Bool.false_ne_true ((firstFree_free reached bounded free).symm.trans taken)
  · rintro other ⟨reached, free⟩
    by_contra before
    have taken := taken_of_lt_firstFree reached (Nat.lt_of_not_le before)
    obtain ⟨id, within, same⟩ := (netlist.contains_index_iff _).mp taken
    exact free id within same

/-- The signals are different ones, and the name of each of them stands for it. -/
structure Labelled (netlist : Netlist) (ids : List Nat) : Prop where
  nodup : ids.Nodup
  found : ∀ id ∈ ids, netlist.find? (netlist.signal id).name = some id

namespace Labelled

variable {small large : Netlist} {ids : List Nat}

theorem lt_size (labelled : small.Labelled ids) {id : Nat} (member : id ∈ ids) : id < small.size :=
  (find?_eq_some_iff.mp (labelled.found id member)).1.1

theorem mono (labelled : small.Labelled ids) (grown : small.Extends large) : large.Labelled ids where
  nodup := labelled.nodup
  found id member := by
    rw [grown.name id (labelled.lt_size member)]
    exact grown.find? (labelled.found id member)

/-- A signal that is added under an automatic name is another one, and its name stands for it. -/
theorem cons (labelled : small.Labelled ids) (grown : small.Extends large)
    (added : small.size < large.size)
    (named : (large.signal small.size).name = automaticName small.freshNumber) :
    large.Labelled (small.size :: ids) where
  nodup := List.nodup_cons.mpr
    ⟨fun member => Nat.lt_irrefl _ (labelled.lt_size member), labelled.nodup⟩
  found := by
    refine List.forall_mem_cons.mpr ⟨?_, (labelled.mono grown).found⟩
    rw [named]
    exact grown.find?_size small.freshNumber_isLeast.1.2 added named

theorem nodup_names (labelled : small.Labelled ids) :
    (ids.map fun id => (small.signal id).name).Nodup := by
  refine labelled.nodup.map_on fun one oneListed other otherListed same => ?_
  have found := labelled.found one oneListed
  rw [same, labelled.found other otherListed] at found
  exact (Option.some.inj found).symm

end Labelled
end Netlist

namespace Schematic

theorem labelled_does {edit : Edit} {before after : Schematic} (does : edit.Does before after)
    (labelled : before.netlist.Labelled before.automatic) :
    after.netlist.Labelled after.automatic := by
  have grown := does.extends
  cases does with
  | add name width => exact labelled.mono grown
  | addFresh =>
    refine labelled.cons grown (by simp) ?_
    rw [Netlist.signal_addFresh, if_pos rfl]
  | lay _ opcode width lhs_lt rhs_lt =>
    refine labelled.cons grown ?_ ?_
    · simp [lay]
    · simp only [lay, Netlist.signal_connect _ _ _ lhs_lt rhs_lt, if_true]
  | record id_lt value cycle => exact labelled.mono grown

/-- However a netlist was built, a name is found as the first signal of that name. The next automatic
name has the least number from the running one on that leads to a name which no signal bears, which
takes no more tries than there are signals, and one. So no two signals with automatic names share a
name, and whatever is built later, their names are found as them. -/
theorem names_of_editing {edits more : List Edit} (admits : empty.Admits (edits ++ more)) :
    let earlier := empty.editing edits
    let later := empty.editing (edits ++ more)
    let netlist := later.netlist
    (∀ name id, netlist.find? name = some id ↔
      IsLeast {id | id < netlist.size ∧ (netlist.signal id).name = name} id) ∧
    (∀ name, netlist.find? name = none ↔
      ∀ id < netlist.size, (netlist.signal id).name ≠ name) ∧
    (∃ number grown, netlist.addFresh = (grown, netlist.size) ∧
      IsLeast {number | netlist.serial ≤ number ∧
        ∀ id < netlist.size, (netlist.signal id).name ≠ "T" ++ toString number} number ∧
      number ≤ netlist.serial + netlist.size ∧
      grown.signal netlist.size = { name := "T" ++ toString number } ∧
      grown.serial = number + 1) ∧
    (later.automatic.map fun id => (netlist.signal id).name).Nodup ∧
    ∀ id ∈ earlier.automatic, netlist.find? (earlier.netlist.signal id).name = some id := by
  intro earlier later netlist
  obtain ⟨admitsEarlier, admitsMore⟩ := admits_append.mp admits
  have labelled {edits : List Edit} (admits : empty.Admits edits) :
      (empty.editing edits).netlist.Labelled (empty.editing edits).automatic :=
    (built_empty.editing_keeps (fun _ left => left.netlist.Labelled left.automatic)
      ⟨List.nodup_nil, nofun⟩ (fun _ _ => labelled_does) admits).2
  have grown : earlier.netlist.Extends netlist := by
    simp only [netlist, later, editing_append]
    exact (built_editing admitsEarlier).extends_editing admitsMore
  refine ⟨fun name id => Netlist.find?_eq_some_iff, fun name => Netlist.find?_eq_none_iff, ?_,
    (labelled admits).nodup_names, fun id member => ?_⟩
  · refine ⟨netlist.freshNumber, _, rfl, netlist.freshNumber_isLeast, (Netlist.le_firstFree ..).2,
      ?_, rfl⟩
    exact (netlist.signal_addFresh _).trans (if_pos rfl)
  · exact grown.find? ((labelled admitsEarlier).found id member)

/-- The first automatic name but one is taken, a name is given twice, and a gate is chained to a
gate. -/
def crowded : List Edit :=
  [.add "T1" (some ⟨17, by decide⟩), .addFresh, .add "a" none, .connect .xor ⟨19, by decide⟩ 2 2,
   .add "a" none, .extend 0 4]

/-- The name of a gate's destination is given to another signal later on. -/
theorem names_of_editing_of_crowded :
    let more : List Edit := [.add "T2" none, .addFresh, .add "T0" none]
    let later := (empty.editing (crowded ++ more)).netlist
    empty.Admits (crowded ++ more) ∧ later.find? "T2" = some 3 ∧
      IsLeast {id | id < later.size ∧ (later.signal id).name = "T2"} 3 := by
  intro more later
  have admits : empty.Admits (crowded ++ more) := by decide
  obtain ⟨finds, -, -, -, kept⟩ := names_of_editing admits
  have named : ((empty.editing crowded).netlist.signal 3).name = "T2" := by decide
  have found := kept 3 (by decide)
  rw [named] at found
  exact ⟨admits, found, (finds _ _).mp found⟩

end Schematic
end GoldenCircuit
