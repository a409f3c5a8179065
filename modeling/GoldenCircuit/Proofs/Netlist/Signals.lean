import GoldenCircuit.Proofs.Netlist.Editing

/-! What becomes of the signals of a netlist while it is built. Names stay, widths stay once they are
known, and histories are written by updates alone. The first gate that mentions a signal of unknown
width gives it its own. -/
namespace GoldenCircuit

/-- The gate computes the signal or reads it. -/
def Gate.Mentions (id : Nat) (gate : Gate) : Prop :=
  gate.dest = id ∨ id ∈ gate.sources

instance (id : Nat) (gate : Gate) : Decidable (gate.Mentions id) :=
  inferInstanceAs (Decidable (_ ∨ _))

/-- Every recorded value has at most the bits of the signal, whose width is known if there is one. -/
def Signal.Bounded (signal : Signal) : Prop :=
  ∀ entry ∈ signal.history.entries.toList,
    ∃ width, signal.width = some width ∧ entry.value < 2 ^ width.bits

theorem Signal.Bounded.record {signal : Signal} (bounded : signal.Bounded) {width : Width}
    (known : signal.width = some width) (value cycle : Nat) :
    (signal.record value cycle).Bounded := by
  intro entry member
  rw [width_record]
  rcases History.mem_record member with old | rfl
  · exact bounded entry old
  · exact ⟨width, known, fit_lt known value⟩

namespace Schematic

/-- The width of the first gate that mentions a signal. -/
def gateWidth? (schematic : Schematic) (id : Nat) : Option Width :=
  (schematic.gates.reverse.find? (·.Mentions id)).map (·.width)

/-- The widths that signals are declared with by edits, if at all, in the order of the signals. -/
def declaredWidths (edits : List Edit) : List (Option Width) :=
  edits.filterMap Edit.declares?

/-- Some of the edits updates the signal while its width is unknown. -/
def UpdatesBlindly (id : Nat) (schematic : Schematic) : List Edit → Prop
  | [] => False
  | edit :: edits =>
    edit.Updates id ∧ (schematic.netlist.signal id).width = none ∨
      UpdatesBlindly id (edit.perform schematic) edits

instance decidableUpdatesBlindly (id : Nat) (schematic : Schematic) : (edits : List Edit) →
    Decidable (schematic.UpdatesBlindly id edits)
  | [] => .isFalse fun updates => updates
  | edit :: edits =>
    have := decidableUpdatesBlindly id (edit.perform schematic) edits
    inferInstanceAs (Decidable (_ ∧ _ ∨ _))

theorem updatesBlindly_concat {id : Nat} {schematic : Schematic} {edits : List Edit} {edit : Edit} :
    schematic.UpdatesBlindly id (edits ++ [edit]) ↔ schematic.UpdatesBlindly id edits ∨
      edit.Updates id ∧ ((schematic.editing edits).netlist.signal id).width = none := by
  induction edits generalizing schematic with
  | nil => simp [UpdatesBlindly, editing]
  | cons first edits ih => simp only [List.cons_append, UpdatesBlindly, ih, or_assoc, editing,
      List.foldl_cons]

variable {schematic : Schematic}

/-- No gate mentions a signal that is not there. -/
theorem Built.gateWidth?_of_size_le (built : schematic.Built) {id : Nat}
    (beyond : schematic.netlist.size ≤ id) : schematic.gateWidth? id = none := by
  rw [gateWidth?, Option.map_eq_none_iff, List.find?_eq_none]
  intro gate member mentions
  have laid := Netlist.Built.laid built gate (List.mem_reverse.mp member)
  obtain ⟨lhs, rhs, sources, lhs_lt, rhs_lt⟩ := laid.sources
  have dest_lt := laid.dest_lt
  rcases of_decide_eq_true mentions with rfl | read
  · omega
  · rw [sources, List.mem_cons, List.mem_singleton] at read
    omega

theorem gateWidth?_lay (schematic : Schematic) (laid : Netlist × Gate) (id : Nat) :
    (schematic.lay laid).gateWidth? id =
      (schematic.gateWidth? id).or (if laid.2.Mentions id then some laid.2.width else none) := by
  unfold gateWidth? lay
  rw [List.reverse_cons, List.find?_append, Option.map_or, List.find?_cons]
  split <;> simp_all

theorem join_getElem?_concat (declared : List (Option Width)) (last : Option Width) (id : Nat) :
    (declared ++ [last])[id]?.join = if id = declared.length then last else declared[id]?.join := by
  split
  next here => rw [here, List.getElem?_concat_length, Option.join_some]
  next other =>
    rcases Nat.lt_or_gt_of_ne other with before | beyond
    · rw [List.getElem?_append_left before]
    · have past : (declared ++ [last]).length ≤ id := by simpa using Nat.succ_le_of_lt beyond
      rw [List.getElem?_eq_none (Nat.le_of_lt beyond), List.getElem?_eq_none past]

/-- Every signal has the width that it is declared with, or else that of the first gate that mentions
it. -/
structure WidthsFollow (schematic : Schematic) (declared : List (Option Width)) : Prop where
  length : declared.length = schematic.netlist.size
  width : ∀ id,
    (schematic.netlist.signal id).width = (declared[id]?.join).or (schematic.gateWidth? id)

/-- A signal that is added has the width that it is declared with: no gate mentions it yet. -/
theorem WidthsFollow.push {declared : List (Option Width)} (follows : schematic.WidthsFollow declared)
    (built : schematic.Built) {grown : Netlist} {added : Signal}
    (size : grown.size = schematic.netlist.size + 1)
    (signal : ∀ id, grown.signal id =
      if id = schematic.netlist.size then added else schematic.netlist.signal id)
    (automatic : List Nat) :
    WidthsFollow ⟨grown, automatic, schematic.gates⟩ (declared ++ [added.width]) := by
  constructor
  · rw [List.length_append, follows.length]
    exact size.symm
  · intro id
    show (grown.signal id).width = Option.or _ (schematic.gateWidth? id)
    rw [signal, join_getElem?_concat, follows.length]
    split
    next here => rw [here, built.gateWidth?_of_size_le (Nat.le_refl _), Option.or_none]
    next other => exact follows.width id

/-- A gate gives its width to the signals that it mentions, unless theirs is known. -/
theorem WidthsFollow.lay {declared : List (Option Width)} (follows : schematic.WidthsFollow declared)
    (built : schematic.Built) (opcode : Opcode) (width : Width) {lhs rhs : Nat}
    (lhs_lt : lhs < schematic.netlist.size) (rhs_lt : rhs < schematic.netlist.size) :
    (schematic.lay (schematic.netlist.connect opcode width lhs rhs)).WidthsFollow
      (declared ++ [none]) := by
  have gate := schematic.netlist.gate_connect opcode width lhs_lt rhs_lt
  have signal := schematic.netlist.signal_connect opcode width lhs_lt rhs_lt
  have mentions (id : Nat) : (schematic.netlist.connect opcode width lhs rhs).2.Mentions id ↔
      id = schematic.netlist.size ∨ id = lhs ∨ id = rhs := by
    rw [gate, Gate.Mentions, eq_comm]
    simp
  constructor
  · rw [List.length_append, follows.length]
    exact (schematic.netlist.size_connect opcode width lhs rhs).symm
  · intro id
    show ((schematic.netlist.connect opcode width lhs rhs).1.signal id).width = _
    rw [signal, join_getElem?_concat, follows.length, gateWidth?_lay]
    by_cases dest : id = schematic.netlist.size
    · rw [if_pos dest, if_pos dest, if_pos ((mentions id).mpr (.inl dest)), gate, dest,
        built.gateWidth?_of_size_le (Nat.le_refl _)]
      rfl
    · rw [if_neg dest, if_neg dest, ← Option.or_assoc, ← follows.width]
      by_cases read : id = lhs ∨ id = rhs
      · rw [if_pos read, if_pos ((mentions id).mpr (.inr read)), gate, Signal.inferWidth]
        cases (schematic.netlist.signal id).width <;> rfl
      · rw [if_neg read, if_neg ((mentions id).not.mpr (not_or.mpr ⟨dest, read⟩)), Option.or_none]

end Schematic

namespace Edit.Does

variable {edit : Edit} {before after : Schematic}

theorem widthsFollow (does : edit.Does before after) (built : before.Built) {edits : List Edit}
    (follows : before.WidthsFollow (Schematic.declaredWidths edits)) :
    after.WidthsFollow (Schematic.declaredWidths (edits ++ [edit])) := by
  rw [Schematic.declaredWidths, List.filterMap_append]
  cases does with
  | add name width =>
    exact follows.push built (Netlist.size_add ..) (before.netlist.signal_push _) _
  | addFresh =>
    exact follows.push built (Netlist.size_addFresh _) before.netlist.signal_addFresh _
  | lay declares opcode width lhs_lt rhs_lt =>
    rw [List.filterMap_cons_some declares]
    exact follows.lay built opcode width lhs_lt rhs_lt
  | record id_lt value cycle =>
    rw [List.filterMap_cons_none rfl, List.filterMap_nil, List.append_nil]
    constructor
    · exact follows.length.trans (Netlist.size_record ..).symm
    · intro id
      rw [Netlist.signal_record _ id_lt]
      split
      next here => rw [Signal.width_record, ← here]; exact follows.width id
      next => exact follows.width id

/-- Only an update of a signal changes what was recorded for it. -/
theorem history_eq (does : edit.Does before after) {id : Nat} (other : ¬ edit.Updates id) :
    (after.netlist.signal id).history = (before.netlist.signal id).history := by
  have fresh : (before.netlist.signal before.netlist.size).history = .empty := by
    rw [Netlist.signal_of_size_le (Nat.le_refl _)]
    rfl
  cases does with
  | add name width =>
    show ((before.netlist.push _).signal id).history = _
    rw [Netlist.signal_push]
    split
    next here => rw [here, fresh]
    next => rfl
  | addFresh =>
    rw [Netlist.signal_addFresh]
    split
    next here => rw [here, fresh]
    next => rfl
  | lay _ opcode width lhs_lt rhs_lt =>
    rw [Schematic.lay, Netlist.signal_connect _ opcode width lhs_lt rhs_lt]
    split
    next here => rw [here, fresh]
    next => split <;> rfl
  | record id_lt value cycle =>
    rw [Netlist.signal_record_of_ne id_lt (Ne.symm other)]

/-- Values stay within the width of their signal, if none is recorded while it is unknown. -/
theorem bounded (does : edit.Does before after) {id : Nat}
    (known : edit.Updates id → (before.netlist.signal id).width ≠ none)
    (bounded : (before.netlist.signal id).Bounded) : (after.netlist.signal id).Bounded := by
  by_cases updates : edit.Updates id
  · cases does with
    | add | addFresh => contradiction
    | lay declares => exact absurd updates (not_updates_of_declares declares id)
    | record id_lt value cycle =>
      cases updates
      obtain ⟨width, known⟩ := Option.ne_none_iff_exists'.mp (known rfl)
      rw [Netlist.signal_record_self id_lt]
      exact bounded.record known value cycle
  · intro entry member
    rw [does.history_eq updates] at member
    obtain ⟨width, known, fits⟩ := bounded entry member
    have id_lt : id < before.netlist.size := by
      by_contra beyond
      rw [Netlist.signal_of_size_le (Nat.le_of_not_lt beyond)] at known
      contradiction
    exact ⟨width, does.extends.width id id_lt width known, fits⟩

end Edit.Does

namespace Schematic

theorem widthsFollow_editing {edits : List Edit} (admits : empty.Admits edits) :
    (empty.editing edits).WidthsFollow (declaredWidths edits) :=
  (built_empty.editing_keeps (fun edits left => left.WidthsFollow (declaredWidths edits))
    ⟨rfl, fun _ => rfl⟩ (fun _ built does => does.widthsFollow built) admits).2

theorem Built.history_editing {start : Schematic} (built : start.Built) {edits : List Edit}
    (admits : start.Admits edits) {id : Nat} (others : ∀ edit ∈ edits, ¬ edit.Updates id) :
    ((start.editing edits).netlist.signal id).history = (start.netlist.signal id).history := by
  refine (built.editing_keeps (fun edits left => (∀ edit ∈ edits, ¬ edit.Updates id) →
    (left.netlist.signal id).history = (start.netlist.signal id).history) (fun _ => rfl) ?_
    admits).2 others
  intro edits before edit after _ _ does same others
  obtain ⟨earlier, last⟩ := List.forall_mem_append.mp others
  exact (does.history_eq (last edit (List.mem_singleton_self _))).trans (same earlier)

theorem bounded_editing {edits : List Edit} (admits : empty.Admits edits) {id : Nat}
    (known : ¬ empty.UpdatesBlindly id edits) : ((empty.editing edits).netlist.signal id).Bounded := by
  refine (built_empty.editing_keeps (fun edits left =>
    ¬ empty.UpdatesBlindly id edits → (left.netlist.signal id).Bounded) (fun _ => nofun) ?_
    admits).2 known
  intro edits before edit after reached _ does bounded known
  obtain ⟨earlier, last⟩ := not_or.mp (updatesBlindly_concat.not.mp known)
  rw [← reached] at last
  exact does.bounded (fun updates unknown => last ⟨updates, unknown⟩) (bounded earlier)

/-- However a netlist was built, a signal keeps its place, its name and its width as soon as it is
known, whatever is built later, and nothing but an update of it changes its history. Its width is the
one that it was declared with, or else that of the first gate that mentions it. If it was not updated
while its width was unknown, all its values fit its width. What a gate computes fits the width of the
gate, and an update that fails changes nothing. -/
theorem signals_of_editing {edits more : List Edit} (admits : empty.Admits (edits ++ more)) :
    let earlier := (empty.editing edits).netlist
    let later := empty.editing (edits ++ more)
    let netlist := later.netlist
    (∀ id < earlier.size, id < netlist.size ∧
      (netlist.signal id).name = (earlier.signal id).name ∧
      (∀ width, (earlier.signal id).width = some width →
        (netlist.signal id).width = some width) ∧
      ((∀ edit ∈ more, ¬ edit.Updates id) →
        (netlist.signal id).history = (earlier.signal id).history)) ∧
    (declaredWidths (edits ++ more)).length = netlist.size ∧
    (∀ id, (netlist.signal id).width =
      ((declaredWidths (edits ++ more))[id]?.join).or (later.gateWidth? id)) ∧
    (∀ id width, ¬ empty.UpdatesBlindly id (edits ++ more) →
      (netlist.signal id).width = some width → (netlist.signal id).Fits width) ∧
    (∀ gate value, netlist.evaluate gate = .ok value → value < 2 ^ gate.width.bits) ∧
    ∀ id value cycle fault left,
      Netlist.update id value cycle netlist = .error fault left → left = netlist := by
  intro earlier later netlist
  obtain ⟨admitsEarlier, admitsMore⟩ := admits_append.mp admits
  have built := built_editing admitsEarlier
  have continued : later = (empty.editing edits).editing more := editing_append ..
  have grown : earlier.Extends netlist := by
    simp only [netlist, continued]
    exact built.extends_editing admitsMore
  have follows := widthsFollow_editing admits
  refine ⟨fun id within => ⟨?_, grown.name id within, grown.width id within, fun others => ?_⟩,
    follows.length, follows.width, fun id width sighted known entry member => ?_,
    fun gate value => Netlist.evaluate_lt, fun id value cycle fault left failed => ?_⟩
  · exact Nat.lt_of_lt_of_le within grown.size_le
  · simp only [netlist, continued]
    exact built.history_editing admitsMore others
  · obtain ⟨same, known', fits⟩ := bounded_editing admits sighted entry member
    cases Option.some.inj (known.symm.trans known')
    exact fits
  · unfold Netlist.update Action.attempt at failed
    split at failed
    next => cases failed; rfl
    next => contradiction

/-- One signal is narrower than the gates that read it, one is updated before a gate settles its width,
one is both operands of a gate, and its last update is refused. -/
def improvised : List Edit :=
  [.add "narrow" (some ⟨21, by decide⟩), .add "late" none, .addFresh, .update 0 0x3ffffff 2,
   .update 2 0x3ffffff 1, .connect .xor ⟨23, by decide⟩ 1 1, .update 1 0x3ffffff 4, .extend 0 2]

theorem signals_of_editing_of_improvised :
    let more : List Edit :=
      [.connect .and ⟨25, by decide⟩ 0 1, .update 1 7 3, .add "late" none, .update 4 0x3ffffff 0]
    let earlier := (empty.editing improvised).netlist
    let later := (empty.editing (improvised ++ more)).netlist
    empty.Admits (improvised ++ more) ∧ ¬ empty.UpdatesBlindly 1 (improvised ++ more) ∧
      (later.signal 1).width = some ⟨23, by decide⟩ ∧ (later.signal 1).Fits ⟨23, by decide⟩ ∧
      (later.signal 2).history = (earlier.signal 2).history := by
  intro more earlier later
  have admits : empty.Admits (improvised ++ more) := by decide
  have sighted : ¬ empty.UpdatesBlindly 1 (improvised ++ more) := by decide
  obtain ⟨kept, -, widths, fits, -, -⟩ := signals_of_editing admits
  obtain ⟨-, -, known, -⟩ := kept 1 (by decide)
  have width := known ⟨23, by decide⟩ (by decide)
  obtain ⟨-, -, -, history⟩ := kept 2 (by decide)
  exact ⟨admits, sighted, width, fits 1 _ sighted width, history (by decide)⟩

end Schematic
end GoldenCircuit
