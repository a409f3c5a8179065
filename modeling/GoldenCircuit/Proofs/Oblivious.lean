import GoldenCircuit.Proofs.AndTree.Chisel
import GoldenCircuit.Proofs.GoldenRun

/-! What texts tell of the past of a specimen. A netlist and a module description tell nothing of it,
and of a tree the texts that carry golden vectors tell at most the number of completed cycles,
although writing them runs the very specimen that is written. -/
namespace GoldenCircuit

/-- The same vector, so many cycles later. -/
def GoldenVector.later (vector : GoldenVector) (cycles : Nat) : GoldenVector :=
  { vector with cycle := cycles + vector.cycle }

/-- The same description, with its vectors so many cycles later. -/
def ModuleDescription.later (description : ModuleDescription) (cycles : Nat) : ModuleDescription :=
  { description with vectors := description.vectors.map fun vector =>
      { vector with cycle := cycles + vector.cycle } }

/-! ### Circuits that are built alike -/

namespace Circuit.Alike

variable {one other : Circuit}

theorem netlist_text (alike : one.Alike other) : Flo.ofCircuit one = Flo.ofCircuit other := by
  have define : Flo.defineGate one.netlist = Flo.defineGate other.netlist := by
    funext gate
    simp only [Flo.defineGate, alike.name]
  have shown : one.shownNames = other.shownNames := by
    simp only [shownNames, alike.outputs, alike.name]
  simp only [Flo.ofCircuit, alike.inputPins, alike.outputPins, alike.gates, define, shown]

theorem description (alike : one.Alike other) (name : String) :
    ModuleDescription.ofCircuit name one = ModuleDescription.ofCircuit name other := by
  have signal : ModuleDescription.Expression.ofSignal one.netlist =
      ModuleDescription.Expression.ofSignal other.netlist := by
    funext id
    simp only [ModuleDescription.Expression.ofSignal, Signal.pinWidth, alike.name, alike.width]
  have gate : ModuleDescription.Assignment.ofGate? one.netlist =
      ModuleDescription.Assignment.ofGate? other.netlist := by
    funext gate
    simp only [ModuleDescription.Assignment.ofGate?, signal]
  simp only [ModuleDescription.ofCircuit, alike.inputPins, alike.outputPins, alike.gates,
    alike.outputs, signal, gate]

theorem commands_later (alike : one.Alike other) (vectors : List GoldenVector) (cycles : Nat) :
    (vectors.map (·.later cycles)).flatMap (Chisel.commandsOfVector one) =
      vectors.flatMap (Chisel.commandsOfVector other) := by
  rw [List.flatMap_map]
  refine List.flatMap_congr fun vector _ => ?_
  simp only [Chisel.commandsOfVector, GoldenVector.later, alike.inputPins]

theorem vectors_later (alike : one.Alike other) (vectors : List GoldenVector) (cycles : Nat) :
    (vectors.map (·.later cycles)).map (ModuleDescription.Vector.ofGolden one) =
      (vectors.map (ModuleDescription.Vector.ofGolden other)).map fun vector =>
        { vector with cycle := cycles + vector.cycle } := by
  rw [List.map_map, List.map_map]
  refine List.map_congr_left fun vector _ => ?_
  simp only [Function.comp_apply, ModuleDescription.Vector.ofGolden, GoldenVector.later,
    alike.inputPins]

end Circuit.Alike

theorem Waveform.Recorder.captureVectors_later (recorder : Waveform.Recorder)
    (vectors : List GoldenVector) (cycles : Nat) :
    recorder.captureVectors (vectors.map (·.later cycles)) = recorder.captureVectors vectors := by
  rw [captureVectors, captureVectors, List.foldl_map]
  rfl

/-! ### What every session keeps -/

namespace Specimen

theorem keeps_name_poke (name : String) (index value : Nat) :
    Action.Keeps (fun specimen => specimen.name = name) (poke index value) := by
  intro specimen named
  rcases poke_cases specimen index value with ⟨fault, failed⟩ | ⟨id, _, _, poked⟩
  · rwa [Action.after_of_error failed]
  · rwa [Action.after_of_ok poked]

theorem keeps_name_step (name : String) :
    Action.Keeps (fun specimen => specimen.name = name) step := by
  intro specimen named
  rcases step_cases specimen with ⟨fault, stopped⟩ | ⟨value, id, _, _, _, done⟩
  · rwa [Action.after_of_error stopped]
  · rwa [Action.after_of_ok done]

theorem name_performing (specimen : Specimen) (commands : List Command) :
    (specimen.performing commands).name = specimen.name :=
  performing_keeps (keeps_name_poke specimen.name) (keeps_name_step specimen.name) commands rfl

theorem alike_performing (specimen : Specimen) (commands : List Command) :
    specimen.circuit.Alike (specimen.performing commands).circuit :=
  performing_keeps
    (@keeps_poke specimen.circuit.Alike fun alike _ within value =>
      alike.trans (Circuit.alike_record _ within value))
    (@keeps_step specimen.circuit.Alike (fun alike _ within value =>
      alike.trans (Circuit.alike_record _ within value))
      fun alike => alike.trans (Circuit.alike_advance _)) commands (.refl _)

theorem writes_netlist (specimen : Specimen) (plan : RunPlan) :
    specimen.Writes .flo plan (Flo.render (Flo.ofCircuit specimen.circuit)) := by
  have written := @writes_of_delivery specimen .flo plan _ rfl
  simpa [Delivery.plain, String.join_cons] using written

end Specimen

/-! ### The cycles that writing takes -/

namespace Desk

variable {Answer : Type} {cycles more : Nat}

/-- Wherever the action succeeds, it takes the specimen so many cycles further. -/
def Advances (cycles : Nat) (action : Action Desk Answer) : Prop :=
  ∀ (desk left : Desk) (answer : Answer), action desk = .ok answer left →
    desk.specimen.circuit.Reaches cycles left.specimen.circuit

theorem advances_get_bind {next : Desk → Action Desk Unit}
    (later : ∀ desk, Advances cycles (next desk)) : Advances cycles (get >>= next) :=
  fun desk left answer done => later desk desk left answer done

theorem Advances.bind {action : Action Desk Answer} {next : Answer → Action Desk Unit}
    (first : Advances cycles action) (later : ∀ answer, Advances more (next answer)) :
    Advances (cycles + more) (action >>= next) := by
  intro desk left answer done
  obtain ⟨found, between, ran, rest⟩ := Action.bind_eq_ok_iff.mp done
  exact (first desk between found ran).trans (later found between left answer rest)

theorem advances_of_puts {action : Action Desk Unit} {piece : Piece}
    (puts : Delivery.Puts action piece) : Advances 0 action := by
  intro desk left answer done
  rw [puts desk] at done
  split at done
  next =>
    cases done
    exact .refl _
  next => contradiction

theorem advances_goldenRun (plan : RunPlan) :
    Advances plan.cycles.toNat (onSpecimen (Specimen.goldenRun plan)) := by
  intro desk left vectors done
  unfold onSpecimen Action.within at done
  cases run : Specimen.goldenRun plan desk.specimen with
  | ok answer specimen =>
    simp only [run] at done
    cases done
    exact Specimen.goldenRun_reaches run
  | error fault specimen =>
    simp only [run] at done
    contradiction

theorem advances_writeDump (timescale : String) (plan : RunPlan) :
    Advances plan.cycles.toNat (writeDump timescale plan) :=
  advances_get_bind fun _ => (advances_goldenRun plan).bind fun _ =>
    advances_of_puts (Delivery.puts_plain _)

/-- Writing runs the cycles of the plan, unless the format has no vectors. -/
theorem advances_write (format : Format) (plan : RunPlan) :
    Advances (if format = .flo then 0 else plan.cycles.toNat) (write format plan) := by
  cases format with
  | flo => exact advances_get_bind fun _ => advances_of_puts (Delivery.puts_plain _)
  | chisel =>
    have run := advances_goldenRun plan
    have written := fun text => advances_of_puts (Delivery.puts_plain text)
    rw [if_neg (by decide), ← Nat.zero_add plan.cycles.toNat]
    exact advances_get_bind fun _ => (written _).bind fun _ => run.bind fun _ => written _
  | vcd => exact advances_writeDump _ plan
  | json =>
    have run := advances_goldenRun plan
    exact advances_get_bind fun _ => run.bind fun _ =>
      (advances_of_puts (Delivery.puts_adapted _ _)).bind fun _ =>
        advances_of_puts (Delivery.puts_plain _)

end Desk

/-! ### Trees -/

namespace AndTree

/-- The vectors of a run from the first cycle on. -/
def firstVectors (tree : AndTree) (plan : RunPlan) : List GoldenVector :=
  tree.goldenVectors (.ofSeed plan.seed) 0 plan.cycles.toNat

/-- The Chisel file of the tree, whatever was done with it. -/
def testerText (tree : AndTree) (plan : RunPlan) : String :=
  tree.chiselModule.render ++ Chisel.renderTester familyName
    ((tree.firstVectors plan).flatMap (Chisel.commandsOfVector tree.circuit))

/-- The dump of the tree with a time unit, whatever was done with it. -/
def dumpText (tree : AndTree) (plan : RunPlan) (timescale : String) : String :=
  ((Waveform.Recorder.ofSpecimen timescale tree.specimen).captureVectors
    (tree.firstVectors plan)).render

/-- The description of the tree before its first cycle. -/
def firstDescription (tree : AndTree) (plan : RunPlan) : ModuleDescription :=
  Delivery.describe tree.specimen (tree.firstVectors plan)

theorem cycles_firstDescription (tree : AndTree) (plan : RunPlan) :
    (tree.firstDescription plan).vectors.map (·.cycle) = List.range plan.cycles.toNat := by
  simp [firstDescription, Delivery.describe, firstVectors, goldenVectors,
    ModuleDescription.Vector.ofGolden, Function.comp_def]

theorem goldenVectors_eq (tree : AndTree) (plan : RunPlan) (start : Nat) :
    tree.goldenVectors (.ofSeed plan.seed) start plan.cycles.toNat =
      (tree.firstVectors plan).map (·.later start) := by
  simp only [firstVectors, goldenVectors, List.map_map, Function.comp_def, GoldenVector.later,
    Nat.zero_add]

namespace Reached

variable {tree : AndTree} {specimen : Specimen}

theorem goldenRun_later (reached : Reached tree specimen) (plan : RunPlan) :
    ∃ left, Specimen.goldenRun plan specimen =
      .ok ((tree.firstVectors plan).map (·.later specimen.circuit.cycle)) left := by
  obtain ⟨left, run, -⟩ := reached.goldenRun plan
  exact ⟨left, tree.goldenVectors_eq plan _ ▸ run⟩

theorem writes_tester (reached : Reached tree specimen) (plan : RunPlan) :
    specimen.Writes .chisel plan (tree.testerText plan) := by
  obtain ⟨left, run⟩ := reached.goldenRun_later plan
  have written := Specimen.writes_chisel run
  rwa [reached.module_eq, reached.name, reached.recorded.alike.symm.commands_later] at written

theorem writing_dump (reached : Reached tree specimen) (timescale : String) (plan : RunPlan) :
    Desk.writing specimen (Desk.writeDump timescale plan) .unbounded =
      .ok () { written := (tree.dumpText plan timescale).toUTF8 } := by
  obtain ⟨left, run⟩ := reached.goldenRun_later plan
  have recorder : Waveform.Recorder.ofSpecimen timescale specimen =
      Waveform.Recorder.ofSpecimen timescale tree.specimen := by
    simp only [Waveform.Recorder.ofSpecimen, reached.name, AndTree.specimen,
      reached.recorded.alike.inputPins, reached.recorded.alike.outputPins]
  have written := Specimen.writing_dump run timescale
  rwa [recorder, Waveform.Recorder.captureVectors_later] at written

theorem writes_description (reached : Reached tree specimen) (plan : RunPlan) :
    specimen.Writes .json plan
      (((tree.firstDescription plan).later specimen.circuit.cycle).toJson.indented 0 ++ "\n") := by
  obtain ⟨left, run⟩ := reached.goldenRun_later plan
  have alike := reached.recorded.alike.symm
  have written := Specimen.writes_description run
  rwa [Delivery.describe, reached.name, alike.description, alike.vectors_later] at written

end Reached
end AndTree

/-- Whatever was done with a specimen, successfully or not, its netlist has the same text and its
circuit the same description. Whatever was done with a tree, its Chisel file and its dump are the
same, and its description is the same but for the numbers of the cycles, which go on from the
present one. Writing that succeeds takes the specimen as many cycles further as the plan says, or
none for a netlist. -/
theorem Specimen.texts_unaffected :
    (∀ (specimen : Specimen) (commands : List Command),
      let later := specimen.performing commands
      (∃ text, ∀ plan, specimen.Writes .flo plan text ∧ later.Writes .flo plan text) ∧
      ModuleDescription.ofCircuit later.name later.circuit =
        ModuleDescription.ofCircuit specimen.name specimen.circuit) ∧
    (∀ (tree : AndTree) (plan : RunPlan), ∃ (source : String) (dump : String → String)
        (description : ModuleDescription),
      description.vectors.map (·.cycle) = List.range plan.cycles.toNat ∧
      ∀ commands, let start := tree.specimen.performing commands
        start.Writes .chisel plan source ∧
        (∀ timescale, Desk.writing start (Desk.writeDump timescale plan) .unbounded =
          .ok () { written := (dump timescale).toUTF8 }) ∧
        start.Writes .json plan
          ((description.later start.circuit.cycle).toJson.indented 0 ++ "\n")) ∧
    ∀ (plan : RunPlan) (desk left : Desk),
      (∀ format, Desk.write format plan desk = .ok () left → left.specimen.circuit.cycle =
        desk.specimen.circuit.cycle + if format = .flo then 0 else plan.cycles.toNat) ∧
      ∀ timescale, Desk.writeDump timescale plan desk = .ok () left →
        left.specimen.circuit.cycle = desk.specimen.circuit.cycle + plan.cycles.toNat := by
  refine ⟨fun specimen commands => ?_, fun tree plan => ?_, fun plan desk left => ?_⟩
  · have alike := specimen.alike_performing commands
    refine ⟨⟨_, fun plan => ⟨specimen.writes_netlist plan, ?_⟩⟩, ?_⟩
    · rw [alike.netlist_text]
      exact writes_netlist _ plan
    · rw [name_performing, alike.description]
  · refine ⟨tree.testerText plan, tree.dumpText plan, tree.firstDescription plan,
      tree.cycles_firstDescription plan, fun commands => ?_⟩
    have reached := tree.reached_performing commands
    exact ⟨reached.writes_tester plan, fun timescale => reached.writing_dump timescale plan,
      reached.writes_description plan⟩
  · exact ⟨fun format done => (Desk.advances_write format plan desk left () done).cycle,
      fun timescale done => (Desk.advances_writeDump timescale plan desk left () done).cycle⟩

/-- A session with a step that lacks values, an output that is too small and a cycle that is driven
in part does not show in the Chisel file. -/
theorem Specimen.texts_unaffected_of_unfinished :
    let tree : AndTree := { width := ⟨18, by decide⟩, depth := 2 }
    let plan : RunPlan := { cycles := 2 }
    let commands : List Command := [.poke 0 9, .step, .write .chisel plan { capacity := some 4 },
      .goldenRun { cycles := 3 }, .poke 1 5]
    let start := tree.specimen.performing commands
    ∃ text left, start.Writes .chisel plan text ∧ tree.specimen.Writes .chisel plan text ∧
      Desk.write .chisel plan { specimen := start, sink := .unbounded } = .ok () left ∧
      left.specimen.circuit.cycle = start.circuit.cycle + 2 := by
  intro tree plan commands start
  obtain ⟨-, texts, advances⟩ := Specimen.texts_unaffected
  obtain ⟨source, _, _, -, texts⟩ := texts tree plan
  have written : start.Writes .chisel plan source := (texts commands).1
  have written' : tree.specimen.Writes .chisel plan source := (texts []).1
  -- Which commands led here is of no use from here on, and costly to look at.
  clear_value start
  obtain ⟨left, done⟩ := written.exists_left
  exact ⟨source, left, written, written', done, (advances plan _ left).1 .chisel done⟩

end GoldenCircuit
