import GoldenCircuit.Desk
import GoldenCircuit.Proofs.Circuit

/-! Sessions: whatever can be done with a specimen, in any order, successfully or not. Only pokes
and steps touch the specimen, so that what these two keep, every session keeps. -/
namespace GoldenCircuit

/-- Something to do with a specimen. -/
inductive Command where
  | poke (index value : Nat)
  | step
  /-- Drives all inputs from a source of stimulus. -/
  | drive (stimulus : Stimulus)
  | goldenRun (plan : RunPlan)
  /-- Writes the specimen in a format to some output. -/
  | write (format : Format) (plan : RunPlan) (sink : Sink)
  /-- Writes the dump with a time unit of its own. -/
  | writeDump (timescale : String) (plan : RunPlan) (sink : Sink)

/-- The specimen that is left after a command, whether it succeeded or not. -/
def Command.perform : Command → Specimen → Specimen
  | .poke index value, specimen => (Specimen.poke index value).after specimen
  | .step, specimen => Specimen.step.after specimen
  | .drive stimulus, specimen => (Bench.drive.after { specimen, stimulus }).specimen
  | .goldenRun plan, specimen => (Specimen.goldenRun plan).after specimen
  | .write format plan sink, specimen =>
    ((Desk.write format plan).after { specimen, sink }).specimen
  | .writeDump timescale plan sink, specimen =>
    ((Desk.writeDump timescale plan).after { specimen, sink }).specimen

/-- The specimen that is left after commands, one after the other. -/
def Specimen.performing (specimen : Specimen) (commands : List Command) : Specimen :=
  commands.foldl (fun specimen command => command.perform specimen) specimen

namespace Action

variable {invariant : Specimen → Prop}

theorem Keeps.onBench {Answer : Type} {action : Action Specimen Answer}
    (kept : Keeps invariant action) :
    Keeps (fun bench => invariant bench.specimen) (Bench.onSpecimen action) :=
  Keeps.within Bench.specimen (fun _ => rfl) (fun _ _ => rfl) kept

theorem Keeps.onDesk {Answer : Type} {action : Action Specimen Answer}
    (kept : Keeps invariant action) :
    Keeps (fun desk => invariant desk.specimen) (Desk.onSpecimen action) :=
  Keeps.within Desk.specimen (fun _ => rfl) (fun _ _ => rfl) kept

theorem Keeps.get {State : Type} {invariant : State → Prop} :
    Keeps invariant (MonadState.get : Action State State) :=
  fun _ holds => holds

theorem keeps_put (text : String) :
    Keeps (fun desk : Desk => invariant desk.specimen) (Desk.put text) := by
  intro desk holds
  rw [Desk.put, Desk.onSink, after_within]
  exact holds

theorem Keeps.adaptExcept {State Answer : Type} {invariant : State → Prop}
    {action : Action State Answer} (kept : Keeps invariant action) (report : Fault → Fault) :
    Keeps invariant (action.adaptExcept report) := by
  intro state holds
  have kept := kept state holds
  unfold after EStateM.adaptExcept
  unfold after at kept
  cases run : action state <;> simpa only [run] using kept

end Action

section Keeps

variable {invariant : Specimen → Prop}
  (poke : ∀ index value, Action.Keeps invariant (Specimen.poke index value))
  (step : Action.Keeps invariant Specimen.step)

include poke

theorem Bench.keeps_drive : Action.Keeps (fun bench => invariant bench.specimen) Bench.drive := by
  refine Action.Keeps.get.bind fun bench => Action.Keeps.forM (fun (pin, index) => ?_) _
  have drawn : Action.Keeps (fun bench => invariant bench.specimen) (Bench.draw pin.width) :=
    fun _ holds => holds
  exact drawn.bind fun value => (poke index value).onBench

include step

theorem Bench.keeps_runCycle :
    Action.Keeps (fun bench => invariant bench.specimen) Bench.runCycle := by
  refine (Bench.keeps_drive poke).bind fun _ => ?_
  refine (Action.Keeps.read _).onBench.bind fun (cycle, inputs) => ?_
  refine step.onBench.bind fun _ => ?_
  exact (Action.Keeps.read _).onBench.bind fun outputs => Action.Keeps.pure _

theorem Bench.keeps_runCycles (cycles : Nat) (vectors : Array GoldenVector) :
    Action.Keeps (fun bench => invariant bench.specimen) (Bench.runCycles cycles vectors) := by
  induction cycles generalizing vectors with
  | zero => exact Action.Keeps.pure _
  | succ cycles ih => exact (Bench.keeps_runCycle poke step).bind fun vector => ih _

theorem Specimen.keeps_goldenRun (plan : RunPlan) :
    Action.Keeps invariant (Specimen.goldenRun plan) := by
  intro specimen holds
  have kept := Bench.keeps_runCycles poke step plan.cycles.toNat #[]
    { specimen, stimulus := .ofSeed plan.seed } holds
  unfold Action.after at kept
  unfold Action.after Specimen.goldenRun
  cases run : Bench.runCycles plan.cycles.toNat #[] { specimen, stimulus := .ofSeed plan.seed } <;>
    simpa only [run] using kept

theorem Desk.keeps_writeDump (timescale : String) (plan : RunPlan) :
    Action.Keeps (fun desk => invariant desk.specimen) (Desk.writeDump timescale plan) := by
  refine Action.Keeps.get.bind fun desk => ?_
  exact (Specimen.keeps_goldenRun poke step plan).onDesk.bind fun vectors => Action.keeps_put _

theorem Desk.keeps_write (format : Format) (plan : RunPlan) :
    Action.Keeps (fun desk => invariant desk.specimen) (Desk.write format plan) := by
  have run := (Specimen.keeps_goldenRun poke step plan).onDesk
  cases format with
  | flo => exact Action.Keeps.get.bind fun desk => Action.keeps_put _
  | chisel =>
    refine Action.Keeps.get.bind fun desk => (Action.keeps_put _).bind fun _ => ?_
    exact run.bind fun vectors => Action.keeps_put _
  | vcd => exact Desk.keeps_writeDump poke step _ plan
  | json =>
    refine Action.Keeps.get.bind fun desk => run.bind fun vectors => ?_
    exact ((Action.keeps_put _).adaptExcept _).bind fun _ => Action.keeps_put _

theorem Command.perform_keeps (command : Command) {specimen : Specimen}
    (holds : invariant specimen) : invariant (command.perform specimen) := by
  cases command with
  | poke index value => exact poke index value specimen holds
  | step => exact step specimen holds
  | drive stimulus => exact Bench.keeps_drive poke { specimen, stimulus } holds
  | goldenRun plan => exact Specimen.keeps_goldenRun poke step plan specimen holds
  | write format plan sink => exact Desk.keeps_write poke step format plan { specimen, sink } holds
  | writeDump timescale plan sink =>
    exact Desk.keeps_writeDump poke step timescale plan { specimen, sink } holds

/-- What every poke and every step keeps holds after any session. -/
theorem Specimen.performing_keeps (commands : List Command) {specimen : Specimen}
    (holds : invariant specimen) : invariant (specimen.performing commands) := by
  induction commands generalizing specimen with
  | nil => exact holds
  | cons command commands ih => exact ih (command.perform_keeps poke step holds)

end Keeps
end GoldenCircuit
