import GoldenCircuit.Generation
import GoldenCircuit.Proofs.Delivery

/-! Generating into an output with a limit. What is written is the text that an output without one
takes, cut at the limit, and the writing fails only if something was cut off. -/
namespace GoldenCircuit.Catalog

/-- Which fault an output without room for a whole delivery gives rise to. A description in JSON is
followed by a line feed, which is not part of the value. -/
def overflowFault (format : Format) (limit size : Nat) : Fault :=
  if format = .json ∧ limit + 1 < size then .jsonNotWritten .full else .io .full

theorem overflow?_ofSpecimen (specimen : Specimen) (format : Format) (plan : RunPlan)
    (limit : Nat) :
    let delivery := Delivery.ofSpecimen specimen format plan
    Piece.overflow? delivery.pieces limit =
      if delivery.bytes.size ≤ limit then none
      else some (overflowFault format limit delivery.bytes.size) := by
  intro delivery
  by_cases json : format = .json
  · subst json
    have newLine : (Delivery.plain "\n").bytes.size = 1 := by decide
    simp only [delivery, Delivery.ofSpecimen, Delivery.bytes]
    cases (Specimen.goldenRun plan).outcome specimen with
    | error fault => simp [Delivery.ofRun, Piece.overflow?, Piece.join_nil]
    | ok vectors =>
      simp only [Delivery.ofRun, Piece.overflow?, Piece.join_cons, Piece.join_nil,
        ByteArray.append_empty, ByteArray.size_append, newLine, overflowFault]
      simp only [Delivery.plain]
      grind
  · have fault : overflowFault format limit delivery.bytes.size = .io .full :=
      if_neg fun both => json both.1
    rw [Piece.overflow?_of_uniform (Delivery.overflow_of_plain json), fault]
    rfl

theorem generate_of_error {catalog : Catalog} {request : Request} {fault : Fault}
    (refused : catalog.instantiate request.selection request.args = .error fault) (sink : Sink) :
    catalog.generate request sink = .error fault sink := by
  have looked : Action.read (fun _ => catalog.instantiate request.selection request.args) sink =
      .error fault sink := by
    simp only [Action.read, refused]
  exact Action.bind_of_error looked _

theorem generate_of_ok {catalog : Catalog} {request : Request} {specimen : Specimen}
    (built : catalog.instantiate request.selection request.args = .ok specimen) {sink : Sink}
    (flushes : sink.flushes = true) :
    catalog.generate request sink =
      (Delivery.ofSpecimen specimen request.format request.plan).perform sink := by
  have looked : Action.read (fun _ => catalog.instantiate request.selection request.args) sink =
      .ok specimen sink := by
    simp only [Action.read, built]
  refine (Action.bind_of_ok looked _).trans ?_
  have wrote := congrFun (Delivery.writing_eq specimen request.format request.plan) sink
  have flushed := Delivery.keeps_flushes (Delivery.ofSpecimen specimen request.format request.plan)
    sink flushes
  cases run : (Delivery.ofSpecimen specimen request.format request.plan).perform sink with
  | ok answer left =>
    rw [Action.after_of_ok run] at flushed
    rw [run] at wrote
    rw [Action.bind_of_ok wrote, Sink.flush, if_pos flushed]
  | error fault left =>
    rw [run] at wrote
    rw [Action.bind_of_error wrote]

/-- With a limit on its output, generating writes as many of the bytes as the limit allows. If these
are all, it ends as it does without a limit, and otherwise with a fault of the output. -/
theorem generate_limited (catalog : Catalog) (request : Request) (limit : Nat) :
    let whole := ((catalog.generate request).after .unbounded).written
    ((catalog.generate request).after { capacity := some limit }).written =
        whole.extract 0 (min limit whole.size) ∧
      (catalog.generate request).outcome { capacity := some limit } =
        if whole.size ≤ limit then (catalog.generate request).outcome .unbounded
        else if request.format = .json ∧ limit + 1 < whole.size then
          .error (.jsonNotWritten .full)
        else .error (.io .full) := by
  intro whole
  cases built : catalog.instantiate request.selection request.args with
  | error fault =>
    have free := generate_of_error built .unbounded
    have tight := generate_of_error built { capacity := some limit }
    have none : whole = ByteArray.empty := by
      simp only [whole, Action.after, free]
      rfl
    simp [Action.after, Action.outcome, free, tight, none]
  | ok specimen =>
    have free := @generate_of_ok _ _ _ built .unbounded rfl
    have tight := @generate_of_ok _ _ _ built { capacity := some limit } rfl
    have overflow := overflow?_ofSpecimen specimen request.format request.plan limit
    generalize Delivery.ofSpecimen specimen request.format request.plan = delivery at *
    have all : whole = delivery.bytes := by
      simp only [whole, Action.after, free]
      rw [← Action.after, delivery.after_perform_unbounded rfl]
      exact ByteArray.empty_append
    have clipped : delivery.bytes.extract 0 (min limit delivery.bytes.size) =
        delivery.bytes.extract 0 limit := by
      rcases Nat.le_total limit delivery.bytes.size with less | all
      · rw [Nat.min_eq_left less]
      · rw [Nat.min_eq_right all, extract_of_size_le all, extract_of_size_le (Nat.le_refl _)]
    simp only [Action.after, Action.outcome, free, tight, all]
    rw [← Action.after, ← Action.outcome, ← Action.outcome,
      delivery.after_perform_limited rfl (Nat.zero_le limit),
      delivery.outcome_perform_limited rfl (Nat.zero_le limit),
      delivery.outcome_perform_unbounded rfl, clipped]
    constructor
    · exact congrArg (·.extract 0 limit) ByteArray.empty_append
    · simp only [ByteArray.size_empty, Nat.sub_zero, overflow, overflowFault]
      grind

end GoldenCircuit.Catalog
