import GoldenCircuit.Proofs.Delivery

/-! The texts that are written of a specimen whose golden run succeeds. -/
namespace GoldenCircuit.Specimen

/-- Writing the specimen to an output that takes everything succeeds, and the text is what is
written. -/
def Writes (specimen : Specimen) (format : Format) (plan : RunPlan) (text : String) : Prop :=
  Desk.writing specimen (Desk.write format plan) .unbounded = .ok () { written := text.toUTF8 }

theorem Writes.exists_left {specimen : Specimen} {format : Format} {plan : RunPlan} {text : String}
    (writes : specimen.Writes format plan text) :
    ∃ left, Desk.write format plan { specimen, sink := .unbounded } = .ok () left := by
  unfold Writes Desk.writing at writes
  split at writes
  next left done => exact ⟨left, done⟩
  next => contradiction

/-- An output that takes everything is left with the text of all pieces. -/
theorem writing_of_delivers {specimen : Specimen} {action : Action Desk Unit}
    {pieces : List Piece} (delivers : Delivery.Delivers action specimen ⟨pieces, .ok ()⟩) :
    Desk.writing specimen action .unbounded =
      .ok () { written := (String.join (pieces.map (·.text))).toUTF8 } := by
  have put := @Piece.putAll_unbounded pieces .unbounded rfl
  have whole : Sink.unbounded.written ++ Piece.join pieces = Piece.join pieces :=
    ByteArray.empty_append
  rw [whole] at put
  rw [delivers]
  exact Action.bind_of_ok put _

theorem writes_of_delivery {specimen : Specimen} {format : Format} {plan : RunPlan}
    {pieces : List Piece} (delivery : Delivery.ofSpecimen specimen format plan = ⟨pieces, .ok ()⟩) :
    specimen.Writes format plan (String.join (pieces.map (·.text))) :=
  writing_of_delivers fun sink => by rw [Delivery.writing_eq, delivery]

variable {specimen left : Specimen} {plan : RunPlan} {vectors : List GoldenVector}
  (run : goldenRun plan specimen = .ok vectors left)

include run

theorem writes_chisel : specimen.Writes .chisel plan
    ((Chisel.Module.ofCircuit specimen.name specimen.circuit).render ++
      Chisel.renderTester specimen.name
        (vectors.flatMap (Chisel.commandsOfVector specimen.circuit))) := by
  have written := @writes_of_delivery specimen .chisel plan _
    (by rw [Delivery.ofSpecimen, Action.outcome_of_ok run, Delivery.ofRun])
  simpa [Delivery.plain, String.join_cons] using written

theorem writes_dump : specimen.Writes .vcd plan
    ((Waveform.Recorder.ofSpecimen Waveform.defaultTimescale specimen).captureVectors
      vectors).render := by
  have written := @writes_of_delivery specimen .vcd plan _
    (by rw [Delivery.ofSpecimen, Action.outcome_of_ok run, Delivery.ofRun])
  simpa [Delivery.plain, String.join_cons] using written

theorem writes_description : specimen.Writes .json plan
    ((Delivery.describe specimen vectors).toJson.indented 0 ++ "\n") := by
  have written := @writes_of_delivery specimen .json plan _
    (by rw [Delivery.ofSpecimen, Action.outcome_of_ok run, Delivery.ofRun])
  simpa [Delivery.plain, String.join_cons] using written

/-- With any time unit, the dump is of what the golden run captured. -/
theorem writing_dump (timescale : String) :
    Desk.writing specimen (Desk.writeDump timescale plan) .unbounded = .ok ()
      { written := ((Waveform.Recorder.ofSpecimen timescale specimen).captureVectors
          vectors).render.toUTF8 } := by
  have delivers : Delivery.Delivers (Desk.writeDump timescale plan) specimen
      ⟨[Delivery.plain ((Waveform.Recorder.ofSpecimen timescale specimen).captureVectors
        vectors).render], .ok ()⟩ := by
    intro sink
    rw [Desk.writeDump, Delivery.writing_get]
    exact (Delivery.Delivers.last (Delivery.puts_plain _) left).run_of_ok run sink
  simpa [Delivery.plain, String.join_cons] using writing_of_delivers delivers

end GoldenCircuit.Specimen
