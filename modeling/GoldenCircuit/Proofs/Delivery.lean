import GoldenCircuit.Desk
import GoldenCircuit.Proofs.Action

/-! What a writer hands to its output, whatever the output is: the pieces of the text, one after the
other, and how the writing ends when all of them were taken. An output without room for all of them
keeps the bytes up to its limit, and the piece that did not fit decides which fault is reported. -/
namespace GoldenCircuit

theorem extract_of_size_le {bytes : ByteArray} {limit : Nat} (fits : bytes.size ≤ limit) :
    bytes.extract 0 limit = bytes := by
  rw [← Nat.max_eq_left fits, ByteArray.extract_zero_max_size]

/-- A piece of a text, with the fault to report if the output has no room for it. -/
structure Piece where
  text : String
  overflow : Fault

structure Delivery where
  pieces : List Piece
  ending : Except Fault Unit

namespace Piece

def bytes (piece : Piece) : ByteArray :=
  piece.text.toUTF8

def put (piece : Piece) : Action Sink Unit :=
  (Sink.put piece.text).adaptExcept fun _ => piece.overflow

/-- The fault of the first piece that exceeds the room left by those before it. -/
def overflow? : List Piece → (room : Nat) → Option Fault
  | [], _ => none
  | piece :: pieces, room =>
    if piece.bytes.size ≤ room then overflow? pieces (room - piece.bytes.size)
    else some piece.overflow

def join (pieces : List Piece) : ByteArray :=
  (String.join (pieces.map (·.text))).toUTF8

theorem join_cons (piece : Piece) (pieces : List Piece) :
    join (piece :: pieces) = piece.bytes ++ join pieces := by
  simp only [join, List.map_cons, String.join_cons]
  exact String.toByteArray_append

theorem join_nil : join [] = ByteArray.empty :=
  rfl

theorem overflow?_of_uniform {pieces : List Piece} {fault : Fault}
    (uniform : ∀ piece ∈ pieces, piece.overflow = fault) (room : Nat) :
    overflow? pieces room = if (join pieces).size ≤ room then none else some fault := by
  induction pieces generalizing room with
  | nil => simp [overflow?, join_nil]
  | cons piece pieces ih =>
    have later := ih fun other member => uniform other (List.mem_cons_of_mem _ member)
    rw [overflow?, join_cons, ByteArray.size_append, later, uniform piece List.mem_cons_self]
    split
    next fits => grind
    next exceeds => rw [if_neg (by omega)]

theorem put_unbounded (piece : Piece) {sink : Sink} (unbounded : sink.capacity = none) :
    piece.put sink = .ok () { sink with written := sink.written ++ piece.bytes } := by
  simp [put, EStateM.adaptExcept, Sink.put, unbounded, bytes]

theorem put_limited (piece : Piece) {sink : Sink} {limit : Nat}
    (limited : sink.capacity = some limit) :
    piece.put sink = if piece.bytes.size ≤ limit - sink.written.size then
        .ok () { sink with written := sink.written ++ piece.bytes }
      else
        .error piece.overflow { sink with
          written := sink.written ++ piece.bytes.extract 0 (limit - sink.written.size) } := by
  simp only [put, EStateM.adaptExcept, Sink.put, limited, bytes]
  split
  next result left fits => split at fits <;> simp_all
  next fault left exceeds => split at exceeds <;> simp_all

def putAll : List Piece → Action Sink Unit
  | [] => return
  | piece :: pieces => do
    piece.put
    putAll pieces

theorem putAll_unbounded (pieces : List Piece) {sink : Sink} (unbounded : sink.capacity = none) :
    putAll pieces sink = .ok () { sink with written := sink.written ++ join pieces } := by
  induction pieces generalizing sink with
  | nil => simp [putAll, join_nil, pure, EStateM.pure]
  | cons piece pieces ih =>
    have later := @ih { sink with written := sink.written ++ piece.bytes } unbounded
    rw [join_cons, ← ByteArray.append_assoc]
    exact (Action.bind_of_ok (piece.put_unbounded unbounded) _).trans later

/-- An output with a limit keeps the bytes up to it, and the first piece that does not fit ends the
writing. -/
theorem putAll_limited (pieces : List Piece) {sink : Sink} {limit : Nat}
    (limited : sink.capacity = some limit) (room : sink.written.size ≤ limit) :
    let kept := { sink with written := (sink.written ++ join pieces).extract 0 limit }
    putAll pieces sink = match overflow? pieces (limit - sink.written.size) with
      | none => .ok () kept
      | some fault => .error fault kept := by
  induction pieces generalizing sink with
  | nil =>
    simp [putAll, overflow?, join_nil, pure, EStateM.pure, extract_of_size_le room]
  | cons piece pieces ih =>
    have put := piece.put_limited limited
    rw [overflow?]
    by_cases fits : piece.bytes.size ≤ limit - sink.written.size
    · rw [if_pos fits] at put ⊢
      have size := @ByteArray.size_append sink.written piece.bytes
      have later := @ih { sink with written := sink.written ++ piece.bytes } limited
        (by show (sink.written ++ piece.bytes).size ≤ limit; omega)
      simp only [size, Nat.sub_add_eq, ByteArray.append_assoc] at later
      rw [join_cons]
      exact (Action.bind_of_ok put _).trans later
    · rw [if_neg fits] at put ⊢
      have kept : (sink.written ++ join (piece :: pieces)).extract 0 limit =
          sink.written ++ piece.bytes.extract 0 (limit - sink.written.size) := by
        have none : (join pieces).extract 0 (limit - sink.written.size - piece.bytes.size) =
            ByteArray.empty := by
          rw [ByteArray.extract_eq_empty_iff]
          omega
        rw [join_cons, ByteArray.extract_append, ByteArray.extract_append,
          extract_of_size_le room]
        simp [none]
      simp only [kept]
      exact Action.bind_of_error put _

theorem keeps_flushes : (pieces : List Piece) →
    Action.Keeps (fun sink : Sink => sink.flushes = true) (putAll pieces)
  | [] => Action.Keeps.pure _
  | piece :: pieces => by
    refine Action.Keeps.bind ?_ fun _ => keeps_flushes pieces
    intro sink flushes
    cases bound : sink.capacity with
    | none => rwa [Action.after_of_ok (piece.put_unbounded bound)]
    | some limit =>
      rw [Action.after, piece.put_limited bound]
      by_cases fits : piece.bytes.size ≤ limit - sink.written.size <;> simp [fits, flushes]

end Piece

namespace Delivery

def bytes (delivery : Delivery) : ByteArray :=
  Piece.join delivery.pieces

/-- Hands over the pieces, and ends as it is said if all of them were taken. -/
def perform (delivery : Delivery) : Action Sink Unit := do
  Piece.putAll delivery.pieces
  Action.read fun _ => delivery.ending

theorem after_perform_unbounded (delivery : Delivery) {sink : Sink}
    (unbounded : sink.capacity = none) :
    delivery.perform.after sink = { sink with written := sink.written ++ delivery.bytes } := by
  rw [perform, Action.after_bind_read,
    Action.after_of_ok (Piece.putAll_unbounded delivery.pieces unbounded), bytes]

theorem outcome_perform_unbounded (delivery : Delivery) {sink : Sink}
    (unbounded : sink.capacity = none) : delivery.perform.outcome sink = delivery.ending := by
  rw [perform, Action.outcome_bind_read,
    Action.outcome_of_ok (Piece.putAll_unbounded delivery.pieces unbounded)]
  rfl

theorem keeps_flushes (delivery : Delivery) :
    Action.Keeps (fun sink : Sink => sink.flushes = true) delivery.perform :=
  (Piece.keeps_flushes delivery.pieces).bind fun _ => Action.Keeps.read _

variable {sink : Sink} {limit : Nat} (limited : sink.capacity = some limit)
  (room : sink.written.size ≤ limit)

include limited room

theorem after_perform_limited (delivery : Delivery) : delivery.perform.after sink =
    { sink with written := (sink.written ++ delivery.bytes).extract 0 limit } := by
  have put := Piece.putAll_limited delivery.pieces limited room
  rw [perform, Action.after_bind_read, bytes]
  simp only at put
  split at put
  next => rw [Action.after_of_ok put]
  next => rw [Action.after_of_error put]

theorem outcome_perform_limited (delivery : Delivery) : delivery.perform.outcome sink =
    match Piece.overflow? delivery.pieces (limit - sink.written.size) with
    | none => delivery.ending
    | some fault => .error fault := by
  have put := Piece.putAll_limited delivery.pieces limited room
  rw [perform, Action.outcome_bind_read]
  simp only at put
  split at put
  next => rw [Action.outcome_of_ok put]; rfl
  next => rw [Action.outcome_of_error put]; rfl

omit limited room

/-- A piece that reports a full output as what it is. -/
def plain (text : String) : Piece :=
  ⟨text, .io .full⟩

/-- The description of a specimen with the vectors of its golden run. -/
def describe (specimen : Specimen) (vectors : List GoldenVector) : ModuleDescription :=
  { ModuleDescription.ofCircuit specimen.name specimen.circuit with
    vectors := vectors.map (ModuleDescription.Vector.ofGolden specimen.circuit) }

/-- What is written of a specimen whose golden run ends like this. -/
def ofRun (specimen : Specimen) (run : Except Fault (List GoldenVector)) : Format → Delivery
  | .flo => ⟨[plain (Flo.render (Flo.ofCircuit specimen.circuit))], .ok ()⟩
  | .chisel =>
    let module := plain (Chisel.Module.ofCircuit specimen.name specimen.circuit).render
    match run with
    | .ok vectors => ⟨[module, plain (Chisel.renderTester specimen.name
        (vectors.flatMap (Chisel.commandsOfVector specimen.circuit)))], .ok ()⟩
    | .error fault => ⟨[module], .error fault⟩
  | .vcd =>
    match run with
    | .ok vectors => ⟨[plain ((Waveform.Recorder.ofSpecimen Waveform.defaultTimescale
        specimen).captureVectors vectors).render], .ok ()⟩
    | .error fault => ⟨[], .error fault⟩
  | .json =>
    match run with
    | .ok vectors => ⟨[⟨(describe specimen vectors).toJson.indented 0, .jsonNotWritten .full⟩,
        plain "\n"], .ok ()⟩
    | .error fault => ⟨[], .error fault⟩

/-- What is written of a specimen in a format, according to a plan. -/
def ofSpecimen (specimen : Specimen) (format : Format) (plan : RunPlan) : Delivery :=
  ofRun specimen ((Specimen.goldenRun plan).outcome specimen) format

theorem overflow_of_plain {specimen : Specimen} {format : Format} {plan : RunPlan}
    (other : format ≠ .json) :
    ∀ piece ∈ (ofSpecimen specimen format plan).pieces, piece.overflow = .io .full := by
  unfold ofSpecimen
  generalize (Specimen.goldenRun plan).outcome specimen = run
  cases format with
  | flo => simp [ofRun, plain]
  | chisel => cases run <;> simp [ofRun, plain]
  | vcd => cases run <;> simp [ofRun, plain]
  | json => contradiction

/-- The action puts this piece to the output. -/
def Puts (action : Action Desk Unit) (piece : Piece) : Prop :=
  ∀ desk, action desk = match piece.put desk.sink with
    | .ok () sink => .ok () { desk with sink }
    | .error fault sink => .error fault { desk with sink }

/-- Writing a specimen by the action comes to this delivery. -/
def Delivers (action : Action Desk Unit) (specimen : Specimen) (delivery : Delivery) : Prop :=
  ∀ sink, Desk.writing specimen action sink = delivery.perform sink

theorem puts_adapted (text : String) (report : Fault → Fault) :
    Puts ((Desk.put text).adaptExcept report) ⟨text, report (.io .full)⟩ := by
  intro desk
  simp only [Desk.put, Desk.onSink, Action.within, Piece.put, EStateM.adaptExcept]
  cases put : Sink.put text desk.sink with
  | ok answer left => rfl
  | error fault left =>
    have cause : fault = .io .full := by
      simp only [Sink.put] at put
      grind
    simp only [cause]

theorem puts_plain (text : String) : Puts (Desk.put text) (plain text) := by
  intro desk
  have same := puts_adapted text id desk
  rw [EStateM.adaptExcept] at same
  cases run : Desk.put text desk <;> simpa only [run, id, plain] using same

theorem Delivers.cons {first next : Action Desk Unit} {specimen : Specimen} {piece : Piece}
    {pieces : List Piece} {ending : Except Fault Unit} (put : Puts first piece)
    (later : Delivers next specimen ⟨pieces, ending⟩) :
    Delivers (first >>= fun _ => next) specimen ⟨piece :: pieces, ending⟩ := by
  intro sink
  simp only [Desk.writing, perform, Piece.putAll, bind_assoc]
  cases taken : piece.put sink with
  | ok answer left =>
    have put : first { specimen, sink } = .ok answer { specimen, sink := left } := by
      rw [put, taken]
    rw [Action.bind_of_ok put, Action.bind_of_ok taken]
    exact later left
  | error fault left =>
    have put : first { specimen, sink } = .error fault { specimen, sink := left } := by
      rw [put, taken]
    rw [Action.bind_of_error put, Action.bind_of_error taken]

theorem Delivers.last {action : Action Desk Unit} {piece : Piece} (put : Puts action piece)
    (specimen : Specimen) : Delivers action specimen ⟨[piece], .ok ()⟩ := by
  have done : Delivers (pure ()) specimen ⟨[], .ok ()⟩ := fun _ => rfl
  have whole := Delivers.cons put done
  rwa [bind_pure] at whole

theorem Delivers.run_of_ok {specimen left : Specimen} {plan : RunPlan} {vectors : List GoldenVector}
    (run : Specimen.goldenRun plan specimen = .ok vectors left)
    {next : List GoldenVector → Action Desk Unit} {delivery : Delivery}
    (later : Delivers (next vectors) left delivery) :
    Delivers (Desk.onSpecimen (Specimen.goldenRun plan) >>= next) specimen delivery := by
  intro sink
  have ran : Desk.onSpecimen (Specimen.goldenRun plan) { specimen, sink } =
      .ok vectors { specimen := left, sink } := by
    simp only [Desk.onSpecimen, Action.within, run]
  rw [Desk.writing, Action.bind_of_ok ran]
  exact later sink

theorem Delivers.run_of_error {specimen left : Specimen} {plan : RunPlan} {fault : Fault}
    (run : Specimen.goldenRun plan specimen = .error fault left)
    (next : List GoldenVector → Action Desk Unit) :
    Delivers (Desk.onSpecimen (Specimen.goldenRun plan) >>= next) specimen
      ⟨[], .error fault⟩ := by
  intro sink
  have ran : Desk.onSpecimen (Specimen.goldenRun plan) { specimen, sink } =
      .error fault { specimen := left, sink } := by
    simp only [Desk.onSpecimen, Action.within, run]
  rw [Desk.writing, Action.bind_of_error ran]
  rfl

theorem writing_get (next : Desk → Action Desk Unit) (specimen : Specimen) (sink : Sink) :
    Desk.writing specimen (get >>= next) sink =
      Desk.writing specimen (next { specimen, sink }) sink :=
  rfl

/-- Writing a specimen comes to its delivery, in every format and for every output. -/
theorem writing_eq (specimen : Specimen) (format : Format) (plan : RunPlan) :
    Desk.writing specimen (Desk.write format plan) =
      (ofSpecimen specimen format plan).perform := by
  funext sink
  cases run : Specimen.goldenRun plan specimen with
  | ok vectors left =>
    rw [ofSpecimen, Action.outcome_of_ok run]
    cases format with
    | flo =>
      rw [Desk.write, Desk.writeFlo, writing_get]
      exact Delivers.last (puts_plain _) specimen sink
    | chisel =>
      rw [Desk.write, Desk.writeChisel, writing_get]
      exact ((Delivers.last (puts_plain _) left).run_of_ok run).cons (puts_plain _) sink
    | vcd =>
      rw [Desk.write, Desk.writeDump, writing_get]
      exact (Delivers.last (puts_plain _) left).run_of_ok run sink
    | json =>
      have body := puts_adapted ((describe specimen vectors).toJson.indented 0) Desk.jsonFault
      rw [Desk.write, Desk.writeDescription, writing_get]
      exact ((Delivers.last (puts_plain "\n") left).cons body).run_of_ok run sink
  | error fault left =>
    rw [ofSpecimen, Action.outcome_of_error run]
    cases format with
    | flo =>
      rw [Desk.write, Desk.writeFlo, writing_get]
      exact Delivers.last (puts_plain _) specimen sink
    | chisel =>
      rw [Desk.write, Desk.writeChisel, writing_get]
      exact (Delivers.run_of_error run _).cons (puts_plain _) sink
    | vcd =>
      rw [Desk.write, Desk.writeDump, writing_get]
      exact Delivers.run_of_error run _ sink
    | json =>
      rw [Desk.write, Desk.writeDescription, writing_get]
      exact Delivers.run_of_error run _ sink

end Delivery
end GoldenCircuit
