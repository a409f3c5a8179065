import GoldenCircuit.Proofs.Session
import GoldenCircuit.Proofs.Specimen

/-! The recorded past. Values are recorded for the present cycle only, and no command goes back to
an earlier one, so that what a signal held at a completed cycle can be asked for at any time
later. -/
namespace GoldenCircuit

namespace Circuit

/-- The circuit later on: it is at no earlier cycle, and its signals still hold at completed cycles
what they held there. -/
structure Continues (later earlier : Circuit) : Prop where
  cycle_le : earlier.cycle ≤ later.cycle
  valueAt_eq : ∀ id, ∀ cycle < earlier.cycle,
    later.netlist.valueAt id cycle = earlier.netlist.valueAt id cycle

namespace Continues

variable {later earlier : Circuit}

theorem refl (circuit : Circuit) : circuit.Continues circuit :=
  ⟨Nat.le_refl _, fun _ _ _ => rfl⟩

/-- Recording for the present cycle, whether it is refused or not, leaves the past alone. -/
theorem record (continues : later.Continues earlier) {id : Nat} (within : id < later.netlist.size)
    (value : Nat) : (later.record id value).Continues earlier where
  cycle_le := continues.cycle_le
  valueAt_eq other cycle past := by
    have before : cycle < later.cycle := Nat.lt_of_lt_of_le past continues.cycle_le
    rw [← continues.valueAt_eq other cycle past]
    exact Netlist.valueAt_record_of_lt within before value other

theorem advance (continues : later.Continues earlier) : later.advance.Continues earlier where
  cycle_le := Nat.le_succ_of_le continues.cycle_le
  valueAt_eq := continues.valueAt_eq

end Continues
end Circuit

namespace Specimen

/-- Whatever is done with a specimen, it goes on from where it was. -/
theorem continues_performing (specimen : Specimen) (commands : List Command) :
    (specimen.performing commands).circuit.Continues specimen.circuit :=
  performing_keeps (@keeps_poke (·.Continues specimen.circuit) .record)
    (@keeps_step (·.Continues specimen.circuit) .record .advance) commands (.refl _)

/-- What a signal holds at a completed cycle, or that it holds no value there, stays as it is
whatever is done later. -/
theorem valueAt_performing (specimen : Specimen) (commands more : List Command) {cycle : Nat}
    (past : cycle < (specimen.performing commands).circuit.cycle) (id : Nat) :
    ((specimen.performing commands).performing more).circuit.netlist.valueAt id cycle =
      (specimen.performing commands).circuit.netlist.valueAt id cycle :=
  ((specimen.performing commands).continues_performing more).valueAt_eq id cycle past

/-- One input is recorded for a cycle to come, and another is listed twice and is the output, so
that the step replaces what was driven there. -/
theorem valueAt_performing_of_entangled :
    let circuit : Circuit :=
      { netlist := ((Netlist.empty.add "ahead" (some ⟨4, by decide⟩)).1.add "shared").1.record 0 5 3
        inputs := #[0, 1, 1], gates := #[], outputs := #[1]
        inputs_lt := by decide, gates_within := by decide, outputs_lt := by decide }
    let specimen : Specimen := { name := "entangled", width := ⟨4, by decide⟩, circuit }
    let commands : List Command := [.poke 1 9, .poke 0 1, .step, .poke 2 3]
    let more : List Command := [.poke 1 6, .step, .goldenRun { cycles := 3 }, .poke 2 7]
    0 < (specimen.performing commands).circuit.cycle ∧
      ((specimen.performing commands).performing more).circuit.netlist.valueAt 1 0 =
        (specimen.performing commands).circuit.netlist.valueAt 1 0 :=
  ⟨by decide, valueAt_performing _ _ _ (by decide) 1⟩

end Specimen
end GoldenCircuit
